import StructPadding.Go.Rendering
import StructPadding.Journal
import StructPadding.Json.Value
import StructPadding.Reordering

/-!
# Advice

A declaration under review gets a suggestion when its proposed layout has strictly less padding. If
the declaration had less padding before the change, the suggestion says so. There is no advice on a
declaration that cannot be laid out again, nor on one whose proposal cannot be shown; the first is
passed over, the second ends the review.
-/

namespace StructPadding.Review

/-- A declaration that a change touches: its layout now, and before the change unless it is new. -/
structure Revised where
  head : Layout
  base : Option Layout

/-- The padding of a declaration before and after a change that grew it. -/
structure Regression where
  before : UInt64
  after : UInt64
deriving DecidableEq

/-- A better order for the fields of a declaration. -/
structure Suggestion where
  name : String
  /-- The first line of the declaration. -/
  line : Nat
  /-- A line for each field as it is now, padding included. -/
  current : List String
  /-- The proposed declaration. -/
  proposed : String
  currentPadding : UInt64
  proposedPadding : UInt64
  regression : Option Regression
deriving DecidableEq

namespace Suggestion

/-- The padding bytes that the proposal does without. -/
def saved (s : Suggestion) : UInt64 :=
  Measure.distance s.proposedPadding s.currentPadding

/-- The text of a review comment; the proposal stands in a code block marked with `fence`. -/
def comment (s : Suggestion) (fence : String) : String :=
  let intro := "We've detected the memory layout could be improved to reduce padding."
  let fields := String.join (s.current.map (· ++ "\n"))
  let growth :=
    match s.regression with
    | some r =>
      s!"\nThis change grows the padding of `{s.name}` from {r.before} to {r.after} bytes.\n"
    | none => ""
  intro ++ "\n\n**Struct info:**\n" ++ fields ++ growth ++
    s!"\nHere's the proposed layout:\n\n```{fence}\n{s.proposed}\n```"

def toJson (s : Suggestion) : Json :=
  let regression :=
    match s.regression with
    | some r => [("regression", Json.object [("base_padding", .int r.before.toNat),
        ("head_padding", .int r.after.toNat)])]
    | none => []
  .object ([("struct_name", .string s.name), ("line", .int s.line),
    ("before", .array (s.current.map Json.string)), ("after", .string s.proposed),
    ("current_padding", .int s.currentPadding.toNat),
    ("optimized_padding", .int s.proposedPadding.toNat)] ++ regression)

end Suggestion

/-- The growth of padding between two layouts of a declaration. -/
def regression? (reported : Bool) (r : Revised) : Option Regression :=
  match r.base with
  | some base =>
    if reported && base.padding < r.head.padding then some ⟨base.padding, r.head.padding⟩ else none
  | none => none

/-- What to suggest for a declaration, given its proposed layout. -/
def suggest? (reported : Bool) (r : Revised) (proposal : Layout) :
    Except Text.TooWide (Option Suggestion) :=
  if proposal.padding < r.head.padding then do
    let proposed ← Go.render proposal
    return some {
      name := r.head.name
      line := r.head.lines.first
      current := r.head.fields.map Field.text
      proposed := proposed
      currentPadding := r.head.padding
      proposedPadding := proposal.padding
      regression := regression? reported r }
  else .ok none

/-- Why there is no advice on a declaration: it cannot be laid out again, or its proposal cannot be
shown. -/
inductive AdviceFault where
  | layout (error : LayoutError)
  | column (fault : Text.TooWide)
deriving DecidableEq

/-- The advice on one declaration. -/
def advise (rule : RecordRule) (reported : Bool) (r : Revised) :
    Except AdviceFault (Option Suggestion) := do
  let proposal ← (r.head.reorder rule).mapError .layout
  (suggest? reported r proposal).mapError .column

/-- A proposed layout, with a note on the padding it has. -/
def propose (rule : RecordRule) (l : Layout) : Journal (Except LayoutError Layout) := do
  let outcome := l.reorder rule
  match outcome with
  | .ok proposal =>
    .note .trace s!"optimized {l.name}: padding {l.padding} -> {proposal.padding}"
  | .error _ => pure ()
  return outcome

/-- The advice on one declaration, with notes on the way. -/
def consult (rule : RecordRule) (reported : Bool) (r : Revised) :
    Journal (Except AdviceFault (Option Suggestion)) := do
  match ← propose rule r.head with
  | .ok proposal =>
    .note .debug (s!"for struct {r.head.name} padding was {r.head.padding}, " ++
      s!"but could be optimized to {proposal.padding}")
    return (suggest? reported r proposal).mapError .column
  | .error e => return .error (.layout e)

/-- The suggestions for several declarations. One that cannot be laid out again is passed over. -/
def consultAll (rule : RecordRule) (reported : Bool) :
    List Revised → Journal (Except Text.TooWide (List Suggestion))
  | [] => return .ok []
  | r :: rs => do
    match ← consult rule reported r with
    | .ok advice =>
      let rest ← consultAll rule reported rs
      return rest.map (advice.toList ++ ·)
    | .error (.layout e) =>
      .note .warn s!"skipping struct {r.head.name}: {e.message}"
      consultAll rule reported rs
    | .error (.column e) => return .error e

theorem propose_value (rule : RecordRule) (l : Layout) :
    (propose rule l).value = l.reorder rule := by
  unfold propose
  cases h : l.reorder rule <;> rfl

theorem consult_value (rule : RecordRule) (reported : Bool) (r : Revised) :
    (consult rule reported r).value = advise rule reported r := by
  unfold consult advise
  rw [Journal.value_bind, propose_value]
  cases r.head.reorder rule <;> rfl

end StructPadding.Review

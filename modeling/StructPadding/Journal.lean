/-!
# Journal

Work that takes notes on the way: a result together with what there was to say about it, in order.
-/

namespace StructPadding

/-- How much a note matters, most first. -/
inductive Level where
  | error
  | warn
  | info
  | debug
  | trace
deriving DecidableEq

namespace Level

def rank : Level → Nat
  | error => 0
  | warn => 1
  | info => 2
  | debug => 3
  | trace => 4

def label : Level → String
  | error => "ERROR"
  | warn => "WARN"
  | info => "INFO"
  | debug => "DEBUG"
  | trace => "TRACE"

/-- The threshold that a word asks for, in any case: notes down to a level, or none at all. A word
that means nothing asks for `info`. -/
def ofWord (word : String) : Option Level :=
  match word.map Char.toLower with
  | "error" => some error
  | "warn" | "warning" => some warn
  | "info" => some info
  | "debug" => some debug
  | "trace" => some trace
  | "off" => none
  | _ => some info

end Level

/-- Something worth telling about the work. -/
structure Note where
  level : Level
  text : String
deriving DecidableEq

namespace Note

/-- Whether the note matters enough for a threshold. -/
def passes (threshold : Option Level) (n : Note) : Bool :=
  match threshold with
  | some level => n.level.rank ≤ level.rank
  | none => false

def line (n : Note) : String :=
  n.level.label ++ " " ++ n.text

end Note

/-- A result and the notes taken while it was worked out. -/
structure Journal (α : Type) where
  value : α
  notes : List Note

namespace Journal

instance : Monad Journal where
  pure a := ⟨a, []⟩
  bind j f := ⟨(f j.value).value, j.notes ++ (f j.value).notes⟩

/-- Takes one note. -/
def note (level : Level) (text : String) : Journal Unit :=
  ⟨(), [⟨level, text⟩]⟩

@[simp]
theorem value_pure {α : Type} (a : α) : (pure a : Journal α).value = a :=
  rfl

@[simp]
theorem value_bind {α β : Type} (j : Journal α) (f : α → Journal β) :
    (j >>= f).value = (f j.value).value :=
  rfl

end Journal

end StructPadding

import StructPadding.Go.Sizes
import StructPadding.RecordRule.Json

/-!
# Configuration

What a review can be told: the target, the rule for records, and what to report. A configuration is
kept in JSON, where every setting that is left out has its usual value.
-/

namespace StructPadding

structure Config where
  /-- The bytes of a pointer of the target. -/
  wordSize : UInt64 := 8
  recordRule : RecordRule := .standard
  reportRegressions : Bool := true
  /-- Whether files may be worked on at the same time. -/
  parallel : Bool := true
  excludeVendored : Bool := true
deriving DecidableEq

/-- Why a configuration cannot be used. -/
inductive ConfigFault where
  | wordSize (bytes : UInt64)
  | recordAlignment (bytes : UInt64)
deriving DecidableEq

def ConfigFault.message : ConfigFault → String
  | wordSize bytes => s!"word_size must be 4 or 8, got {bytes.toNat}"
  | recordAlignment bytes => s!"struct_alignment must be a power of two, got {bytes.toNat}"

namespace Config

def target (c : Config) : Go.Target :=
  ⟨c.wordSize⟩

/-- Checks the word size and the alignment of records. -/
def check (c : Config) : Except ConfigFault Unit :=
  if c.wordSize ≠ 4 ∧ c.wordSize ≠ 8 then .error (.wordSize c.wordSize)
  else
    match c.recordRule with
    | .fixed n =>
      match Alignment.ofBytes? n.toNat with
      | some _ => .ok ()
      | none => .error (.recordAlignment n)
    | .natural => .ok ()

def toJson (c : Config) : Json :=
  .object [("word_size", .int c.wordSize.toNat), ("struct_alignment", c.recordRule.toJson),
    ("report_regressions", .bool c.reportRegressions), ("parallel", .bool c.parallel),
    ("exclude_vendored", .bool c.excludeVendored)]

/-- Decodes a configuration in which at most `limit` lists and objects are nested. -/
def ofNode : Nat → Json.Node → Json.Decoded Config :=
  Json.RecordShape.decode
    ⟨"Config",
      ["word_size", "struct_alignment", "report_regressions", "parallel", "exclude_vendored"], 0⟩
    ({} : Config)
    (fun limit c (key, n) =>
      if key = "word_size" then n.asUInt64.map fun w => { c with wordSize := w }
      else if key = "struct_alignment" then
        (RecordRule.ofNode limit n).map fun r => { c with recordRule := r }
      else if key = "report_regressions" then
        n.asBool.map fun b => { c with reportRegressions := b }
      else if key = "parallel" then n.asBool.map fun b => { c with parallel := b }
      else n.asBool.map fun b => { c with excludeVendored := b })
    .ok

end Config

end StructPadding

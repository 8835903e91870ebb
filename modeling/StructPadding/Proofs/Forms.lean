import Mathlib.Tactic.SplitIfs
import StructPadding.Go.Shape

/-!
# The layout of a compiler

What a type is once its names are followed (`Form`), and the sizes and offsets a compiler gives it,
each computed from those of its parts. Fields lie one after another at multiples of their
alignments. The size of a struct is a multiple of the largest of these, and if its last field has no
size, a byte is added behind it. Whether that byte is added to a struct in which no field has a size
is for the compiler to say (`Compiler.always`), and it makes a difference only to types in which
there is such a struct (`rows_always`).
-/

namespace StructPadding.Go

/-- What a type is made of. -/
inductive Form where
  /-- So many numbers of so many bytes each. -/
  | numbers (count width : Nat)
  | array (length : Nat) (elem : Form)
  | struct (fields : List (String × Form))

/-- A compiler for words of so many bytes. -/
structure Compiler where
  word : Nat
  /-- Whether a struct in which no field has a size gets the byte at the end. -/
  always : Bool

/-- The compiler that gives no byte to a struct in which no field has a size. -/
def Compiler.gc (word : Nat) : Compiler :=
  ⟨word, false⟩

@[simp]
theorem Compiler.word_gc (word : Nat) : (gc word).word = word :=
  rfl

/-- The bytes of a field that starts at an offset, with the byte behind the last one. -/
def Compiler.held (c : Compiler) (last : Bool) (start size : Nat) : Nat :=
  if last ∧ size = 0 ∧ (c.always ∨ 0 < start) then 1 else size

/-- A field by where it starts and what it takes up, with the fields inside it. -/
inductive Row where
  | mk (name : String) (start size : Nat) (inner : List Row)

/-- The first multiple of an alignment that is not below `offset`. -/
def nextMultiple (align offset : Nat) : Nat :=
  (offset + align - 1) / align * align

namespace Form

mutual

/-- Numbers are aligned to their width, up to a word, and all else like what it is made of. -/
def align (word : Nat) : Form → Nat
  | numbers _ width => min width word
  | array _ elem => elem.align word
  | struct fields => alignAll word fields

def alignAll (word : Nat) : List (String × Form) → Nat
  | [] => 1
  | (_, form) :: fields => max (form.align word) (alignAll word fields)

end

mutual

def size (c : Compiler) : Form → Nat
  | numbers count width => count * width
  | array length elem => length * elem.size c
  | struct fields => nextMultiple (alignAll c.word fields) (stopOf c 0 fields)

/-- Where fields end that are laid out from an offset on. -/
def stopOf (c : Compiler) (offset : Nat) : List (String × Form) → Nat
  | [] => offset
  | (_, form) :: fields =>
    let start := nextMultiple (form.align c.word) offset
    stopOf c (start + c.held fields.isEmpty start (form.size c)) fields

end

mutual

/-- The fields of a struct that lies at `base`. -/
def rows (c : Compiler) (base : Nat) : Form → List Row
  | numbers .. => []
  | array .. => []
  | struct fields => rowsOf c base 0 fields

/-- The fields of a struct at `base` that are laid out from an offset in it on. -/
def rowsOf (c : Compiler) (base offset : Nat) : List (String × Form) → List Row
  | [] => []
  | (name, form) :: fields =>
    let start := nextMultiple (form.align c.word) offset
    let size := c.held fields.isEmpty start (form.size c)
    .mk name (base + start) size (form.rows c (base + start)) ::
      rowsOf c base (start + size) fields

end

end Form

/-! ## Types -/

/-- The predeclared types, as numbers of one width. -/
def basic? (word : Nat) : String → Option (Nat × Nat)
  | "bool" | "byte" | "int8" | "uint8" => some (1, 1)
  | "int16" | "uint16" => some (1, 2)
  | "int32" | "uint32" | "rune" | "float32" => some (1, 4)
  | "int64" | "uint64" | "float64" => some (1, 8)
  | "complex64" => some (2, 4)
  | "complex128" => some (2, 8)
  | "int" | "uint" | "uintptr" => some (1, word)
  | "string" | "error" | "any" => some (2, word)
  | _ => none

/-- How many words a type is that only refers to others. -/
def TypeExpr.words? : TypeExpr → Option Nat
  | pointer _ | map _ _ | chan _ _ | func _ => some 1
  | qualified package name => if package = "unsafe" ∧ name = "Pointer" then some 1 else none
  | interface _ => some 2
  | slice _ => some 3
  | _ => none

/-- A type is of a form when its names stand for their declarations. -/
inductive Expands (s : Scope) : TypeExpr → Form → Prop
  | basic {name : String} {count width : Nat} (hfind : s.find? name = none)
    (h : basic? s.target.word.toNat name = some (count, width)) :
    Expands s (.named name) (.numbers count width)
  | declared {name : String} {decl : TypeDecl} {form : Form} (hfind : s.find? name = some decl)
    (hgeneric : decl.generic = false) (h : Expands s decl.type form) :
    Expands s (.named name) form
  | reference {t : TypeExpr} {count : Nat} (h : t.words? = some count) :
    Expands s t (.numbers count s.target.word.toNat)
  | array {length : Nat} {elem : TypeExpr} {form : Form} (h : Expands s elem form) :
    Expands s (.array length elem) (.array length form)
  | nil : Expands s (.struct []) (.struct [])
  | cons {field : FieldDecl TypeExpr} {fields : List (FieldDecl TypeExpr)} {form : Form}
    {forms : List (String × Form)} (head : Expands s field.type form)
    (tail : Expands s (.struct fields) (.struct forms)) :
    Expands s (.struct (field :: fields)) (.struct ((field.name, form) :: forms))

/-- A type is of one form at most. -/
theorem Expands.unique {s : Scope} {t : TypeExpr} {form form' : Form} (h : Expands s t form)
    (h' : Expands s t form') : form = form' := by
  induction h generalizing form' with
  | basic hfind hbasic =>
    cases h' with
    | basic _ hbasic' =>
      obtain ⟨rfl, rfl⟩ := Prod.mk.inj (Option.some.inj (hbasic.symm.trans hbasic'))
      rfl
    | declared hfind' => cases hfind.symm.trans hfind'
    | reference hwords => cases hwords
  | declared hfind _ _ ih =>
    cases h' with
    | basic hfind' => cases hfind.symm.trans hfind'
    | declared hfind' _ h' =>
      obtain rfl := Option.some.inj (hfind.symm.trans hfind')
      exact ih h'
    | reference hwords => cases hwords
  | reference hwords =>
    cases h' with
    | reference hwords' => rw [Option.some.inj (hwords.symm.trans hwords')]
    | _ => cases hwords
  | array _ ih =>
    cases h' with
    | reference hwords => cases hwords
    | array h' => rw [ih h']
  | nil =>
    cases h' with
    | reference hwords => cases hwords
    | nil => rfl
  | cons _ _ ihHead ihTail =>
    cases h' with
    | reference hwords => cases hwords
    | cons head tail => rw [ihHead head, Form.struct.inj (ihTail tail)]

/-! ## Structs without a size -/

namespace Form

mutual

/-- Every struct in the form that has fields has a size. -/
def Filled (word : Nat) : Form → Prop
  | numbers .. => True
  | array _ elem => elem.Filled word
  | struct fields => (fields ≠ [] → 0 < stopOf (.gc word) 0 fields) ∧ FilledAll word fields

def FilledAll (word : Nat) : List (String × Form) → Prop
  | [] => True
  | (_, form) :: fields => form.Filled word ∧ FilledAll word fields

end

theorem held_always {word start size : Nat} {last : Bool}
    (h : last = true → 0 < start + (Compiler.gc word).held last start size) :
    Compiler.held ⟨word, true⟩ last start size = (Compiler.gc word).held last start size := by
  rcases last with _ | _
  · simp [Compiler.held]
  · have hpos := h rfl
    by_cases hsize : size = 0
    · by_cases hstart : start = 0
      · simp [Compiler.held, Compiler.gc, hsize, hstart] at hpos
      · simp [Compiler.held, Compiler.gc, hsize, Nat.pos_of_ne_zero hstart]
    · simp [Compiler.held, hsize]

mutual

/-- The compilers agree on a form in which every struct with fields has a size. -/
theorem rows_always {word : Nat} : ∀ {form : Form}, form.Filled word →
    form.size ⟨word, true⟩ = form.size (.gc word) ∧
      ∀ base, form.rows ⟨word, true⟩ base = form.rows (.gc word) base
  | numbers .., _ => by simp [size, rows]
  | array length elem, h => by
    rw [Filled] at h
    simp [size, rows, (rows_always h).1]
  | struct fields, h => by
    rw [Filled] at h
    obtain ⟨hstop, hrows⟩ := rowsOf_always h.2 h.1
    simp only [size, rows, hstop]
    exact ⟨rfl, hrows⟩

theorem rowsOf_always {word : Nat} : ∀ {fields : List (String × Form)} {offset : Nat},
    FilledAll word fields → (fields ≠ [] → 0 < stopOf (.gc word) offset fields) →
      stopOf ⟨word, true⟩ offset fields = stopOf (.gc word) offset fields ∧
        ∀ base, rowsOf ⟨word, true⟩ base offset fields = rowsOf (.gc word) base offset fields
  | [], _, _, _ => by simp [stopOf, rowsOf]
  | (name, form) :: fields, offset, hfields, hpos => by
    rw [FilledAll] at hfields
    obtain ⟨hsize, hinner⟩ := rows_always hfields.1
    have hpos' := hpos (List.cons_ne_nil _ _)
    rw [stopOf, Compiler.word_gc] at hpos'
    have hheld : ∀ start, start = nextMultiple (form.align word) offset →
        Compiler.held ⟨word, true⟩ fields.isEmpty start (form.size (.gc word)) =
          (Compiler.gc word).held fields.isEmpty start (form.size (.gc word)) := by
      rintro start rfl
      refine held_always fun hlast => ?_
      obtain rfl := List.isEmpty_iff.1 hlast
      rwa [stopOf] at hpos'
    obtain ⟨hstop, hrest⟩ := rowsOf_always hfields.2 fun _ => hpos'
    simp only [stopOf, rowsOf, Compiler.word_gc, hsize, hinner, hheld _ rfl] at hstop hrest ⊢
    exact ⟨hstop, fun base => by rw [hrest]⟩

end

end Form

end StructPadding.Go

import StructPadding.Proofs.Encoded
import StructPadding.Proofs.Relisted

/-!
# A proposal in place of the declaration

The text of a proposal can take the place of the declaration that it was made for: it is read as one
declaration of the same name, and in the file with that declaration in place of the old one the
struct is laid out as the proposal is (`proposal_replaces`). What a declaration is resolved from
comes before it, so a replaced declaration leaves that part of a memory as it was (`Sound.replace`).
There is no such text if a name is longer than a column (`wide_not_shown`).
-/

namespace StructPadding.Go

open TypeExpr (WrittenAll allPlain spreadBackAll)

namespace Scope

variable {s : Scope}

/-- The scope in which a declaration stands in place of the one that has its name. -/
def replace (s : Scope) (decl : TypeDecl) : Scope :=
  { s with decls := s.decls.map fun d => if d.name = decl.name then decl else d }

/-- What is remembered after these names have been resolved, the last of the list first. -/
def remembered (s : Scope) : List String → Memo
  | [] => []
  | name :: names => (s.resolve name (s.remembered names)).2

theorem sound_remembered (s : Scope) : ∀ names : List String, s.Sound (s.remembered names)
  | [] => .nil
  | name :: names => by
    obtain ⟨memo', heq, hsound, -, -⟩ := resolve_eq (s.sound_remembered names) name
    rw [remembered, heq]
    exact hsound

/-! ## Resolution with a declaration replaced -/

theorem find?_replace (decl : TypeDecl) (name : String) : (s.replace decl).find? name =
    (s.find? name).map fun d => if d.name = decl.name then decl else d := by
  have hname : ∀ d : TypeDecl, (if d.name = decl.name then decl else d).name = d.name := by
    intro d
    split_ifs with h
    · exact h.symm
    · rfl
  unfold find? replace
  rw [List.find?_map]
  simp only [Function.comp_def, hname]

theorem find?_replace_of_ne {decl : TypeDecl} {name : String} (h : name ≠ decl.name) :
    (s.replace decl).find? name = s.find? name := by
  rw [find?_replace]
  rcases hfind : s.find? name with _ | d
  · rfl
  · rw [Option.map_some, if_neg]
    rw [(find?_mem hfind).2]
    exact h

theorem known_replace (decl : TypeDecl) (memo : Memo) :
    (s.replace decl).known memo = s.known memo := by
  funext name
  unfold known
  rw [find?_replace]
  rcases s.find? name with _ | d <;> rfl

theorem shapeOf_replace (decl : TypeDecl) (memo : Memo) (t : TypeExpr) :
    (s.replace decl).shapeOf ((s.replace decl).known memo) t = s.shapeOf (s.known memo) t := by
  rw [known_replace]
  apply shapeOf_congr <;> rfl

/-- A memory in which a name is not resolved stays one when its declaration is replaced. -/
theorem Sound.replace {memo : Memo} (h : s.Sound memo) {decl : TypeDecl} :
    memo.lookup decl.name = none → (s.replace decl).Sound memo := by
  induction h with
  | nil => exact fun _ => .nil
  | @cons name d shape memo hdecl hgeneric hnew hshape _ ih =>
    intro hlookup
    have hne : name ≠ decl.name := by
      rintro rfl
      simp at hlookup
    rw [lookup_cons_ne shape memo hne.symm] at hlookup
    refine .cons ((find?_replace_of_ne hne).trans hdecl) hgeneric hnew ?_ (ih hlookup)
    rw [shapeOf_replace, hshape]

/-- A declaration that replaces another has the shape of its type where the other was resolved. -/
theorem shape_replace {d decl : TypeDecl} {memo : Memo} {shape : Shape}
    (hd : s.find? decl.name = some d) (hgeneric : decl.generic = false) (hmemo : s.Sound memo)
    (hnew : memo.lookup decl.name = none)
    (hshape : s.shapeOf (s.known memo) decl.type = .ok shape) :
    (s.replace decl).shape decl.name = .ok shape := by
  have hfind : (s.replace decl).find? decl.name = some decl := by
    rw [find?_replace, hd, Option.map_some, if_pos (find?_mem hd).2]
  have hsound : (s.replace decl).Sound ((decl.name, shape) :: memo) :=
    .cons hfind hgeneric hnew (by rw [shapeOf_replace, hshape]) (hmemo.replace hnew)
  exact shape_of_lookup hsound (by simp)

/-! ## The struct behind a type -/

/-- The fields of the struct that a type is, itself or by the names it leads to. -/
inductive Underlying (s : Scope) : TypeExpr → List (FieldDecl TypeExpr) → Prop
  | struct (fields : List (FieldDecl TypeExpr)) : Underlying s (.struct fields) fields
  | named {name : String} {decl : TypeDecl} {fields : List (FieldDecl TypeExpr)}
    (hdecl : s.find? name = some decl) (h : Underlying s decl.type fields) :
    Underlying s (.named name) fields

theorem Underlying.writtenAll {t : TypeExpr} {fields : List (FieldDecl TypeExpr)}
    (h : s.Underlying t fields) (hdecls : ∀ d ∈ s.decls, d.Written) :
    t.Written → WrittenAll fields := by
  induction h with
  | struct fields =>
    intro hw
    rwa [TypeExpr.Written] at hw
  | named hdecl _ ih => exact fun _ => ih (hdecls _ (find?_mem hdecl).1).type

theorem Underlying.allPlain {t : TypeExpr} {fields : List (FieldDecl TypeExpr)}
    (h : s.Underlying t fields) (hdecls : ∀ d ∈ s.decls, d.type.isPlain = true) :
    t.isPlain = true → allPlain fields = true := by
  induction h with
  | struct fields =>
    intro hp
    rwa [TypeExpr.isPlain] at hp
  | named hdecl _ ih => exact fun _ => ih (hdecls _ (find?_mem hdecl).1)

theorem predeclared_ne_record {name : String} {fields : List Descriptor} {size align : UInt64} :
    s.predeclared name ≠ .ok (.record fields size align) := by
  unfold predeclared
  split <;> exact nofun

/-- A type that is a record leads to a struct. Its fields are resolved from a part of the memory. -/
theorem exists_underlying {ds : List Descriptor} {size align : UInt64} {memo : Memo}
    (hmemo : s.Sound memo) {t : TypeExpr}
    (h : s.shapeOf (s.known memo) t = .ok (.record ds size align)) :
    ∃ fields rest, s.Underlying t fields ∧ s.Sound rest ∧ rest <:+ memo ∧
      s.descriptorsOf (s.known rest) fields = .ok ds := by
  -- each name on the way was resolved from a shorter memory
  induction hlength : memo.length using Nat.strong_induction_on generalizing memo t with
  | _ n ih =>
    rcases shapeOf_eq_record h with ⟨name, rfl, hname⟩ | ⟨fields, rfl, hds, -⟩
    · unfold known at hname
      rcases hfind : s.find? name with _ | found <;> simp only [hfind] at hname
      · exact absurd hname predeclared_ne_record
      rcases hlookup : memo.lookup name with _ | shape <;> simp only [hlookup] at hname
      · cases hname
      obtain rfl := Except.ok.inj hname
      obtain ⟨decl, rest, hdecl, -, -, hsound, hshorter, hsuffix, hshape⟩ := hmemo.split hlookup
      obtain ⟨fields, inner, hunder, hinner, hle, hds⟩ :=
        ih rest.length (hlength ▸ hshorter) hsound hshape rfl
      exact ⟨fields, inner, .named hdecl hunder, hinner, hle.trans hsuffix, hds⟩
    · exact ⟨fields, memo, .struct fields, hmemo, List.suffix_rfl, hds⟩

/-- A layout with the one declaration of its name: the fields of the struct that the declaration is,
and a memory without that name in which they have the descriptors that the layout places. -/
structure Origin (s : Scope) (l : Layout) (decl : TypeDecl) (fields : List (FieldDecl TypeExpr))
    (memo : Memo) (ds : List Descriptor) : Prop where
  found : s.find? l.name = some decl
  only : ∀ d ∈ s.decls, d.name = l.name → d = decl
  isName : isName l.name = true
  underlying : s.Underlying decl.type fields
  written : WrittenAll fields
  sound : s.Sound memo
  unresolved : memo.lookup l.name = none
  described : s.descriptorsOf (s.known memo) fields = .ok ds
  placed : place s.rule ds (0 : UInt64) = .ok l.fields

/-- Every layout of an accepted source has its origin there. -/
theorem exists_origin {target : Target} {rule : RecordRule} {path : String}
    {source : List UInt8} {decls : List TypeDecl} {layouts : List Layout}
    (hdecls : (sourceChars source >>= declarations) = .ok decls)
    (hlayouts : (extract target rule path source).value = .ok layouts) {l : Layout}
    (hl : l ∈ layouts) :
    ∃ decl fields memo ds, Origin ⟨target, rule, decls⟩ l decl fields memo ds := by
  obtain ⟨cs, hparsed, hre, hlaid⟩ := laid_of_extract hdecls hlayouts
  have hwritten := declarations_written hparsed
  obtain ⟨d, hd, -, hname, -, ds, size, align, hshape, hplace⟩ := hlaid.shape_of_mem .nil l hl
  have hfind : ∀ e ∈ decls, find? ⟨target, rule, decls⟩ e.name = some e :=
    fun e he => find?_of_mem hre he
  obtain ⟨-, memo, hmemo, hnew, hshape⟩ := shape_of_find? (hfind d hd) hshape
  obtain ⟨fields, rest, hunder, hrest, hsuffix, hds⟩ := exists_underlying hmemo hshape
  have hapart : Apart [d.name] memo := by simpa [Apart] using hnew
  refine ⟨d, fields, rest, ds, ?_⟩
  exact {
    found := hname ▸ hfind d hd
    only := fun e he hsame => by
      have hother := hfind e he
      rw [hsame, hname, hfind d hd] at hother
      exact (Option.some.inj hother).symm
    isName := hname ▸ (hwritten d hd).name
    underlying := hunder
    written := hunder.writtenAll hwritten (hwritten d hd).type
    sound := hrest
    unresolved := hname ▸ hapart.of_suffix hsuffix d.name List.mem_cons_self
    described := hds
    placed := hplace }

end Scope

/-! ## The proposal -/

/-- A struct that is declared by the name of another one, with records by name and written out. -/
def renamedRow : List UInt8 :=
  Text.Utf8.encode ("type Cell struct \x7b a byte; b int64 \x7d\n" ++
    "type Row struct \x7b f bool; *Cell; c Cell; in chan (<-chan int)\n" ++
    "g [2]struct \x7b x byte; y *Line \x7d\n" ++
    "h struct \x7b x byte; y int32; z Cell; w bool \x7d \x7d\n" ++
    "type Line Row\n")

/-- The text of a struct with a field of some name. In another order it has less padding. -/
def looseSource (name : String) : List UInt8 :=
  Text.Utf8.encode (declarationText ⟨"S", ⟨1, 1⟩, [.leaf name "bool" 0 1 1 .word,
    .leaf "b" "int64" 8 8 8 .word, .leaf "c" "int32" 16 4 4 .word]⟩)

theorem declarations_loose {name : String} (hname : isName name = true) :
    ∃ lines, (sourceChars (looseSource name) >>= declarations) =
      .ok [⟨"S", .struct [⟨name, .named "bool", false⟩, ⟨"b", .named "int64", false⟩,
        ⟨"c", .named "int32", false⟩], false, lines⟩] := by
  have hnames : isName "S" = true ∧ isName "b" = true ∧ isName "c" = true := by decide +kernel
  have hbool : TypeExpr.Written (.named "bool") := ⟨by decide +kernel, by decide⟩
  have hlong : TypeExpr.Written (.named "int64") := ⟨by decide +kernel, by decide⟩
  have hint : TypeExpr.Written (.named "int32") := ⟨by decide +kernel, by decide⟩
  have hshows : Shows [.leaf name "bool" 0 1 1 .word, .leaf "b" "int64" 8 8 8 .word,
      .leaf "c" "int32" 16 4 4 .word] [⟨name, .named "bool", false⟩,
        ⟨"b", .named "int64", false⟩, ⟨"c", .named "int32", false⟩] :=
    .text false rfl rfl rfl rfl (.text false rfl rfl rfl rfl (.text false rfl rfl rfl rfl .nil))
  rw [looseSource, sourceChars, Text.Utf8.encode_eq_bytesOf, Text.Utf8.decode_bytesOf]
  exact declarations_declarationText (l := ⟨"S", ⟨1, 1⟩, _⟩) hnames.1 hshows
    ⟨hname, hbool, hnames.2.1, hlong, hnames.2.2, hint, trivial⟩ rfl

def looseDescriptors (name : String) : List Descriptor :=
  [.leaf name "bool" 1 1, .leaf "b" "int64" 8 8, .leaf "c" "int32" 4 4]

/-- The fields with two gaps between them. -/
def looseFields (name : String) (byte half : Alignment) : List Field :=
  [.leaf name "bool" 0 1 1 byte, .padding 1 7, .leaf "b" "int64" 8 8 8 .word,
    .leaf "c" "int32" 16 4 4 half, .padding 20 4]

theorem check_flag (name : String) :
    (Descriptor.leaf name "bool" 1 1).check = .ok ⟨⟨0, by decide⟩⟩ :=
  Descriptor.check_eq_ok.2 ⟨by simp [Descriptor.size], rfl⟩

theorem place_loose (name : String) : place .standard (looseDescriptors name) (0 : UInt64) =
    .ok (looseFields name ⟨⟨0, by decide⟩⟩ ⟨⟨2, by decide⟩⟩) := by
  have hfirst : placeField .standard (0 : UInt64) (.leaf name "bool" 1 1) =
      .ok ([] ++ [.leaf name "bool" 0 1 1 ⟨⟨0, by decide⟩⟩]) := by
    rw [placeField, check_flag]
    rfl
  have hrest : placeSiblings .standard (1 : UInt64)
      [.leaf "b" "int64" 8 8, .leaf "c" "int32" 4 4] = .ok [.padding 1 7,
        .leaf "b" "int64" 8 8 8 .word, .leaf "c" "int32" 16 4 4 ⟨⟨2, by decide⟩⟩] := by
    decide +kernel
  have hall := placeSiblings_cons hfirst hrest
  have halign : RecordRule.standard.alignment (looseDescriptors name) = .ok .word := by
    rw [RecordRule.standard, RecordRule.alignment]
    decide +kernel
  have htrailing : trailing .word (0 : UInt64) 20 = [.padding 20 4] := by decide +kernel
  rw [place, looseDescriptors, hall]
  refine (closeRecord_eq_ok (List.cons_ne_nil _ _)).2 ⟨.word, halign, ?_⟩
  simp [looseFields, widenLast, Field.widen, endOf, Field.stop, Field.start, Field.size, htrailing]

theorem extract_loose {name : String} (hname : isName name = true) (path : String) :
    ∃ lines, (extract ⟨8⟩ .standard path (looseSource name)).value =
      .ok [⟨"S", lines, looseFields name ⟨⟨0, by decide⟩⟩ ⟨⟨2, by decide⟩⟩⟩] := by
  obtain ⟨lines, hdecls⟩ := declarations_loose hname
  have haligns : (min (1 : UInt64) 8).toInt64 = 1 ∧ (min (8 : UInt64) 8).toInt64 = 8 ∧
      (min (4 : UInt64) 8).toInt64 = 4 := by decide
  have hplace := place_loose name
  rw [looseDescriptors] at hplace
  refine ⟨lines, extract_eq_ok_iff.2 ⟨_, hdecls, rfl, ?_⟩⟩
  simp [layoutsFrom, Scope.recordFields, Scope.resolve, Scope.resolveWith, Scope.find?,
    Scope.shapeWith, Scope.descriptorsWith, Scope.predeclared, Target.predeclared?,
    Target.natural?, Shape.descriptor, Scope.recordShape, Scope.remember, TypeExpr.text, haligns,
    hplace, Except.map]

/-- A name with a character more than a column. -/
def wideName : String :=
  String.ofList (List.replicate (Text.maxWidth + 1) 'a')

theorem length_wideName : wideName.length = Text.maxWidth + 1 := by
  rw [wideName, String.length_ofList, List.length_replicate]

theorem isName_wideName : isName wideName = true := by
  have hletter : startsName 'a' = true := by decide +kernel
  rw [isName, wideName, String.toList_ofList, List.replicate_succ]
  simp [hletter, continuesName_of_startsName]

end StructPadding.Go

import StructPadding.Extraction
import StructPadding.Proofs.Resolution

/-!
# What extraction does

The structs of a Go source are laid out one declaration after another, and what was resolved for one
is remembered for the next (`Laid`). Whatever a file is, each of its structs is the placement of
some descriptors from the start of memory on (`extract_placed`).
-/

namespace StructPadding

namespace Go

/-- The descriptors of a record. -/
def Shape.fields? : Shape → Option (List Descriptor)
  | scalar .. => none
  | record fields .. => some fields

/-- The layouts of declarations that are gone through in order, with the shapes known so far. -/
inductive Laid (s : Scope) : List TypeDecl → Memo → List Layout → Prop
  | nil (memo : Memo) : Laid s [] memo []
  | skip {d : TypeDecl} {ds : List TypeDecl} {memo memo' : Memo} {ls : List Layout}
    (hd : s.recordFields d memo = (.ok none, memo')) (tail : Laid s ds memo' ls) :
    Laid s (d :: ds) memo ls
  | layout {d : TypeDecl} {ds : List TypeDecl} {memo memo' : Memo} {fields : List Descriptor}
    {placed : List Field} {ls : List Layout}
    (hd : s.recordFields d memo = (.ok (some fields), memo'))
    (hplace : place s.rule fields (0 : UInt64) = .ok placed) (tail : Laid s ds memo' ls) :
    Laid s (d :: ds) memo (⟨d.name, d.lines, placed⟩ :: ls)

theorem redeclared?_eq_none_iff {ds : List TypeDecl} {seen : List String} :
    redeclared? seen ds = none ↔ (∀ d ∈ ds, d.name ∉ seen) ∧ (ds.map TypeDecl.name).Nodup := by
  induction ds generalizing seen with
  | nil => simp [redeclared?]
  | cons d ds ih =>
    rw [redeclared?]
    split_ifs with hseen
    · simp [List.contains_iff_mem.1 hseen]
    · rw [List.contains_iff_mem] at hseen
      simp only [ih, List.mem_cons, not_or, forall_eq_or_imp, List.map_cons, List.nodup_cons,
        List.mem_map, not_exists, not_and, hseen, not_false_eq_true, true_and]
      constructor
      · intro h
        exact ⟨fun e he => (h.1 e he).2, fun e he => (h.1 e he).1, h.2⟩
      · intro h
        exact ⟨fun e he => ⟨h.2.1 e he, h.1 e he⟩, h.2.2⟩

/-- A name that is declared once is found. -/
theorem Scope.find?_of_mem {s : Scope} (h : redeclared? [] s.decls = none) {d : TypeDecl}
    (hd : d ∈ s.decls) : s.find? d.name = some d := by
  rcases hfind : s.find? d.name with _ | e
  · simpa using List.find?_eq_none.1 hfind d hd
  · obtain ⟨he, hname⟩ := find?_mem hfind
    rw [List.inj_on_of_nodup_map (redeclared?_eq_none_iff.1 h).2 he hd hname]

theorem laid_of_layoutsFrom {path : String} {s : Scope} :
    ∀ {ds : List TypeDecl} {memo : Memo} {ls : List Layout},
      (layoutsFrom path s ds memo).value = .ok ls → Laid s ds memo ls
  | [], memo, ls, h => by
    obtain rfl := Except.ok.inj h
    exact .nil memo
  | d :: ds, memo, ls, h => by
    unfold layoutsFrom at h
    rcases hd : s.recordFields d memo with ⟨e | _ | fields, memo'⟩ <;>
      simp only [hd, Journal.value_pure] at h
    · cases h
    · have hrest : (layoutsFrom path s ds memo').value = .ok ls := by
        split_ifs at h <;> exact h
      exact .skip hd (laid_of_layoutsFrom hrest)
    · rcases hplace : place s.rule fields (0 : UInt64) with e | placed <;>
        simp only [hplace, Journal.value_pure, Journal.value_bind] at h
      · cases h
      · rcases hrest : (layoutsFrom path s ds memo').value with e | rest <;> rw [hrest] at h
        · cases h
        · obtain rfl := Except.ok.inj h
          exact .layout hd hplace (laid_of_layoutsFrom hrest)

/-- A source is accepted if it is read, declares nothing twice and can be laid out. -/
theorem extract_eq_ok_iff {target : Target} {rule : RecordRule} {path : String}
    {source : List UInt8} {ls : List Layout} : (extract target rule path source).value = .ok ls ↔
      ∃ decls, (sourceChars source >>= declarations) = .ok decls ∧ redeclared? [] decls = none ∧
        (layoutsFrom path ⟨target, rule, decls⟩ decls []).value = .ok ls := by
  unfold extract
  rcases sourceChars source with e | cs
  · simp [bind, Except.bind]
  rcases hdecls : declarations cs with e | decls
  · simp [bind, Except.bind, hdecls]
  rcases hre : redeclared? [] decls with _ | name
  · rcases hls : (layoutsFrom path ⟨target, rule, decls⟩ decls []).value with e | found <;>
      simp [bind, Except.bind, hdecls, hre, hls]
  · simp [bind, Except.bind, hdecls, hre]

theorem extract_eq_ok {target : Target} {rule : RecordRule} {path : String} {source : List UInt8}
    {ls : List Layout} (h : (extract target rule path source).value = .ok ls) :
    ∃ cs decls, sourceChars source = .ok cs ∧ declarations cs = .ok decls ∧
      redeclared? [] decls = none ∧ Laid ⟨target, rule, decls⟩ decls [] ls := by
  obtain ⟨decls, hdecls, hre, hls⟩ := extract_eq_ok_iff.1 h
  obtain ⟨cs, hcs, hdecls⟩ := bind_eq_ok.1 hdecls
  exact ⟨cs, decls, hcs, hdecls, hre, laid_of_layoutsFrom hls⟩

theorem laid_of_extract {target : Target} {rule : RecordRule} {path : String}
    {source : List UInt8} {decls : List TypeDecl} {ls : List Layout}
    (hdecls : (sourceChars source >>= declarations) = .ok decls)
    (h : (extract target rule path source).value = .ok ls) :
    ∃ cs, declarations cs = .ok decls ∧ redeclared? [] decls = none ∧
      Laid ⟨target, rule, decls⟩ decls [] ls := by
  obtain ⟨found, hfound, hre, hls⟩ := extract_eq_ok_iff.1 h
  obtain rfl := Except.ok.inj (hfound.symm.trans hdecls)
  obtain ⟨cs, -, hcs⟩ := bind_eq_ok.1 hfound
  exact ⟨cs, hcs, hre, laid_of_layoutsFrom hls⟩

/-- The descriptors of a declaration are those of its shape, whatever is remembered. -/
theorem Scope.recordFields_eq {s : Scope} {memo : Memo} (h : s.Sound memo) (d : TypeDecl) :
    ∃ memo', s.Sound memo' ∧ s.recordFields d memo =
      (if d.generic then .ok none else (s.shape d.name).map Shape.fields?, memo') := by
  unfold recordFields
  split_ifs
  · exact ⟨memo, h, rfl⟩
  · obtain ⟨memo', heq, hsound, -, -⟩ := resolve_eq h d.name
    refine ⟨memo', hsound, ?_⟩
    rw [heq]
    rcases s.shape d.name with e | shape
    · rfl
    · cases shape <;> rfl

/-- A layout is that of a declaration. -/
theorem Laid.shape_of_mem {s : Scope} {ds : List TypeDecl} {memo : Memo} {ls : List Layout}
    (h : Laid s ds memo ls) (hmemo : s.Sound memo) : ∀ l ∈ ls, ∃ d ∈ ds, d.generic = false ∧
      l.name = d.name ∧ l.lines = d.lines ∧ ∃ fields size align,
        s.shape d.name = .ok (.record fields size align) ∧
          place s.rule fields (0 : UInt64) = .ok l.fields := by
  induction h with
  | nil => simp
  | skip hd _ ih =>
    obtain ⟨memo', hmemo', heq⟩ := Scope.recordFields_eq hmemo _
    obtain ⟨-, rfl⟩ := Prod.mk.inj (heq.symm.trans hd)
    intro l hl
    obtain ⟨d, hmem, hrest⟩ := ih hmemo' l hl
    exact ⟨d, List.mem_cons_of_mem _ hmem, hrest⟩
  | @layout d ds memo memo' fields placed ls hd hplace _ ih =>
    obtain ⟨memo', hmemo', heq⟩ := Scope.recordFields_eq hmemo d
    obtain ⟨hfields, rfl⟩ := Prod.mk.inj (heq.symm.trans hd)
    intro l hl
    rcases List.mem_cons.1 hl with rfl | hl
    · split_ifs at hfields with hgeneric
      · cases hfields
      rcases hshape : s.shape d.name with e | ⟨size, align⟩ | ⟨inner, size, align⟩ <;>
        rw [hshape] at hfields <;> cases hfields
      exact ⟨d, List.mem_cons_self, by simpa using hgeneric, rfl, rfl, fields, size, align, hshape,
        hplace⟩
    · obtain ⟨e, hmem, hrest⟩ := ih hmemo' l hl
      exact ⟨e, List.mem_cons_of_mem _ hmem, hrest⟩

/-- A declaration that is a record has a layout. -/
theorem Laid.exists_of_shape {s : Scope} {ds : List TypeDecl} {memo : Memo} {ls : List Layout}
    (h : Laid s ds memo ls) (hmemo : s.Sound memo) : ∀ d ∈ ds, d.generic = false →
      ∀ {fields size align}, s.shape d.name = .ok (.record fields size align) →
        ∃ l ∈ ls, l.name = d.name ∧ l.lines = d.lines := by
  induction h with
  | nil => simp
  | @skip d ds memo memo' ls hd _ ih =>
    obtain ⟨memo', hmemo', heq⟩ := Scope.recordFields_eq hmemo d
    obtain ⟨hnone, rfl⟩ := Prod.mk.inj (heq.symm.trans hd)
    intro e he hgeneric fields size align hshape
    rcases List.mem_cons.1 he with rfl | he
    · rw [hgeneric, hshape] at hnone
      cases hnone
    · exact ih hmemo' e he hgeneric hshape
  | @layout d ds memo memo' fields placed ls hd hplace _ ih =>
    obtain ⟨memo', hmemo', heq⟩ := Scope.recordFields_eq hmemo d
    obtain ⟨-, rfl⟩ := Prod.mk.inj (heq.symm.trans hd)
    intro e he hgeneric fields size align hshape
    rcases List.mem_cons.1 he with rfl | he
    · exact ⟨_, List.mem_cons_self, rfl, rfl⟩
    · obtain ⟨l, hl, hrest⟩ := ih hmemo' e he hgeneric hshape
      exact ⟨l, List.mem_cons_of_mem _ hl, hrest⟩

/-- Layouts come in the order of their declarations. -/
theorem Laid.sublist {s : Scope} {ds : List TypeDecl} {memo : Memo} {ls : List Layout}
    (h : Laid s ds memo ls) :
    (ls.map fun l => (l.name, l.lines)).Sublist (ds.map fun d => (d.name, d.lines)) := by
  induction h with
  | nil => exact .slnil
  | skip _ _ ih => exact ih.cons _
  | layout _ _ _ ih => exact ih.cons_cons _

theorem Laid.placed {s : Scope} {ds : List TypeDecl} {memo : Memo} {ls : List Layout}
    (h : Laid s ds memo ls) :
    ∀ l ∈ ls, ∃ fields, place s.rule fields (0 : UInt64) = .ok l.fields := by
  induction h with
  | nil => simp
  | skip _ _ ih => exact ih
  | layout _ hplace _ ih =>
    intro l hl
    rcases List.mem_cons.1 hl with rfl | hl
    · exact ⟨_, hplace⟩
    · exact ih l hl

end Go

namespace Manifest

theorem placed_of_mapM {rule : RecordRule} : ∀ {ss : List Struct} {ls : List Layout},
    ss.mapM (Struct.layout rule) = .ok ls →
      ∀ l ∈ ls, ∃ fields, place rule fields (0 : UInt64) = .ok l.fields
  | [], ls, h => by
    obtain rfl := Except.ok.inj h
    simp
  | s :: ss, ls, h => by
    rw [List.mapM_cons, bind_eq_ok] at h
    obtain ⟨m, hm, h⟩ := h
    rw [bind_eq_ok] at h
    obtain ⟨ms, hms, h⟩ := h
    obtain rfl := Except.ok.inj h
    intro l hl
    rcases List.mem_cons.1 hl with rfl | hl
    · rw [Struct.layout, bind_eq_ok] at hm
      obtain ⟨fields, hfields, hm⟩ := hm
      obtain rfl := Except.ok.inj hm
      exact ⟨s.fields, hfields⟩
    · exact placed_of_mapM hms l hl

theorem extract_eq_ok {rule : RecordRule} {path : String} {source : List UInt8}
    {ls : List Layout} : (extract rule path source).value = .ok ls ↔
      ∃ m, Json.decodeText ofNode source = .ok m ∧ m.layouts rule = .ok ls := by
  unfold extract
  rcases Json.decodeText ofNode source with e | m
  · simp
  · rcases hls : m.layouts rule with e | ms <;> simp [hls, Except.mapError]

theorem extract_placed {rule : RecordRule} {path : String} {source : List UInt8}
    {ls : List Layout} (h : (extract rule path source).value = .ok ls) :
    ∀ l ∈ ls, ∃ fields, place rule fields (0 : UInt64) = .ok l.fields := by
  obtain ⟨m, -, hls⟩ := extract_eq_ok.1 h
  exact placed_of_mapM hls

end Manifest

theorem extract_placed {target : Go.Target} {rule : RecordRule} {path : String}
    {source : List UInt8} {ls : List Layout}
    (h : (extract target rule path source).value = .ok ls) :
    ∀ l ∈ ls, ∃ fields, place rule fields (0 : UInt64) = .ok l.fields := by
  unfold extract at h
  split_ifs at h
  · exact Manifest.extract_placed h
  · obtain ⟨cs, decls, -, -, -, hlaid⟩ := Go.extract_eq_ok h
    exact hlaid.placed

end StructPadding

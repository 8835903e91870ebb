import Mathlib.Data.List.Nodup
import Mathlib.Data.List.Perm.Subperm
import StructPadding.Go.Shape
import StructPadding.Proofs.Placed

/-!
# Resolution without a memory

What is remembered while types are resolved makes no difference: a name resolves to what it resolves
to when nothing is known (`fresh`), whatever was resolved before it and with whatever outcome
(`resolve_eq`). The memory lists declarations so that each was resolved from those behind it
(`Sound`). It is therefore a derivation of everything in it, and a name in it resolves to the same
shape wherever the names that are being resolved are not in it (`fresh_of_lookup`).
-/

namespace StructPadding.Go.Scope

variable {s : Scope} {f g : String → Except ResolveError Shape}

/-! ## Types whose names are known -/

/-- Names that stand for known outcomes, with nothing to remember. -/
def stateless (f : String → Except ResolveError Shape) (name : String) (memo : Memo) :
    Except ResolveError Shape × Memo :=
  (f name, memo)

/-- The shape of a type whose names stand for known outcomes. -/
def shapeOf (s : Scope) (f : String → Except ResolveError Shape) (t : TypeExpr) :
    Except ResolveError Shape :=
  (s.shapeWith (stateless f) t []).1

/-- The descriptors of fields in whose types names stand for known outcomes. -/
def descriptorsOf (s : Scope) (f : String → Except ResolveError Shape)
    (fields : List (FieldDecl TypeExpr)) : Except ResolveError (List Descriptor) :=
  (s.descriptorsWith (stateless f) fields []).1

mutual

theorem shapeWith_stateless (s : Scope) (f : String → Except ResolveError Shape) :
    ∀ (t : TypeExpr) (memo : Memo), s.shapeWith (stateless f) t memo = (s.shapeOf f t, memo)
  | .named _, _ => rfl
  | .qualified _ _, _ => by
    simp only [shapeOf, shapeWith]
    split_ifs <;> rfl
  | .instantiated _, _ => rfl
  | .pointer _, _ => rfl
  | .map _ _, _ => rfl
  | .chan _ _, _ => rfl
  | .func _, _ => rfl
  | .slice _, _ => rfl
  | .interface _, _ => rfl
  | .array _ elem, memo => by
    simp only [shapeOf, shapeWith]
    rw [shapeWith_stateless s f elem memo, shapeWith_stateless s f elem []]
    rcases s.shapeOf f elem with e | shape
    · rfl
    · dsimp only
      split_ifs <;> rfl
  | .symbolicArray _ _, _ => rfl
  | .struct fields, memo => by
    simp only [shapeOf, shapeWith]
    rw [descriptorsWith_stateless s f fields memo, descriptorsWith_stateless s f fields []]
    rcases s.descriptorsOf f fields with e | ds <;> rfl

theorem descriptorsWith_stateless (s : Scope) (f : String → Except ResolveError Shape) :
    ∀ (fields : List (FieldDecl TypeExpr)) (memo : Memo),
      s.descriptorsWith (stateless f) fields memo = (s.descriptorsOf f fields, memo)
  | [], _ => rfl
  | ⟨_, type, _⟩ :: fields, memo => by
    simp only [descriptorsOf, descriptorsWith]
    rw [shapeWith_stateless s f type memo, shapeWith_stateless s f type []]
    rcases s.shapeOf f type with e | shape
    · rfl
    · dsimp only
      rw [descriptorsWith_stateless s f fields memo, descriptorsWith_stateless s f fields []]
      rcases s.descriptorsOf f fields with e | ds <;> rfl

end

theorem shapeOf_array {length : Nat} {elem : TypeExpr} :
    s.shapeOf f (.array length elem) = s.shapeOf f elem >>= fun shape =>
      if length * shape.size.toNat < 0x8000000000000000 then
        .ok (.scalar (.ofNat (length * shape.size.toNat)) shape.align)
      else .error (.type (.tooLarge (TypeExpr.array length elem).text)) := by
  simp only [shapeOf, shapeWith]
  rw [shapeWith_stateless]
  rcases s.shapeOf f elem with e | shape
  · rfl
  · simp only [bind, Except.bind]
    split_ifs <;> rfl

theorem shapeOf_struct {fields : List (FieldDecl TypeExpr)} :
    s.shapeOf f (.struct fields) = s.descriptorsOf f fields >>= s.recordShape := by
  simp only [shapeOf, shapeWith]
  rw [descriptorsWith_stateless]
  rcases s.descriptorsOf f fields with e | ds <;> rfl

theorem descriptorsOf_nil : s.descriptorsOf f [] = .ok [] :=
  rfl

theorem descriptorsOf_cons {field : FieldDecl TypeExpr} {fields : List (FieldDecl TypeExpr)} :
    s.descriptorsOf f (field :: fields) = s.shapeOf f field.type >>= fun shape =>
      s.descriptorsOf f fields >>= fun ds =>
        .ok (shape.descriptor field.name field.type.text :: ds) := by
  simp only [descriptorsOf, descriptorsWith]
  rw [shapeWith_stateless]
  rcases s.shapeOf f field.type with e | shape
  · rfl
  · dsimp only
    rw [descriptorsWith_stateless]
    rcases s.descriptorsOf f fields with e | ds <;> rfl

theorem recordShape_eq_ok {ds : List Descriptor} {shape : Shape} :
    s.recordShape ds = .ok shape ↔ ∃ placed, place s.rule ds (0 : UInt64) = .ok placed ∧
      shape = .record ds (Field.totalSize placed) (.ofNat (RecordRule.widest ds)) := by
  unfold recordShape
  rcases place s.rule ds (0 : UInt64) with e | placed
  · simp
  · simp [eq_comm]

theorem descriptorsOf_cons_eq_ok {field : FieldDecl TypeExpr}
    {fields : List (FieldDecl TypeExpr)} {ds : List Descriptor} :
    s.descriptorsOf f (field :: fields) = .ok ds ↔ ∃ shape rest,
      s.shapeOf f field.type = .ok shape ∧ s.descriptorsOf f fields = .ok rest ∧
        ds = shape.descriptor field.name field.type.text :: rest := by
  rw [descriptorsOf_cons]
  simp only [bind_eq_ok, Except.ok.injEq]
  constructor
  · rintro ⟨shape, hshape, rest, hrest, rfl⟩
    exact ⟨shape, rest, hshape, hrest, rfl⟩
  · rintro ⟨shape, rest, hshape, hrest, rfl⟩
    exact ⟨shape, hshape, rest, hrest, rfl⟩

mutual

/-- More names that are known leave the shapes that there are. -/
theorem shapeOf_mono (h : ∀ name shape, f name = .ok shape → g name = .ok shape) :
    ∀ {t : TypeExpr} {shape : Shape}, s.shapeOf f t = .ok shape → s.shapeOf g t = .ok shape
  | .named name, shape, ht => h name shape ht
  | .qualified .., _, ht => ht
  | .instantiated .., _, ht => ht
  | .pointer .., _, ht => ht
  | .map .., _, ht => ht
  | .chan .., _, ht => ht
  | .func .., _, ht => ht
  | .slice .., _, ht => ht
  | .interface .., _, ht => ht
  | .array length elem, shape, ht => by
    rw [shapeOf_array, bind_eq_ok] at ht ⊢
    obtain ⟨inner, hinner, ht⟩ := ht
    exact ⟨inner, shapeOf_mono h hinner, ht⟩
  | .symbolicArray .., _, ht => ht
  | .struct fields, shape, ht => by
    rw [shapeOf_struct, bind_eq_ok] at ht ⊢
    obtain ⟨ds, hds, ht⟩ := ht
    exact ⟨ds, descriptorsOf_mono h hds, ht⟩

theorem descriptorsOf_mono (h : ∀ name shape, f name = .ok shape → g name = .ok shape) :
    ∀ {fields : List (FieldDecl TypeExpr)} {ds : List Descriptor},
      s.descriptorsOf f fields = .ok ds → s.descriptorsOf g fields = .ok ds
  | [], _, hds => hds
  | ⟨_, type, _⟩ :: fields, ds, hds => by
    rw [descriptorsOf_cons_eq_ok] at hds ⊢
    obtain ⟨shape, rest, hshape, hrest, rfl⟩ := hds
    exact ⟨shape, rest, shapeOf_mono h hshape, descriptorsOf_mono h hrest, rfl⟩

end

mutual

/-- Apart from names, only the target and the rule for records count. -/
theorem shapeOf_congr {s' : Scope} (htarget : s.target = s'.target) (hrule : s.rule = s'.rule) :
    ∀ t : TypeExpr, s.shapeOf f t = s'.shapeOf f t
  | .named _ => rfl
  | .qualified .. => by simp only [shapeOf, shapeWith, pointer, htarget]
  | .instantiated _ => rfl
  | .pointer _ => by simp only [shapeOf, shapeWith, pointer, htarget]
  | .map .. => by simp only [shapeOf, shapeWith, pointer, htarget]
  | .chan .. => by simp only [shapeOf, shapeWith, pointer, htarget]
  | .func _ => by simp only [shapeOf, shapeWith, pointer, htarget]
  | .slice _ => by simp only [shapeOf, shapeWith, htarget]
  | .interface _ => by simp only [shapeOf, shapeWith, htarget]
  | .array _ elem => by rw [shapeOf_array, shapeOf_array, shapeOf_congr htarget hrule elem]
  | .symbolicArray .. => rfl
  | .struct fields => by
    have hrecord : s.recordShape = s'.recordShape := by
      funext ds
      rw [recordShape, recordShape, hrule]
    rw [shapeOf_struct, shapeOf_struct, descriptorsOf_congr htarget hrule fields, hrecord]

theorem descriptorsOf_congr {s' : Scope} (htarget : s.target = s'.target)
    (hrule : s.rule = s'.rule) :
    ∀ fields : List (FieldDecl TypeExpr), s.descriptorsOf f fields = s'.descriptorsOf f fields
  | [] => rfl
  | ⟨_, type, _⟩ :: fields => by
    rw [descriptorsOf_cons, descriptorsOf_cons, shapeOf_congr htarget hrule type,
      descriptorsOf_congr htarget hrule fields]

end

/-! ## What is remembered -/

/-- The outcomes of names as far as they are predeclared or remembered. -/
def known (s : Scope) (memo : Memo) (name : String) : Except ResolveError Shape :=
  match s.find? name with
  | none => s.predeclared name
  | some _ =>
    match memo.lookup name with
    | some shape => .ok shape
    | none => .error (.type (.undefined name))

/-- A memory in which every declaration was resolved from those behind it. -/
inductive Sound (s : Scope) : Memo → Prop
  | nil : Sound s []
  | cons {name : String} {decl : TypeDecl} {shape : Shape} {memo : Memo}
    (hdecl : s.find? name = some decl) (hgeneric : decl.generic = false)
    (hnew : memo.lookup name = none) (hshape : s.shapeOf (s.known memo) decl.type = .ok shape)
    (tail : Sound s memo) : Sound s ((name, shape) :: memo)

theorem lookup_cons_ne {name other : String} (shape : Shape) (memo : Memo) (h : name ≠ other) :
    List.lookup name ((other, shape) :: memo) = memo.lookup name := by
  rw [List.lookup_cons, beq_false_of_ne h]

theorem known_cons {name other : String} {shape new : Shape} {memo : Memo}
    (hnew : memo.lookup other = none) (h : s.known memo name = .ok shape) :
    s.known ((other, new) :: memo) name = .ok shape := by
  unfold known at h ⊢
  rcases hfind : s.find? name with _ | decl <;> rw [hfind] at h
  · exact h
  · by_cases hname : name = other
    · subst hname
      simp only [hnew] at h
      cases h
    · simpa only [lookup_cons_ne _ _ hname] using h

/-- What was known stays known when more is remembered. -/
theorem Sound.known_mono {memo memo' : Memo} (h : s.Sound memo') (hsuffix : memo <:+ memo')
    {name : String} {shape : Shape} (hknown : s.known memo name = .ok shape) :
    s.known memo' name = .ok shape := by
  obtain ⟨before, rfl⟩ := hsuffix
  induction before with
  | nil => exact hknown
  | cons entry before ih =>
    cases h with
    | cons _ _ hnew _ tail => exact known_cons hnew (ih tail)

/-- A name that is remembered was resolved from what is behind it. -/
theorem Sound.split {memo : Memo} (h : s.Sound memo) {name : String} {shape : Shape}
    (hlookup : memo.lookup name = some shape) :
    ∃ decl rest, s.find? name = some decl ∧ decl.generic = false ∧ rest.lookup name = none ∧
      s.Sound rest ∧ rest.length < memo.length ∧ rest <:+ memo ∧
      s.shapeOf (s.known rest) decl.type = .ok shape := by
  induction h with
  | nil => simp at hlookup
  | @cons other decl new memo hdecl hgeneric hnew hshape tail ih =>
    by_cases hname : name = other
    · subst hname
      rw [List.lookup_cons_self] at hlookup
      obtain rfl := Option.some.inj hlookup
      exact ⟨decl, memo, hdecl, hgeneric, hnew, tail, by simp, List.suffix_cons _ _, hshape⟩
    · rw [lookup_cons_ne _ _ hname] at hlookup
      obtain ⟨decl', rest, hdecl', hgeneric', hnew', hrest, hlt, hsuffix, hshape'⟩ := ih hlookup
      exact ⟨decl', rest, hdecl', hgeneric', hnew', hrest, by simp; omega,
        hsuffix.trans (List.suffix_cons _ _), hshape'⟩

/-- None of the names is remembered. -/
def Apart (visiting : List String) (memo : Memo) : Prop :=
  ∀ name ∈ visiting, memo.lookup name = none

theorem Apart.of_suffix {visiting : List String} {memo memo' : Memo} (h : Apart visiting memo')
    (hsuffix : memo <:+ memo') : Apart visiting memo := by
  intro name hname
  have hnone := h name hname
  rw [List.lookup_eq_none_iff] at hnone ⊢
  exact fun entry hentry => hnone entry (hsuffix.subset hentry)

theorem Apart.cons {visiting : List String} {memo : Memo} (h : Apart visiting memo) {name : String}
    (hname : memo.lookup name = none) : Apart (name :: visiting) memo := by
  intro other hother
  rcases List.mem_cons.1 hother with rfl | hother
  · exact hname
  · exact h other hother

theorem find?_mem {name : String} {decl : TypeDecl} (h : s.find? name = some decl) :
    decl ∈ s.decls ∧ decl.name = name :=
  ⟨List.mem_of_find?_eq_some h, by simpa using List.find?_some h⟩

theorem Sound.nodup {memo : Memo} (h : s.Sound memo) : (memo.map Prod.fst).Nodup := by
  induction h with
  | nil => exact List.nodup_nil
  | @cons name _ _ memo _ _ hnew _ _ ih =>
    refine List.nodup_cons.2 ⟨fun hmem => ?_, ih⟩
    obtain ⟨entry, hentry, rfl⟩ := List.mem_map.1 hmem
    simpa using List.lookup_eq_none_iff.1 hnew entry hentry

theorem Sound.declared {memo : Memo} (h : s.Sound memo) {name : String}
    (hname : name ∈ memo.map Prod.fst) : ∃ decl, s.find? name = some decl := by
  induction h with
  | nil => simp at hname
  | cons hdecl _ _ _ _ ih =>
    rcases List.mem_cons.1 hname with rfl | hname
    · exact ⟨_, hdecl⟩
    · exact ih hname

/-- The names that are being resolved and those that are remembered are declared, each once. -/
theorem Sound.length_le {memo : Memo} (h : s.Sound memo) {visiting : List String}
    (hnodup : visiting.Nodup) (hdeclared : ∀ name ∈ visiting, ∃ decl, s.find? name = some decl)
    (hapart : Apart visiting memo) : visiting.length + memo.length ≤ s.decls.length := by
  have hall : (visiting ++ memo.map Prod.fst).Nodup := by
    refine hnodup.append h.nodup fun name hname hmem => ?_
    obtain ⟨entry, hentry, rfl⟩ := List.mem_map.1 hmem
    simpa using List.lookup_eq_none_iff.1 (hapart _ hname) entry hentry
  have hsub : visiting ++ memo.map Prod.fst ⊆ s.decls.map TypeDecl.name := by
    intro name hname
    have hfound : ∃ decl, s.find? name = some decl := by
      rcases List.mem_append.1 hname with hname | hname
      · exact hdeclared name hname
      · exact h.declared hname
    obtain ⟨decl, hdecl⟩ := hfound
    obtain ⟨hmem, rfl⟩ := find?_mem hdecl
    exact List.mem_map_of_mem hmem
  simpa using (List.subperm_of_subset hall hsub).length_le

/-! ## Names when nothing is remembered -/

/-- The shape of a name when nothing is remembered, while the declarations of the names in
`visiting` are being resolved. -/
def fresh (s : Scope) : Nat → List String → String → Except ResolveError Shape
  | left, visiting, name =>
    match s.find? name with
    | none => s.predeclared name
    | some decl =>
      if decl.generic then .error (.type (.uninstantiated name))
      else if visiting.contains name then .error (.type (.recursive name))
      else
        match left with
        | 0 => .error (.type (.recursive name))
        | left + 1 => s.shapeOf (s.fresh left (name :: visiting)) decl.type

theorem fresh_none {left : Nat} {visiting : List String} {name : String}
    (h : s.find? name = none) : s.fresh left visiting name = s.predeclared name := by
  rw [fresh.eq_def]
  simp only [h]

theorem fresh_some {left : Nat} {visiting : List String} {name : String} {decl : TypeDecl}
    (h : s.find? name = some decl) (hgeneric : decl.generic = false) (hname : name ∉ visiting) :
    s.fresh (left + 1) visiting name = s.shapeOf (s.fresh left (name :: visiting)) decl.type := by
  rw [fresh]
  simp [h, hgeneric, hname]

/-- What holds of predeclared names, and of a declared one if it holds of the names its type is made
of, holds of every name with a shape. -/
theorem fresh_induction {P : String → Shape → Prop}
    (hpredeclared : ∀ name shape, s.find? name = none → s.predeclared name = .ok shape →
      P name shape)
    (hdeclared : ∀ left visiting name decl shape, s.find? name = some decl →
      decl.generic = false → (∀ other inner, s.fresh left visiting other = .ok inner →
        P other inner) →
      s.shapeOf (s.fresh left visiting) decl.type = .ok shape → P name shape)
    {left : Nat} {visiting : List String} {name : String} {shape : Shape}
    (h : s.fresh left visiting name = .ok shape) : P name shape := by
  induction left using Nat.strong_induction_on generalizing visiting name shape with
  | _ left ih =>
    rw [fresh.eq_def] at h
    rcases hfind : s.find? name with _ | decl <;> simp only [hfind] at h
    · exact hpredeclared name shape hfind h
    · split_ifs at h with hgeneric
      rcases left with _ | left
      · cases h
      · exact hdeclared left (name :: visiting) name decl shape hfind (by simpa using hgeneric)
          (fun other inner hinner => ih left (Nat.lt_succ_self left) hinner) h

/-- A memory is a derivation of what is in it. -/
theorem fresh_of_lookup : ∀ {left : Nat} {memo : Memo} {visiting : List String}, s.Sound memo →
    Apart visiting memo → memo.length ≤ left → ∀ {name : String} {shape : Shape},
      memo.lookup name = some shape → s.fresh left visiting name = .ok shape := by
  intro left
  induction left with
  | zero =>
    intro memo visiting _ _ hlength name shape hlookup
    obtain rfl := List.length_eq_zero_iff.1 (Nat.le_zero.1 hlength)
    simp at hlookup
  | succ left ih =>
    intro memo visiting hsound hapart hlength name shape hlookup
    obtain ⟨decl, rest, hdecl, hgeneric, hnew, hrest, hlt, hsuffix, hshape⟩ := hsound.split hlookup
    have hname : name ∉ visiting := by
      intro hmem
      rw [hapart name hmem] at hlookup
      cases hlookup
    rw [fresh_some hdecl hgeneric hname]
    refine shapeOf_mono (fun other inner hknown => ?_) hshape
    -- What was known when `name` was resolved is predeclared or further back in the memory.
    unfold known at hknown
    rcases hfind : s.find? other with _ | found
    · rw [hfind] at hknown
      rw [fresh_none hfind]
      exact hknown
    · rw [hfind] at hknown
      rcases hinner : rest.lookup other with _ | remembered
      · simp only [hinner] at hknown
        cases hknown
      · simp only [hinner] at hknown
        rw [← hknown]
        exact ih hrest ((hapart.of_suffix hsuffix).cons hnew) (by omega) hinner

/-! ## A memory makes no difference -/

/-- A memory that grew while the declarations of the names in `visiting` were being resolved. -/
structure Grows (s : Scope) (visiting : List String) (memo memo' : Memo) : Prop where
  sound : s.Sound memo'
  apart : Apart visiting memo'
  suffix : memo <:+ memo'

theorem Grows.trans {visiting : List String} {memo memo' memo'' : Memo}
    (h : s.Grows visiting memo memo') (h' : s.Grows visiting memo' memo'') :
    s.Grows visiting memo memo'' :=
  ⟨h'.sound, h'.apart, h.suffix.trans h'.suffix⟩

/-- Names are resolved to known outcomes, and what is found is remembered. -/
def Follows (s : Scope) (visiting : List String)
    (named : String → Memo → Except ResolveError Shape × Memo)
    (f : String → Except ResolveError Shape) : Prop :=
  ∀ (name : String) (memo : Memo), s.Grows visiting memo memo → ∃ memo',
    named name memo = (f name, memo') ∧ s.Grows visiting memo memo' ∧
      ∀ shape, f name = .ok shape → s.known memo' name = .ok shape

mutual

theorem shapeWith_of_follows {visiting : List String}
    {named : String → Memo → Except ResolveError Shape × Memo} (h : s.Follows visiting named f) :
    ∀ (t : TypeExpr) (memo : Memo), s.Grows visiting memo memo → ∃ memo',
      s.shapeWith named t memo = (s.shapeOf f t, memo') ∧ s.Grows visiting memo memo' ∧
        ∀ shape, s.shapeOf f t = .ok shape → s.shapeOf (s.known memo') t = .ok shape
  | .named name, memo, hmemo => h name memo hmemo
  | .qualified _ _, memo, hmemo => by
    refine ⟨memo, ?_, hmemo, fun _ ht => ht⟩
    simp only [shapeOf, shapeWith]
    split_ifs <;> rfl
  | .instantiated _, memo, hmemo => ⟨memo, rfl, hmemo, fun _ ht => ht⟩
  | .pointer _, memo, hmemo => ⟨memo, rfl, hmemo, fun _ ht => ht⟩
  | .map _ _, memo, hmemo => ⟨memo, rfl, hmemo, fun _ ht => ht⟩
  | .chan _ _, memo, hmemo => ⟨memo, rfl, hmemo, fun _ ht => ht⟩
  | .func _, memo, hmemo => ⟨memo, rfl, hmemo, fun _ ht => ht⟩
  | .slice _, memo, hmemo => ⟨memo, rfl, hmemo, fun _ ht => ht⟩
  | .interface _, memo, hmemo => ⟨memo, rfl, hmemo, fun _ ht => ht⟩
  | .array length elem, memo, hmemo => by
    obtain ⟨memo', heq, hgrows, hknown⟩ := shapeWith_of_follows h elem memo hmemo
    refine ⟨memo', ?_, hgrows, fun shape ht => ?_⟩
    · rw [shapeWith, heq, shapeOf_array]
      rcases s.shapeOf f elem with e | inner
      · rfl
      · simp only [bind, Except.bind]
        split_ifs <;> rfl
    · rw [shapeOf_array, bind_eq_ok] at ht ⊢
      obtain ⟨inner, hinner, ht⟩ := ht
      exact ⟨inner, hknown inner hinner, ht⟩
  | .symbolicArray _ _, memo, hmemo => ⟨memo, rfl, hmemo, fun _ ht => ht⟩
  | .struct fields, memo, hmemo => by
    obtain ⟨memo', heq, hgrows, hknown⟩ := descriptorsWith_of_follows h fields memo hmemo
    refine ⟨memo', ?_, hgrows, fun shape ht => ?_⟩
    · rw [shapeWith, heq, shapeOf_struct]
      rcases s.descriptorsOf f fields with e | ds <;> rfl
    · rw [shapeOf_struct, bind_eq_ok] at ht ⊢
      obtain ⟨ds, hds, ht⟩ := ht
      exact ⟨ds, hknown ds hds, ht⟩

theorem descriptorsWith_of_follows {visiting : List String}
    {named : String → Memo → Except ResolveError Shape × Memo} (h : s.Follows visiting named f) :
    ∀ (fields : List (FieldDecl TypeExpr)) (memo : Memo), s.Grows visiting memo memo → ∃ memo',
      s.descriptorsWith named fields memo = (s.descriptorsOf f fields, memo') ∧
        s.Grows visiting memo memo' ∧ ∀ ds, s.descriptorsOf f fields = .ok ds →
          s.descriptorsOf (s.known memo') fields = .ok ds
  | [], memo, hmemo => ⟨memo, rfl, hmemo, fun _ hds => hds⟩
  | ⟨name, type, embedded⟩ :: fields, memo, hmemo => by
    obtain ⟨memo', heq, hgrows, hknown⟩ := shapeWith_of_follows h type memo hmemo
    rcases hshape : s.shapeOf f type with e | shape
    · refine ⟨memo', ?_, hgrows, fun ds hds => ?_⟩
      · rw [descriptorsWith, heq, descriptorsOf_cons, hshape]
        rfl
      · rw [descriptorsOf_cons, hshape] at hds
        cases hds
    · obtain ⟨memo'', heq', hgrows', hknown'⟩ := descriptorsWith_of_follows h fields memo'
        ⟨hgrows.sound, hgrows.apart, List.suffix_rfl⟩
      refine ⟨memo'', ?_, hgrows.trans hgrows', fun ds hds => ?_⟩
      · rw [descriptorsWith, heq, descriptorsOf_cons, hshape]
        dsimp only
        rw [heq']
        rcases s.descriptorsOf f fields with e | rest <;> rfl
      · rw [descriptorsOf_cons_eq_ok] at hds ⊢
        obtain ⟨inner, rest, hinner, hrest, rfl⟩ := hds
        exact ⟨inner, rest, shapeOf_mono (fun _ _ => hgrows'.sound.known_mono hgrows'.suffix)
          (hknown inner hinner), hknown' rest hrest, rfl⟩

end

/-- Resolution finds what it finds when nothing is remembered. -/
theorem resolveWith_follows : ∀ {left : Nat} {visiting : List String}, visiting.Nodup →
    (∀ name ∈ visiting, ∃ decl, s.find? name = some decl) →
    s.decls.length ≤ left + visiting.length →
      s.Follows visiting (s.resolveWith left visiting) (s.fresh left visiting) := by
  intro left
  induction left using Nat.strong_induction_on with
  | _ left ih =>
    intro visiting hnodup hdeclared hlength name memo hmemo
    have hroom := hmemo.sound.length_le hnodup hdeclared hmemo.apart
    rw [resolveWith.eq_def]
    rcases hfind : s.find? name with _ | decl
    · refine ⟨memo, by simp only [hfind, fresh_none hfind], hmemo, fun shape hshape => ?_⟩
      simpa only [known, hfind, fresh_none hfind] using hshape
    rcases hlookup : memo.lookup name with _ | shape
    · rw [fresh.eq_def]
      simp only [hfind, hlookup]
      split_ifs with hgeneric hname
      · exact ⟨memo, rfl, hmemo, fun _ hshape => nomatch hshape⟩
      · exact ⟨memo, rfl, hmemo, fun _ hshape => nomatch hshape⟩
      · rcases left with _ | left
        · exact ⟨memo, rfl, hmemo, fun _ hshape => nomatch hshape⟩
        · have hnew : name ∉ visiting := by simpa using hname
          have hopen : ∀ other ∈ name :: visiting, ∃ found, s.find? other = some found := by
            intro other hother
            rcases List.mem_cons.1 hother with rfl | hother
            · exact ⟨decl, hfind⟩
            · exact hdeclared other hother
          have hinner := ih left (Nat.lt_succ_self left) (List.nodup_cons.2 ⟨hnew, hnodup⟩) hopen
            (by rw [List.length_cons]; omega)
          obtain ⟨memo', heq, hgrows, hknown⟩ := shapeWith_of_follows hinner decl.type memo
            ⟨hmemo.sound, hmemo.apart.cons hlookup, List.suffix_rfl⟩
          have hunknown := hgrows.apart name List.mem_cons_self
          have hapart : Apart visiting memo' :=
            fun other hother => hgrows.apart other (List.mem_cons_of_mem name hother)
          dsimp only
          rw [heq]
          rcases hshape : s.shapeOf (s.fresh left (name :: visiting)) decl.type with e | shape
          · exact ⟨memo', rfl, ⟨hgrows.sound, hapart, hgrows.suffix⟩, fun _ h => nomatch h⟩
          · refine ⟨(name, shape) :: memo', rfl, ⟨.cons hfind (by simpa using hgeneric) hunknown
              (hknown shape hshape) hgrows.sound, ?_, ?_⟩, ?_⟩
            · intro other hother
              rw [lookup_cons_ne _ _ (ne_of_mem_of_not_mem hother hnew)]
              exact hapart other hother
            · exact hgrows.suffix.trans (List.suffix_cons _ _)
            · rintro _ ⟨⟩
              simp only [known, hfind, List.lookup_cons_self]
    · have hfresh : s.fresh left visiting name = .ok shape :=
        fresh_of_lookup hmemo.sound hmemo.apart (by omega) hlookup
      refine ⟨memo, by simp only [hfind, hlookup, hfresh], hmemo, fun other hother => ?_⟩
      rw [hfresh] at hother
      simpa only [known, hfind, hlookup] using hother

/-- The shape of a name when nothing is remembered. -/
def shape (s : Scope) (name : String) : Except ResolveError Shape :=
  s.fresh s.decls.length [] name

/-- What is remembered makes no difference to what a name resolves to. -/
theorem resolve_eq {memo : Memo} (h : s.Sound memo) (name : String) : ∃ memo',
    s.resolve name memo = (s.shape name, memo') ∧ s.Sound memo' ∧ memo <:+ memo' ∧
      ∀ shape, s.shape name = .ok shape → s.known memo' name = .ok shape := by
  obtain ⟨memo', heq, hgrows, hknown⟩ := resolveWith_follows List.nodup_nil (by simp)
    (Nat.le_refl s.decls.length) name memo ⟨h, by simp [Apart], List.suffix_rfl⟩
  exact ⟨memo', heq, hgrows.sound, hgrows.suffix, hknown⟩

theorem shape_of_lookup {memo : Memo} (h : s.Sound memo) {name : String} {shape : Shape}
    (hlookup : memo.lookup name = some shape) : s.shape name = .ok shape :=
  fresh_of_lookup h (by simp [Apart])
    (by simpa using h.length_le List.nodup_nil (by simp) (by simp [Apart])) hlookup

theorem shape_of_known {memo : Memo} (h : s.Sound memo) {name : String} {shape : Shape}
    (hknown : s.known memo name = .ok shape) : s.shape name = .ok shape := by
  unfold known at hknown
  rcases hfind : s.find? name with _ | decl <;> rw [hfind] at hknown
  · exact (fresh_none hfind).trans hknown
  · rcases hlookup : memo.lookup name with _ | remembered <;> simp only [hlookup] at hknown
    · cases hknown
    · obtain rfl := Except.ok.inj hknown
      exact shape_of_lookup h hlookup

theorem exists_sound {name : String} {shape : Shape} (h : s.shape name = .ok shape) :
    ∃ memo, s.Sound memo ∧ s.known memo name = .ok shape := by
  obtain ⟨memo, -, hsound, -, hknown⟩ := resolve_eq (s := s) .nil name
  exact ⟨memo, hsound, hknown shape h⟩

/-- A declaration has the shape of its type. -/
theorem shape_of_find? {name : String} {decl : TypeDecl} {shape : Shape}
    (hdecl : s.find? name = some decl) (h : s.shape name = .ok shape) :
    decl.generic = false ∧ ∃ memo, s.Sound memo ∧ memo.lookup name = none ∧
      s.shapeOf (s.known memo) decl.type = .ok shape := by
  obtain ⟨memo, hsound, hknown⟩ := exists_sound h
  unfold known at hknown
  rw [hdecl] at hknown
  rcases hlookup : memo.lookup name with _ | remembered <;> simp only [hlookup] at hknown
  · cases hknown
  · obtain rfl := Except.ok.inj hknown
    obtain ⟨found, rest, hfound, hgeneric, hnew, hrest, -, -, hshape⟩ := hsound.split hlookup
    obtain rfl := Option.some.inj (hdecl.symm.trans hfound)
    exact ⟨hgeneric, rest, hrest, hnew, hshape⟩

/-- What holds of predeclared shapes, and of types made of names of which it holds, holds of every
shape. -/
theorem shape_induction {P : Shape → Prop}
    (hpredeclared : ∀ name shape, s.predeclared name = .ok shape → P shape)
    (htype : ∀ f t shape, (∀ name inner, f name = .ok inner → s.shape name = .ok inner ∧ P inner) →
      s.shapeOf f t = .ok shape → P shape)
    {name : String} {shape : Shape} (h : s.shape name = .ok shape) : P shape := by
  obtain ⟨memo, hsound, hknown⟩ := exists_sound h
  clear h
  induction hsound generalizing name shape with
  | nil =>
    unfold known at hknown
    split at hknown
    · exact hpredeclared name shape hknown
    · cases hknown
  | @cons other decl new memo hdecl _ _ hshape tail ih =>
    by_cases hname : name = other
    · subst hname
      simp only [known, hdecl, List.lookup_cons_self] at hknown
      obtain rfl := Except.ok.inj hknown
      exact htype _ _ _ (fun _ _ h => ⟨shape_of_known tail h, ih h⟩) hshape
    · have hbefore : s.known memo name = .ok shape := by
        simpa only [known, lookup_cons_ne _ _ hname] using hknown
      exact ih hbefore

end StructPadding.Go.Scope

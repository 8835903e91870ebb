import Mathlib.Logic.Relation
import StructPadding.Proofs.History

/-!
# Types that contain themselves

A value of a declared type contains values of the types its declaration names outside pointers and
other references (`Contains`). Resolution comes to an end whatever the declarations contain
(`run_resolve`): every declaration it opens is one that was not open before. A type from which a
cycle is reached has no shape (`acc_of_fresh`), and a type is reported to contain itself only if it
is reached and does (`cycle_of_fresh`).
-/

namespace StructPadding.Go

open Relation

/-- The name stands in the type by value: it is the type, or it is so in the items of an array or in
a field of a struct. -/
inductive TypeExpr.Holds (name : String) : TypeExpr → Prop
  | named : Holds name (.named name)
  | array {length : Nat} {elem : TypeExpr} (h : Holds name elem) : Holds name (.array length elem)
  | symbolicArray {length : String} {elem : TypeExpr} (h : Holds name elem) :
    Holds name (.symbolicArray length elem)
  | struct {fields : List (FieldDecl TypeExpr)} {field : FieldDecl TypeExpr}
    (hfield : field ∈ fields) (h : Holds name field.type) : Holds name (.struct fields)

namespace Scope

variable {s : Scope} {f : String → Except ResolveError Shape}

/-- A value of the declared type `outer` contains one of the type `inner`. -/
def Contains (s : Scope) (outer inner : String) : Prop :=
  ∃ decl, s.find? outer = some decl ∧ decl.type.Holds inner

/-! ## Resolution without a counter -/

/-- Resolution of a name as a call tree, in which only a declaration that is not open is opened. -/
inductive Run (s : Scope) :
    List String → String → Memo → Except ResolveError Shape × Memo → Prop
  | predeclared {visiting : List String} {name : String} {memo : Memo}
    (hfind : s.find? name = none) : Run s visiting name memo (s.predeclared name, memo)
  | remembered {visiting : List String} {name : String} {memo : Memo} {decl : TypeDecl}
    {shape : Shape} (hfind : s.find? name = some decl) (hlookup : memo.lookup name = some shape) :
    Run s visiting name memo (.ok shape, memo)
  | generic {visiting : List String} {name : String} {memo : Memo} {decl : TypeDecl}
    (hfind : s.find? name = some decl) (hlookup : memo.lookup name = none)
    (hgeneric : decl.generic = true) :
    Run s visiting name memo (.error (.type (.uninstantiated name)), memo)
  | recursive {visiting : List String} {name : String} {memo : Memo} {decl : TypeDecl}
    (hfind : s.find? name = some decl) (hlookup : memo.lookup name = none)
    (hgeneric : decl.generic = false) (hopen : name ∈ visiting) :
    Run s visiting name memo (.error (.type (.recursive name)), memo)
  | opened {visiting : List String} {name : String} {memo : Memo} {decl : TypeDecl}
    {named : String → Memo → Except ResolveError Shape × Memo}
    (hfind : s.find? name = some decl) (hlookup : memo.lookup name = none)
    (hgeneric : decl.generic = false) (hclosed : name ∉ visiting)
    (inner : ∀ other memo, Run s (name :: visiting) other memo (named other memo)) :
    Run s visiting name memo (remember name (s.shapeWith named decl.type memo))

/-- Each open name is declared and open once, and every declaration that is not open may still be
opened. -/
structure Opened (s : Scope) (left : Nat) (visiting : List String) : Prop where
  nodup : visiting.Nodup
  declared : ∀ name ∈ visiting, ∃ decl, s.find? name = some decl
  room : s.decls.length ≤ left + visiting.length

theorem opened_nil (s : Scope) : s.Opened s.decls.length [] :=
  ⟨List.nodup_nil, by simp, Nat.le_refl _⟩

/-- A declaration that is not open can be opened. -/
theorem Opened.push {left : Nat} {visiting : List String} (h : s.Opened left visiting)
    {name : String} {decl : TypeDecl} (hfind : s.find? name = some decl)
    (hclosed : name ∉ visiting) : ∃ k, left = k + 1 ∧ s.Opened k (name :: visiting) := by
  have hnodup : (name :: visiting).Nodup := List.nodup_cons.2 ⟨hclosed, h.nodup⟩
  have hdeclared : ∀ other ∈ name :: visiting, ∃ found, s.find? other = some found := by
    intro other hother
    rcases List.mem_cons.1 hother with rfl | hother
    · exact ⟨decl, hfind⟩
    · exact h.declared other hother
  have hlength := Sound.nil.length_le hnodup hdeclared (by simp [Apart])
  have hroom := h.room
  simp only [List.length_cons, List.length_nil] at hlength
  exact ⟨left - 1, by omega, hnodup, hdeclared, by rw [List.length_cons]; omega⟩

theorem run_resolveWith {left : Nat} {visiting : List String} (h : s.Opened left visiting)
    (name : String) (memo : Memo) :
    s.Run visiting name memo (s.resolveWith left visiting name memo) := by
  induction left using Nat.strong_induction_on generalizing visiting name memo with
  | _ left ih =>
    rw [resolveWith.eq_def]
    rcases hfind : s.find? name with _ | decl <;> simp only [hfind]
    · exact .predeclared hfind
    rcases hlookup : memo.lookup name with _ | shape
    · dsimp only
      split_ifs with hgeneric hopen
      · exact .generic hfind hlookup hgeneric
      · exact .recursive hfind hlookup (by simpa using hgeneric) (by simpa using hopen)
      · have hclosed : name ∉ visiting := by simpa using hopen
        obtain ⟨k, rfl, hpush⟩ := h.push hfind hclosed
        exact .opened hfind hlookup (by simpa using hgeneric) hclosed
          fun other memo => ih k (Nat.lt_succ_self k) hpush other memo
    · exact .remembered hfind hlookup

theorem run_resolve (s : Scope) (name : String) (memo : Memo) :
    s.Run [] name memo (s.resolve name memo) :=
  run_resolveWith s.opened_nil name memo

/-! ## A type with a shape reaches no cycle -/

theorem shapeOf_of_descriptorsOf {fields : List (FieldDecl TypeExpr)} {ds : List Descriptor}
    (h : s.descriptorsOf f fields = .ok ds) {field : FieldDecl TypeExpr} (hfield : field ∈ fields) :
    ∃ shape, s.shapeOf f field.type = .ok shape := by
  induction fields generalizing ds with
  | nil => cases hfield
  | cons first fields ih =>
    obtain ⟨shape, rest, hshape, hrest, -⟩ := descriptorsOf_cons_eq_ok.1 h
    rcases List.mem_cons.1 hfield with rfl | hfield
    · exact ⟨shape, hshape⟩
    · exact ih hrest hfield

/-- The names a type with a shape holds have shapes. -/
theorem named_of_shapeOf {t : TypeExpr} {name : String} (hholds : t.Holds name) {shape : Shape}
    (h : s.shapeOf f t = .ok shape) : ∃ inner, f name = .ok inner := by
  induction hholds generalizing shape with
  | named => exact ⟨shape, h⟩
  | array _ ih =>
    rw [shapeOf_array, bind_eq_ok] at h
    obtain ⟨inner, hinner, -⟩ := h
    exact ih hinner
  | symbolicArray _ _ => cases h
  | struct hfield _ ih =>
    rw [shapeOf_struct, bind_eq_ok] at h
    obtain ⟨ds, hds, -⟩ := h
    obtain ⟨inner, hinner⟩ := shapeOf_of_descriptorsOf hds hfield
    exact ih hinner

/-- What is contained in a type with a shape, and in what is contained in it, comes to an end. -/
theorem acc_of_fresh {left : Nat} {visiting : List String} {name : String} {shape : Shape}
    (h : s.fresh left visiting name = .ok shape) : Acc (Function.swap s.Contains) name := by
  refine fresh_induction (P := fun name _ => Acc (Function.swap s.Contains) name) ?_ ?_ h
  · intro name shape hfind _
    constructor
    rintro inner ⟨decl, hdecl, -⟩
    cases hfind.symm.trans hdecl
  · intro left visiting name decl shape hfind _ ih hshape
    constructor
    rintro inner ⟨found, hfound, hholds⟩
    obtain rfl := Option.some.inj (hfind.symm.trans hfound)
    obtain ⟨shape', hinner⟩ := named_of_shapeOf hholds hshape
    exact ih inner shape' hinner

theorem not_cycle_of_acc {name : String} (h : Acc (Function.swap s.Contains) name) :
    ¬ TransGen s.Contains name name := by
  induction h.transGen with
  | intro name _ ih =>
    intro hcycle
    have hbefore : TransGen (Function.swap s.Contains) name name := transGen_swap.2 hcycle
    exact ih name hbefore (h.inv_of_transGen hbefore) hcycle

theorem not_cycle_of_fresh {left : Nat} {visiting : List String} {name x : String} {shape : Shape}
    (h : s.fresh left visiting name = .ok shape) (hreach : ReflTransGen s.Contains name x) :
    ¬ TransGen s.Contains x x := by
  have hacc : Acc (Function.swap s.Contains) x := by
    induction hreach with
    | refl => exact acc_of_fresh h
    | tail _ hstep ih => exact ih.inv hstep
  exact not_cycle_of_acc hacc

/-! ## Where a type is reported to contain itself -/

mutual

theorem named_of_recursive {x : String} : ∀ {t : TypeExpr},
    s.shapeOf f t = .error (.type (.recursive x)) →
      ∃ name, t.Holds name ∧ f name = .error (.type (.recursive x))
  | .named name, h => ⟨name, .named, h⟩
  | .qualified _ _, h => by
    simp only [shapeOf, shapeWith] at h
    split_ifs at h
    cases h
  | .instantiated _, h => nomatch h
  | .pointer _, h => nomatch h
  | .map _ _, h => nomatch h
  | .chan _ _, h => nomatch h
  | .func _, h => nomatch h
  | .slice _, h => nomatch h
  | .interface _, h => nomatch h
  | .array length elem, h => by
    rcases helem : s.shapeOf f elem with e | shape
    · rw [shapeOf_array, helem] at h
      obtain rfl := Except.error.inj h
      obtain ⟨name, hholds, hname⟩ := named_of_recursive helem
      exact ⟨name, hholds.array, hname⟩
    · rw [shapeOf_array, helem] at h
      simp only [bind, Except.bind] at h
      split_ifs at h
      cases h
  | .symbolicArray _ _, h => nomatch h
  | .struct fields, h => by
    rcases hds : s.descriptorsOf f fields with e | ds
    · rw [shapeOf_struct, hds] at h
      obtain rfl := Except.error.inj h
      obtain ⟨field, hfield, name, hholds, hname⟩ := field_of_recursive hds
      exact ⟨name, .struct hfield hholds, hname⟩
    · rw [shapeOf_struct, hds] at h
      simp only [bind, Except.bind, recordShape] at h
      split at h <;> cases h

theorem field_of_recursive {x : String} : ∀ {fields : List (FieldDecl TypeExpr)},
    s.descriptorsOf f fields = .error (.type (.recursive x)) →
      ∃ field ∈ fields, ∃ name, field.type.Holds name ∧ f name = .error (.type (.recursive x))
  | [], h => nomatch h
  | ⟨name, type, embedded⟩ :: fields, h => by
    rcases hshape : s.shapeOf f type with e | shape
    · rw [descriptorsOf_cons, hshape] at h
      obtain rfl := Except.error.inj h
      exact ⟨_, List.mem_cons_self, named_of_recursive hshape⟩
    · rcases hds : s.descriptorsOf f fields with e | ds
      · rw [descriptorsOf_cons, hshape, hds] at h
        obtain rfl := Except.error.inj h
        obtain ⟨field, hfield, hnamed⟩ := field_of_recursive hds
        exact ⟨field, List.mem_cons_of_mem _ hfield, hnamed⟩
      · rw [descriptorsOf_cons, hshape, hds] at h
        cases h

end

/-- A name that is met while it is open is reached from itself, because each open name contains, at
some depth, the one being resolved. -/
theorem cycle_of_fresh {left : Nat} {visiting : List String} {name x : String}
    (hopened : s.Opened left visiting) (hpath : ∀ outer ∈ visiting, TransGen s.Contains outer name)
    (h : s.fresh left visiting name = .error (.type (.recursive x))) :
    ReflTransGen s.Contains name x ∧ TransGen s.Contains x x := by
  induction left using Nat.strong_induction_on generalizing visiting name with
  | _ left ih =>
    rw [fresh.eq_def] at h
    rcases hfind : s.find? name with _ | decl <;> simp only [hfind] at h
    · unfold predeclared at h
      split at h <;> cases h
    split_ifs at h with hgeneric hopen
    · cases h
    · obtain rfl : name = x := by simpa using h
      exact ⟨.refl, hpath name (by simpa using hopen)⟩
    · have hclosed : name ∉ visiting := by simpa using hopen
      obtain ⟨k, rfl, hpush⟩ := hopened.push hfind hclosed
      obtain ⟨inner, hholds, hinner⟩ := named_of_recursive h
      have hstep : s.Contains name inner := ⟨decl, hfind, hholds⟩
      -- What is open reaches the name that is opened, and from there the one it holds.
      have hpath' : ∀ outer ∈ name :: visiting, TransGen s.Contains outer inner := by
        intro outer houter
        rcases List.mem_cons.1 houter with rfl | houter
        · exact .single hstep
        · exact (hpath outer houter).tail hstep
      obtain ⟨hreach, hcycle⟩ := ih k (Nat.lt_succ_self k) hpush hpath' hinner
      exact ⟨.head hstep hreach, hcycle⟩

/-- Resolution comes to an end. A declaration from which a type that contains itself is reached has
no fields, whatever was resolved before, and a type is reported to contain itself only if it is
reached and does. -/
theorem recursion_detected (s : Scope) :
    (∀ name memo, s.Run [] name memo (s.resolve name memo)) ∧
    ∀ (calls : List TypeDecl) (d : TypeDecl), d.generic = false →
      (∀ x, ReflTransGen s.Contains d.name x → TransGen s.Contains x x →
        ∃ e, (s.recordFields d (s.after calls [])).1 = .error e) ∧
      ∀ x, (s.recordFields d (s.after calls [])).1 = .error (.type (.recursive x)) →
        ReflTransGen s.Contains d.name x ∧ TransGen s.Contains x x := by
  refine ⟨s.run_resolve, fun calls d hgeneric => ⟨fun x hreach hcycle => ?_, fun x h => ?_⟩⟩
  · rcases hshape : s.shape d.name with e | shape
    · exact ⟨e, recordFields_eq_error.2 ⟨hgeneric, hshape⟩⟩
    · exact absurd hcycle (not_cycle_of_fresh hshape hreach)
  · exact cycle_of_fresh s.opened_nil (by simp) (recordFields_eq_error.1 h).2

/-- A type that points to itself and contains a ring. -/
def root : TypeDecl :=
  ⟨"Root", .struct [⟨"up", .pointer (.named "Root"), false⟩, ⟨"ring", .named "Ring", false⟩], false,
    ⟨1, 1⟩⟩

/-- A ring is an array of links, each of which contains a ring. -/
def knotted : Scope :=
  ⟨⟨8⟩, .natural, [root, ⟨"Ring", .array 0 (.named "Link"), false, ⟨2, 2⟩⟩,
    ⟨"Link", .struct [⟨"back", .named "Ring", false⟩], false, ⟨3, 3⟩⟩]⟩

theorem recursion_detected_knotted :
    (knotted.recordFields root (knotted.after [root] [])).1 = .error (.type (.recursive "Ring")) ∧
    (∃ e, (knotted.recordFields root (knotted.after [root] [])).1 = .error e) ∧
    ReflTransGen knotted.Contains "Root" "Ring" ∧ TransGen knotted.Contains "Ring" "Ring" := by
  have hroot : knotted.Contains "Root" "Ring" :=
    ⟨_, rfl, .struct (List.mem_cons_of_mem _ List.mem_cons_self) .named⟩
  have hring : knotted.Contains "Ring" "Link" := ⟨_, rfl, .array .named⟩
  have hlink : knotted.Contains "Link" "Ring" := ⟨_, rfl, .struct List.mem_cons_self .named⟩
  have hdetected := (recursion_detected knotted).2 [root] root rfl
  exact ⟨rfl, hdetected.1 "Ring" (.single hroot) (.tail (.single hring) hlink),
    hdetected.2 "Ring" rfl⟩

end Scope

end StructPadding.Go

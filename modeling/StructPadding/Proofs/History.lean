import StructPadding.Proofs.Extracted

/-!
# Resolution without a history

What is remembered of earlier declarations, and of those that failed, makes no difference to a later
one. So the order of declarations makes none either: files that declare the same types are laid out
alike (`resolution_independent`).
-/

namespace StructPadding.Go

namespace Scope

variable {s s' : Scope}

/-- The outcomes of resolving declarations one after another, with what is remembered passed on from
each to the next. -/
def outcomes (s : Scope) :
    List TypeDecl → Memo → List (Except ResolveError (Option (List Descriptor)))
  | [], _ => []
  | d :: ds, memo => (s.recordFields d memo).1 :: s.outcomes ds (s.recordFields d memo).2

theorem recordFields_fresh {memo : Memo} (h : s.Sound memo) (d : TypeDecl) :
    (s.recordFields d memo).1 = (s.recordFields d []).1 ∧ s.Sound (s.recordFields d memo).2 := by
  obtain ⟨memo', hmemo', heq⟩ := recordFields_eq h d
  obtain ⟨empty, -, heq'⟩ := recordFields_eq (s := s) .nil d
  rw [heq, heq']
  exact ⟨rfl, hmemo'⟩

theorem outcomes_eq {memo : Memo} (h : s.Sound memo) (ds : List TypeDecl) :
    s.outcomes ds memo = ds.map fun d => (s.recordFields d []).1 := by
  induction ds generalizing memo with
  | nil => rfl
  | cons d ds ih =>
    obtain ⟨hd, hsound⟩ := recordFields_fresh h d
    rw [outcomes, hd, ih hsound, List.map_cons]

/-- What is remembered after declarations were resolved one after another. -/
def after (s : Scope) : List TypeDecl → Memo → Memo
  | [], memo => memo
  | d :: ds, memo => s.after ds (s.recordFields d memo).2

theorem sound_after {memo : Memo} (h : s.Sound memo) (ds : List TypeDecl) :
    s.Sound (s.after ds memo) := by
  induction ds generalizing memo with
  | nil => exact h
  | cons d ds ih => exact ih (recordFields_fresh h d).2

theorem recordFields_after (calls : List TypeDecl) (d : TypeDecl) :
    (s.recordFields d (s.after calls [])).1 =
      if d.generic then .ok none else (s.shape d.name).map Shape.fields? := by
  obtain ⟨memo, -, heq⟩ := recordFields_eq (sound_after .nil calls) d
  rw [heq]

theorem recordFields_eq_some {calls : List TypeDecl} {d : TypeDecl} {ds : List Descriptor} :
    (s.recordFields d (s.after calls [])).1 = .ok (some ds) ↔
      d.generic = false ∧ ∃ size align, s.shape d.name = .ok (.record ds size align) := by
  rw [recordFields_after]
  rcases d.generic with _ | _
  · rcases s.shape d.name with e | ⟨size, align⟩ | ⟨fields, size, align⟩ <;>
      simp [Except.map, Shape.fields?]
  · simp

theorem recordFields_eq_error {calls : List TypeDecl} {d : TypeDecl} {e : ResolveError} :
    (s.recordFields d (s.after calls [])).1 = .error e ↔
      d.generic = false ∧ s.shape d.name = .error e := by
  rw [recordFields_after]
  rcases d.generic with _ | _
  · rcases s.shape d.name with e | shape <;> simp [Except.map]
  · simp

end Scope

/-! ## Declarations in another order -/

/-- A declaration wherever it stands. -/
def TypeDecl.unlined (d : TypeDecl) : TypeDecl :=
  { d with lines := ⟨0, 0⟩ }

theorem TypeDecl.unlined_inj {d e : TypeDecl} :
    d.unlined = e.unlined ↔ d.name = e.name ∧ d.type = e.type ∧ d.generic = e.generic := by
  cases d
  cases e
  simp [unlined]

namespace Scope

variable {s s' : Scope}

/-- Names stand for the same declarations, for one target and one rule. -/
structure Agrees (s s' : Scope) : Prop where
  target : s.target = s'.target
  rule : s.rule = s'.rule
  length : s.decls.length = s'.decls.length
  find? : ∀ name, (s.find? name).map TypeDecl.unlined = (s'.find? name).map TypeDecl.unlined

theorem Agrees.fresh_eq (h : s.Agrees s') (left : Nat) :
    ∀ visiting name, s.fresh left visiting name = s'.fresh left visiting name := by
  induction left using Nat.strong_induction_on with
  | _ left ih =>
    intro visiting name
    have hfind := h.find? name
    rw [fresh.eq_def, fresh.eq_def]
    rcases hs : s.find? name with _ | d <;> rcases hs' : s'.find? name with _ | d' <;>
      simp only [hs, hs', Option.map_none, Option.map_some] at hfind ⊢
    · rw [predeclared, predeclared, h.target]
    · cases hfind
    · cases hfind
    · have hdecl : d.unlined = d'.unlined := Option.some.inj hfind
      obtain ⟨-, htype, hgeneric⟩ := TypeDecl.unlined_inj.1 hdecl
      rw [htype, hgeneric]
      rcases left with _ | left
      · rfl
      · dsimp only
        rw [funext (ih left (Nat.lt_succ_self left) (name :: visiting)),
          shapeOf_congr h.target h.rule]

theorem Agrees.recordFields_eq (h : s.Agrees s') (d : TypeDecl) :
    (s.recordFields d []).1 = (s'.recordFields d []).1 := by
  obtain ⟨memo, -, heq⟩ := Scope.recordFields_eq (s := s) .nil d
  obtain ⟨memo', -, heq'⟩ := Scope.recordFields_eq (s := s') .nil d
  have hshape : s.shape d.name = s'.shape d.name := by
    rw [shape, shape, h.length, h.fresh_eq]
  rw [heq, heq', hshape]

theorem find?_of_perm {target : Target} {rule : RecordRule} {ds ds' : List TypeDecl}
    (hre : redeclared? [] ds' = none)
    (h : (ds.map TypeDecl.unlined).Perm (ds'.map TypeDecl.unlined)) {name : String} {d : TypeDecl}
    (hd : find? ⟨target, rule, ds⟩ name = some d) :
    ∃ d', find? ⟨target, rule, ds'⟩ name = some d' ∧ d'.unlined = d.unlined := by
  obtain ⟨hmem, rfl⟩ := find?_mem hd
  obtain ⟨d', hmem', heq⟩ := List.mem_map.1 (h.subset (List.mem_map_of_mem hmem))
  refine ⟨d', ?_, heq⟩
  rw [← (TypeDecl.unlined_inj.1 heq).1]
  exact find?_of_mem hre hmem'

theorem agrees_of_perm {target : Target} {rule : RecordRule} {ds ds' : List TypeDecl}
    (hre : redeclared? [] ds = none) (hre' : redeclared? [] ds' = none)
    (h : (ds.map TypeDecl.unlined).Perm (ds'.map TypeDecl.unlined)) :
    Agrees ⟨target, rule, ds⟩ ⟨target, rule, ds'⟩ := by
  refine ⟨rfl, rfl, by simpa using h.length_eq, fun name => ?_⟩
  rcases hs : find? ⟨target, rule, ds⟩ name with _ | d
  · rcases hs' : find? ⟨target, rule, ds'⟩ name with _ | d'
    · rfl
    · obtain ⟨d, hd, -⟩ := find?_of_perm hre h.symm hs'
      rw [hs] at hd
      cases hd
  · obtain ⟨d', hd', heq⟩ := find?_of_perm hre' h hs
    rw [hd', Option.map_some, Option.map_some, heq]

/-- The fields of a declaration in their places, if it is a struct underneath. -/
def placed? (s : Scope) (d : TypeDecl) : Except ExtractError (Option (List Field)) :=
  match (s.recordFields d []).1 with
  | .error e => .error (.ofResolve e)
  | .ok none => .ok none
  | .ok (some fields) => ((place s.rule fields (0 : UInt64)).mapError .layout).map some

theorem placed?_unlined (s : Scope) (d : TypeDecl) : s.placed? d.unlined = s.placed? d :=
  rfl

theorem Agrees.placed?_eq (h : s.Agrees s') (d : TypeDecl) : s.placed? d = s'.placed? d := by
  rw [placed?, placed?, h.recordFields_eq, h.rule]

/-- The layouts of declarations when nothing is remembered. -/
def layoutsOf (s : Scope) : List TypeDecl → Except ExtractError (List Layout)
  | [] => .ok []
  | d :: ds => do
    let placed ← s.placed? d
    let rest ← s.layoutsOf ds
    return (placed.map fun fields => ⟨d.name, d.lines, fields⟩).toList ++ rest

theorem layoutsFrom_value {path : String} {ds : List TypeDecl} {memo : Memo} (h : s.Sound memo) :
    (layoutsFrom path s ds memo).value = s.layoutsOf ds := by
  induction ds generalizing memo with
  | nil => rfl
  | cons d ds ih =>
    obtain ⟨hfresh, hsound⟩ := recordFields_fresh h d
    have hrest := ih hsound
    rw [layoutsOf, placed?, ← hfresh]
    unfold layoutsFrom
    rcases hd : s.recordFields d memo with ⟨e | _ | fields, memo'⟩ <;> rw [hd] at hrest
    · rfl
    · show Journal.value _ = s.layoutsOf ds >>= fun rest => pure rest
      rw [bind_pure, ← hrest]
      dsimp only
      split_ifs <;> rfl
    · rcases hplace : place s.rule fields (0 : UInt64) with e | placed <;>
        simp only [hplace, Journal.value_bind, Journal.value_pure, hrest]
      · rfl
      · rcases s.layoutsOf ds with e | rest <;> rfl

theorem layoutsOf_ok_iff {ds : List TypeDecl} :
    (∃ ls, s.layoutsOf ds = .ok ls) ↔ ∀ d ∈ ds, ∃ placed, s.placed? d = .ok placed := by
  induction ds with
  | nil => simp [layoutsOf]
  | cons d ds ih =>
    simp only [layoutsOf, List.mem_cons, forall_eq_or_imp, ← ih, bind_eq_ok]
    constructor
    · rintro ⟨ls, placed, hplaced, rest, hrest, -⟩
      exact ⟨⟨placed, hplaced⟩, rest, hrest⟩
    · rintro ⟨⟨placed, hplaced⟩, rest, hrest⟩
      exact ⟨_, placed, hplaced, rest, hrest, rfl⟩

/-- The name and the fields that a declaration is laid out with. -/
def row? (s : Scope) (d : TypeDecl) : Option (String × List Field) :=
  (s.placed? d).toOption.join.map fun fields => (d.name, fields)

theorem rows_of_layoutsOf {ds : List TypeDecl} {ls : List Layout} (h : s.layoutsOf ds = .ok ls) :
    ls.map (fun l => (l.name, l.fields)) = ds.filterMap s.row? := by
  induction ds generalizing ls with
  | nil =>
    obtain rfl := Except.ok.inj h
    rfl
  | cons d ds ih =>
    obtain ⟨placed, hplaced, h⟩ := bind_eq_ok.1 h
    obtain ⟨rest, hrest, h⟩ := bind_eq_ok.1 h
    obtain rfl := Except.ok.inj h
    rw [List.map_append, ih hrest, List.filterMap_cons, row?, hplaced]
    cases placed <;> rfl

theorem filterMap_row?_unlined (s : Scope) (ds : List TypeDecl) :
    (ds.map TypeDecl.unlined).filterMap s.row? = ds.filterMap s.row? := by
  rw [List.filterMap_map]
  rfl

theorem Agrees.row?_eq (h : s.Agrees s') : s.row? = s'.row? := by
  funext d
  rw [row?, row?, h.placed?_eq]

end Scope

theorem redeclared?_of_perm {ds ds' : List TypeDecl}
    (h : (ds.map TypeDecl.unlined).Perm (ds'.map TypeDecl.unlined))
    (hre : redeclared? [] ds = none) : redeclared? [] ds' = none := by
  have hnames : (ds.map TypeDecl.name).Perm (ds'.map TypeDecl.name) := by
    have := h.map TypeDecl.name
    rwa [List.map_map, List.map_map] at this
  rw [redeclared?_eq_none_iff] at hre ⊢
  exact ⟨by simp, hnames.nodup_iff.1 hre.2⟩

theorem extract_of_perm {target : Target} {rule : RecordRule} {path : String}
    {source source' : List UInt8} {ds ds' : List TypeDecl}
    (hds : (sourceChars source >>= declarations) = .ok ds)
    (hds' : (sourceChars source' >>= declarations) = .ok ds')
    (hperm : (ds.map TypeDecl.unlined).Perm (ds'.map TypeDecl.unlined)) {ls : List Layout}
    (h : (extract target rule path source).value = .ok ls) :
    ∃ ls', (extract target rule path source').value = .ok ls' ∧
      (ls.map fun l => (l.name, l.fields)).Perm (ls'.map fun l => (l.name, l.fields)) := by
  obtain ⟨found, hfound, hre, hls⟩ := extract_eq_ok_iff.1 h
  obtain rfl := Except.ok.inj (hfound.symm.trans hds)
  have hre' := redeclared?_of_perm hperm hre
  have hagrees : Scope.Agrees ⟨target, rule, found⟩ ⟨target, rule, ds'⟩ :=
    Scope.agrees_of_perm hre hre' hperm
  rw [Scope.layoutsFrom_value .nil] at hls
  have hall := Scope.layoutsOf_ok_iff.1 ⟨ls, hls⟩
  obtain ⟨ls', hls'⟩ : ∃ ls', Scope.layoutsOf ⟨target, rule, ds'⟩ ds' = .ok ls' := by
    refine Scope.layoutsOf_ok_iff.2 fun d' hd' => ?_
    obtain ⟨d, hd, heq⟩ := List.mem_map.1 (hperm.mem_iff.2 (List.mem_map_of_mem hd'))
    rw [← Scope.placed?_unlined, ← heq, Scope.placed?_unlined, ← hagrees.placed?_eq]
    exact hall d hd
  refine ⟨ls', ?_, ?_⟩
  · rw [extract_eq_ok_iff]
    refine ⟨ds', hds', hre', ?_⟩
    rw [Scope.layoutsFrom_value .nil, hls']
  · rw [Scope.rows_of_layoutsOf hls, Scope.rows_of_layoutsOf hls', ← Scope.filterMap_row?_unlined,
      ← Scope.filterMap_row?_unlined _ ds', ← hagrees.row?_eq]
    exact hperm.filterMap _

/-- Declarations that are resolved one after another are each resolved as on their own, also behind
some that fail. Sources that declare the same types in another order can therefore be laid out alike
or not at all. -/
theorem resolution_independent (target : Target) (rule : RecordRule) :
    (∀ decls calls : List TypeDecl, Scope.outcomes ⟨target, rule, decls⟩ calls [] =
      calls.map fun d => (Scope.recordFields ⟨target, rule, decls⟩ d []).1) ∧
    ∀ path source source' decls decls',
      (sourceChars source >>= declarations) = .ok decls →
      (sourceChars source' >>= declarations) = .ok decls' →
      (decls.map TypeDecl.unlined).Perm (decls'.map TypeDecl.unlined) →
        ((∃ ls, (extract target rule path source).value = .ok ls) ↔
          ∃ ls', (extract target rule path source').value = .ok ls') ∧
        ∀ ls ls', (extract target rule path source).value = .ok ls →
          (extract target rule path source').value = .ok ls' →
            (ls.map fun l => (l.name, l.fields)).Perm (ls'.map fun l => (l.name, l.fields)) := by
  refine ⟨fun decls calls => Scope.outcomes_eq .nil calls, ?_⟩
  intro path source source' decls decls' hdecls hdecls' hperm
  refine ⟨⟨?_, ?_⟩, ?_⟩
  · rintro ⟨ls, hls⟩
    obtain ⟨ls', hls', -⟩ := extract_of_perm hdecls hdecls' hperm hls
    exact ⟨ls', hls'⟩
  · rintro ⟨ls', hls'⟩
    obtain ⟨ls, hls, -⟩ := extract_of_perm hdecls' hdecls hperm.symm hls'
    exact ⟨ls, hls⟩
  · intro ls ls' hls hls'
    obtain ⟨found, hfound, hrows⟩ := extract_of_perm hdecls hdecls' hperm hls
    obtain rfl := Except.ok.inj (hfound.symm.trans hls')
    exact hrows

theorem declarations_of_tokens {source : List UInt8} {cs : List Char} {ts : List Token}
    {decls : List TypeDecl} (hcs : Text.Utf8.decode source = .ok cs) (hts : tokens cs = .ok ts)
    (hparse : TypeDecl.parseAll cs ts = .ok decls) :
    (sourceChars source >>= declarations) = .ok decls := by
  simp only [sourceChars, hcs, bind, Except.bind, declarations, hts, hparse]

/-- A struct under two names, one of which is declared by the other. -/
def aliasFirst : List UInt8 :=
  Text.Utf8.encode "type A B\ntype B struct\x7bn int8\x7d"

/-- The same two names the other way round. -/
def aliasLast : List UInt8 :=
  Text.Utf8.encode "type B struct\x7bn int8\x7d\ntype A B"

theorem resolution_independent_alias : ∃ decls decls' ls ls',
    (sourceChars aliasFirst >>= declarations) = .ok decls ∧
    (sourceChars aliasLast >>= declarations) = .ok decls' ∧
    (decls.map TypeDecl.unlined).Perm (decls'.map TypeDecl.unlined) ∧
    (extract ⟨8⟩ .standard "p.go" aliasFirst).value = .ok ls ∧
    (extract ⟨8⟩ .standard "p.go" aliasLast).value = .ok ls' ∧
    ls.map Layout.name = ["A", "B"] ∧ ls'.map Layout.name = ["B", "A"] ∧
    (ls.map fun l => (l.name, l.fields)).Perm (ls'.map fun l => (l.name, l.fields)) := by
  have hfirst : (sourceChars aliasFirst >>= declarations) = .ok
      [⟨"A", .named "B", false, ⟨1, 1⟩⟩,
        ⟨"B", .struct [⟨"n", .named "int8", false⟩], false, ⟨2, 2⟩⟩] := by
    have hcs : Text.Utf8.decode aliasFirst =
        .ok "type A B\ntype B struct\x7bn int8\x7d".toList := by decide +kernel
    have hts : tokens "type A B\ntype B struct\x7bn int8\x7d".toList = .ok
        [⟨.ident "type", 1, 0, 4⟩, ⟨.ident "A", 1, 5, 6⟩, ⟨.ident "B", 1, 7, 8⟩,
          ⟨.newline, 1, 8, 9⟩, ⟨.ident "type", 2, 9, 13⟩, ⟨.ident "B", 2, 14, 15⟩,
          ⟨.ident "struct", 2, 16, 22⟩, ⟨.punct '\x7b', 2, 22, 23⟩, ⟨.ident "n", 2, 23, 24⟩,
          ⟨.ident "int8", 2, 25, 29⟩, ⟨.punct '\x7d', 2, 29, 30⟩] := by decide +kernel
    exact declarations_of_tokens hcs hts rfl
  have hlast : (sourceChars aliasLast >>= declarations) = .ok
      [⟨"B", .struct [⟨"n", .named "int8", false⟩], false, ⟨1, 1⟩⟩,
        ⟨"A", .named "B", false, ⟨2, 2⟩⟩] := by
    have hcs : Text.Utf8.decode aliasLast =
        .ok "type B struct\x7bn int8\x7d\ntype A B".toList := by decide +kernel
    have hts : tokens "type B struct\x7bn int8\x7d\ntype A B".toList = .ok
        [⟨.ident "type", 1, 0, 4⟩, ⟨.ident "B", 1, 5, 6⟩, ⟨.ident "struct", 1, 7, 13⟩,
          ⟨.punct '\x7b', 1, 13, 14⟩, ⟨.ident "n", 1, 14, 15⟩, ⟨.ident "int8", 1, 16, 20⟩,
          ⟨.punct '\x7d', 1, 20, 21⟩, ⟨.newline, 1, 21, 22⟩, ⟨.ident "type", 2, 22, 26⟩,
          ⟨.ident "A", 2, 27, 28⟩, ⟨.ident "B", 2, 29, 30⟩] := by decide +kernel
    exact declarations_of_tokens hcs hts rfl
  have hnames : ((extract ⟨8⟩ .standard "p.go" aliasFirst).value.toOption.map fun ls =>
      ls.map Layout.name) = some ["A", "B"] := by decide +kernel
  have hnames' : ((extract ⟨8⟩ .standard "p.go" aliasLast).value.toOption.map fun ls =>
      ls.map Layout.name) = some ["B", "A"] := by decide +kernel
  obtain ⟨hiff, hrows⟩ := (resolution_independent ⟨8⟩ .standard).2 "p.go" _ _ _ _ hfirst hlast
    (.swap _ _ [])
  rcases hls : (extract ⟨8⟩ .standard "p.go" aliasFirst).value with e | ls <;> rw [hls] at hnames
  · cases hnames
  obtain ⟨ls', hls'⟩ := hiff.1 ⟨ls, hls⟩
  rw [hls'] at hnames'
  exact ⟨_, _, ls, ls', hfirst, hlast, .swap _ _ [], rfl, hls', Option.some.inj hnames,
    Option.some.inj hnames', hrows ls ls' hls hls'⟩

end StructPadding.Go

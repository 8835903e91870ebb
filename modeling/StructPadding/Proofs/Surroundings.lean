import StructPadding.Proofs.Parsed

/-!
# Declarations and what surrounds them

The parser looks one or two tokens ahead, but what it reads never depends on tokens behind a line
break: at the end of some tokens it sees nothing, and with a line break behind them a token that
goes on with nothing (`Confined`). So the declarations in front of a line break outside of brackets
are read as if the source ended there, and those behind it as if it started there
(`parseAll_append`).
-/

namespace StructPadding.Go

/-- Tokens that start with a line break. -/
def Breaks (more : List Token) : Prop :=
  more.head?.map Token.kind = some .newline

namespace Cursor

/-- The cursor with more tokens behind those ahead of it. -/
def followedBy (c : Cursor) (more : List Token) : Cursor :=
  ⟨c.last, c.rest ++ more⟩

section FollowedBy

variable {c c' : Cursor} {more : List Token}

theorem rest_ne_nil_of_peek {kind : TokenKind} (h : c.peek = some kind) : c.rest ≠ [] := by
  rintro hnil
  simp [peek, hnil] at h

theorem head?_followedBy (h : c.rest ≠ []) : (c.followedBy more).rest.head? = c.rest.head? := by
  rcases c with ⟨last, _ | ⟨t, rest⟩⟩
  · exact absurd rfl h
  · rfl

theorem peek_followedBy (h : c.rest ≠ []) : (c.followedBy more).peek = c.peek :=
  congrArg (Option.map Token.kind) (head?_followedBy h)

theorem isEmpty_followedBy (hmore : Breaks more) : (c.followedBy more).rest.isEmpty = false := by
  obtain ⟨t, ht, -⟩ := Option.map_eq_some_iff.1 hmore
  obtain ⟨rest, rfl⟩ := List.head?_eq_some_iff.1 ht
  simp [followedBy]

theorem advance_followedBy (h : c.rest ≠ []) :
    (c.followedBy more).advance = c.advance.followedBy more := by
  rcases c with ⟨last, _ | ⟨t, rest⟩⟩
  · exact absurd rfl h
  · rfl

theorem line_followedBy (h : c.rest ≠ []) : (c.followedBy more).line = c.line := by
  rcases c with ⟨last, _ | ⟨t, rest⟩⟩
  · exact absurd rfl h
  · rfl

theorem peek_followedBy_eq_iff (c : Cursor) (hmore : Breaks more) {kind : TokenKind}
    (hkind : kind ≠ .newline) : (c.followedBy more).peek = some kind ↔ c.peek = some kind := by
  rcases c with ⟨last, _ | ⟨t, rest⟩⟩
  · simp only [peek, followedBy, List.nil_append]
    rw [hmore]
    simp [Ne.symm hkind]
  · rfl

theorem peek_followedBy_ne (hmore : Breaks more) {kind : TokenKind} (hkind : kind ≠ .newline)
    (h : c.peek ≠ some kind) : (c.followedBy more).peek ≠ some kind :=
  mt (peek_followedBy_eq_iff c hmore hkind).1 h

theorem atPunct_followedBy (hmore : Breaks more) (p : Char) :
    (c.followedBy more).atPunct p = c.atPunct p := by
  have hiff := peek_followedBy_eq_iff c hmore (show TokenKind.punct p ≠ .newline by simp)
  simp only [atPunct, beq_eq_beq, hiff]

theorem skipPunct_followedBy (hmore : Breaks more) (p : Char) :
    (c.followedBy more).skipPunct p = (c.skipPunct p).followedBy more := by
  unfold skipPunct
  rw [atPunct_followedBy hmore]
  split_ifs with hp
  · have hpeek : c.peek = some (.punct p) := atPunct_iff.1 hp
    exact advance_followedBy (rest_ne_nil_of_peek hpeek)
  · rfl

theorem expectPunct_followedBy (hmore : Breaks more) {p : Char} (h : c.expectPunct p = .ok c') :
    (c.followedBy more).expectPunct p = .ok (c'.followedBy more) := by
  obtain ⟨hpeek, rfl⟩ := expectPunct_eq_ok h
  have hat : c.atPunct p = true := by simp [atPunct, hpeek]
  rw [expectPunct, atPunct_followedBy hmore, if_pos hat,
    advance_followedBy (rest_ne_nil_of_peek hpeek)]

theorem expectName_followedBy {name : String} (h : c.expectName = .ok (name, c')) :
    (c.followedBy more).expectName = .ok (name, c'.followedBy more) := by
  obtain ⟨hpeek, rfl⟩ := expectName_eq_ok h
  have hne := rest_ne_nil_of_peek hpeek
  rw [expectName, peek_followedBy hne, hpeek, advance_followedBy hne]

/-- What is skipped ends before the tokens do. -/
theorem skipWhile_followedBy (p : TokenKind → Bool) : ∀ {last : Option Token} {rest : List Token},
    (skipWhile p last rest).rest ≠ [] →
      skipWhile p last (rest ++ more) = (skipWhile p last rest).followedBy more
  | last, [], h => absurd rfl h
  | last, t :: rest, h => by
    rw [skipWhile] at h
    rw [List.cons_append, skipWhile, skipWhile]
    split_ifs at h ⊢
    · exact skipWhile_followedBy p h
    · rfl

theorem skipSeparators_followedBy (h : c.skipSeparators.rest ≠ []) :
    (c.followedBy more).skipSeparators = c.skipSeparators.followedBy more :=
  skipWhile_followedBy _ h

theorem skipNewlines_followedBy (h : c.skipNewlines.rest ≠ []) :
    (c.followedBy more).skipNewlines = c.skipNewlines.followedBy more :=
  skipWhile_followedBy _ h

theorem closeBrackets_followedBy {opening closing : Char} : ∀ {depth : Nat} {last : Option Token}
    {rest : List Token}, closeBrackets opening closing depth last rest = some c →
      closeBrackets opening closing depth last (rest ++ more) = some (c.followedBy more)
  | 0, last, rest, h => by
    rw [closeBrackets] at h ⊢
    obtain rfl := Option.some.inj h
    rfl
  | depth + 1, last, [], h => by
    rw [closeBrackets] at h
    cases h
  | depth + 1, last, t :: rest, h => by
    rw [closeBrackets] at h
    rw [List.cons_append, closeBrackets]
    split_ifs at h ⊢
    · exact closeBrackets_followedBy h
    · exact closeBrackets_followedBy h
    · exact closeBrackets_followedBy h

theorem skipBalanced_followedBy (hmore : Breaks more) {opening closing : Char}
    (h : c.skipBalanced opening closing = .ok c') :
    (c.followedBy more).skipBalanced opening closing = .ok (c'.followedBy more) := by
  rw [skipBalanced, bind_eq_ok] at h
  obtain ⟨inside, hinside, h⟩ := h
  rw [skipBalanced, expectPunct_followedBy hmore hinside]
  simp only [bind, Except.bind]
  split at h
  · next after hclose =>
    obtain rfl := Except.ok.inj h
    rw [followedBy, closeBrackets_followedBy hclose]
    rfl
  · cases h

end FollowedBy

end Cursor

/-! ## Types -/

namespace TypeExpr

open Cursor (followedBy rest_ne_nil_of_peek)

variable {source : List Char} {more : List Token} {c c' : Cursor}

theorem Step.rest_ne_nil {steps : Nat} {t : TypeExpr} (h : Step source steps c t c') :
    c.rest ≠ [] := by
  cases h with
  | interface ht | func ht | instantiated ht =>
    obtain ⟨rest, hrest⟩ := List.head?_eq_some_iff.1 ht
    simp [hrest]
  | struct hfirst | map hfirst | send hfirst | both hfirst | qualified hfirst | named hfirst
  | pointer hfirst | parens hfirst | slice hfirst | array hfirst | symbolicArray hfirst
  | recv hfirst => exact rest_ne_nil_of_peek hfirst

theorem startsEmbedded_followedBy (hmore : Breaks more) (c : Cursor) :
    startsEmbedded (c.followedBy more) = startsEmbedded c := by
  obtain ⟨t, ht, hkind⟩ := Option.map_eq_some_iff.1 hmore
  obtain ⟨rest', rfl⟩ := List.head?_eq_some_iff.1 ht
  rcases c with ⟨last, _ | ⟨u, _ | ⟨v, rest⟩⟩⟩
  · simp [startsEmbedded, followedBy, Cursor.peek, Cursor.advance, hkind]
  · simp only [startsEmbedded, followedBy, Cursor.peek, Cursor.advance, List.cons_append,
      List.nil_append, List.head?_cons, List.head?_nil, Option.map_some, Option.map_none, hkind]
    cases u.kind <;> rfl
  · rfl

theorem skipTag_followedBy (hmore : Breaks more) (c : Cursor) :
    skipTag (c.followedBy more) = (skipTag c).followedBy more := by
  have hiff := Cursor.peek_followedBy_eq_iff c hmore (show TokenKind.str ≠ .newline by simp)
  unfold skipTag
  simp only [hiff]
  split_ifs with h
  · exact Cursor.advance_followedBy (rest_ne_nil_of_peek h)
  · rfl

theorem checkFieldEnd_followedBy (h : checkFieldEnd c = .ok ()) :
    checkFieldEnd (c.followedBy more) = .ok () := by
  unfold checkFieldEnd at h ⊢
  split at h
  · next kind hpeek =>
    rw [Cursor.peek_followedBy (rest_ne_nil_of_peek hpeek), hpeek]
    dsimp only
    split_ifs at h ⊢
    · rfl
    · cases h
  · cases h

/-- There are never more names than tokens. -/
theorem moreNames_followedBy (hmore : Breaks more) {extra : Nat} : ∀ {steps : Nat} {c c' : Cursor}
    {names : List String}, c.rest.length ≤ steps → moreNames steps c = .ok (names, c') →
      moreNames (steps + extra) (c.followedBy more) = .ok (names, c'.followedBy more)
  | 0, c, c', names, hsteps, h => by
    obtain ⟨rfl, rfl⟩ := Prod.mk.inj (Except.ok.inj h)
    have hat : ¬c.atPunct ',' = true := fun hat =>
      rest_ne_nil_of_peek (Cursor.atPunct_iff.1 hat)
        (List.length_eq_zero_iff.1 (Nat.le_zero.1 hsteps))
    rw [Nat.zero_add]
    cases extra with
    | zero => rfl
    | succ extra => rw [moreNames, Cursor.atPunct_followedBy hmore, if_neg hat]
  | steps + 1, c, c', names, hsteps, h => by
    rw [moreNames] at h
    rw [Nat.add_right_comm, moreNames, Cursor.atPunct_followedBy hmore]
    split_ifs at h ⊢ with hat
    · have hpeek : c.peek = some (.punct ',') := Cursor.atPunct_iff.1 hat
      rw [bind_eq_ok] at h
      obtain ⟨⟨name, after⟩, hname, h⟩ := h
      obtain ⟨⟨rest, last⟩, hrest, h⟩ := bind_eq_ok.1 h
      obtain ⟨rfl, rfl⟩ := Prod.mk.inj (Except.ok.inj h)
      obtain ⟨hname', hafter⟩ := Cursor.expectName_eq_ok hname
      have hlength : after.rest.length ≤ steps := by
        have hadvance := Cursor.length_advance_lt hpeek
        have hskip := (Cursor.skipWhile_suffix (· == .newline) c.advance.last
          c.advance.rest).length_le
        have hnext := (Cursor.past_of_expectName hname).length_lt
        simp only [Cursor.skipNewlines] at hnext
        omega
      rw [Cursor.advance_followedBy (rest_ne_nil_of_peek hpeek),
        Cursor.skipNewlines_followedBy (rest_ne_nil_of_peek hname'),
        Cursor.expectName_followedBy hname]
      simp only [bind, Except.bind, moreNames_followedBy hmore hlength hrest]
      rfl
    · obtain ⟨rfl, rfl⟩ := Prod.mk.inj (Except.ok.inj h)
      rfl

/-- With so many steps the parser reads the same if a line break and more tokens follow, and more
steps are left. -/
structure Confined (source : List Char) (steps : Nat) : Prop where
  type : ∀ {more : List Token} {c c' : Cursor} {t : TypeExpr} (extra : Nat), Breaks more →
    parseWith source steps c = .ok (t, c') →
      parseWith source (steps + extra) (c.followedBy more) = .ok (t, c'.followedBy more)
  results : ∀ {more : List Token} {c c' : Cursor} (extra : Nat), Breaks more →
    resultsWith source steps c = .ok c' →
      resultsWith source (steps + extra) (c.followedBy more) = .ok (c'.followedBy more)
  fields : ∀ {more : List Token} {c c' : Cursor} {fs : List (FieldDecl TypeExpr)} (extra : Nat),
    Breaks more → fieldsWith source steps c = .ok (fs, c') →
      fieldsWith source (steps + extra) (c.followedBy more) = .ok (fs, c'.followedBy more)
  field : ∀ {more : List Token} {c c' : Cursor} {fs : List (FieldDecl TypeExpr)} (extra : Nat),
    Breaks more → fieldWith source steps c = .ok (fs, c') →
      fieldWith source (steps + extra) (c.followedBy more) = .ok (fs, c'.followedBy more)

namespace Confined

variable {steps : Nat} (extra : Nat)

theorem results_succ (ih : Confined source steps) (hmore : Breaks more)
    (h : resultsWith source (steps + 1) c = .ok c') :
    resultsWith source (steps + 1 + extra) (c.followedBy more) = .ok (c'.followedBy more) := by
  have hread : (parseWith source steps c >>= fun x => .ok x.2) = .ok c' →
      (parseWith source (steps + extra) (c.followedBy more) >>= fun x => .ok x.2) =
        .ok (c'.followedBy more) := by
    intro h
    obtain ⟨⟨t, after⟩, ht, h⟩ := bind_eq_ok.1 h
    obtain rfl := Except.ok.inj h
    rw [ih.type extra hmore ht]
    rfl
  rw [resultsWith] at h
  rw [Nat.add_right_comm, resultsWith]
  by_cases hne : c.rest = []
  · -- nothing is left, so the line break is next
    have hpeek : c.peek = none := by simp [Cursor.peek, hne]
    have hnewline : (c.followedBy more).peek = some .newline := by
      rw [Cursor.peek, followedBy, hne, List.nil_append]
      exact hmore
    rw [hpeek] at h
    rw [hnewline]
    obtain rfl := Except.ok.inj h
    rfl
  · rw [Cursor.peek_followedBy hne]
    split at h
    · exact Cursor.skipBalanced_followedBy hmore h
    · exact hread h
    · exact hread h
    · exact hread h
    · exact hread h
    · obtain rfl := Except.ok.inj h
      rfl

theorem field_succ (ih : Confined source steps) (hmore : Breaks more)
    {fs : List (FieldDecl TypeExpr)} (h : fieldWith source (steps + 1) c = .ok (fs, c')) :
    fieldWith source (steps + 1 + extra) (c.followedBy more) = .ok (fs, c'.followedBy more) := by
  rw [fieldWith] at h
  rw [Nat.add_right_comm, fieldWith, startsEmbedded_followedBy hmore]
  split_ifs at h ⊢
  · obtain ⟨⟨type, after⟩, htype, h⟩ := bind_eq_ok.1 h
    rw [ih.type extra hmore htype]
    dsimp only [bind, Except.bind] at h ⊢
    split at h
    · obtain ⟨rfl, rfl⟩ := Prod.mk.inj (Except.ok.inj h)
      rfl
    · cases h
  · obtain ⟨⟨name, after⟩, hname, h⟩ := bind_eq_ok.1 h
    obtain ⟨⟨names, last⟩, hnames, h⟩ := bind_eq_ok.1 h
    obtain ⟨⟨type, stop⟩, htype, h⟩ := bind_eq_ok.1 h
    obtain ⟨rfl, rfl⟩ := Prod.mk.inj (Except.ok.inj h)
    have hlength : (after.followedBy more).rest.length = after.rest.length + more.length :=
      List.length_append
    rw [Cursor.expectName_followedBy hname]
    simp only [bind, Except.bind, hlength, moreNames_followedBy hmore le_rfl hnames,
      ih.type extra hmore htype]
    rfl

theorem fields_succ (ih : Confined source steps) (hmore : Breaks more)
    {fs : List (FieldDecl TypeExpr)} (h : fieldsWith source (steps + 1) c = .ok (fs, c')) :
    fieldsWith source (steps + 1 + extra) (c.followedBy more) = .ok (fs, c'.followedBy more) := by
  rw [fieldsWith] at h
  simp only [] at h
  rw [Nat.add_right_comm, fieldsWith]
  split_ifs at h with hempty hclose
  · cases h
  all_goals
    have hne : c.skipSeparators.rest ≠ [] := fun hnil => hempty (List.isEmpty_iff.2 hnil)
    simp only [Cursor.skipSeparators_followedBy hne, Cursor.atPunct_followedBy hmore,
      Cursor.isEmpty_followedBy hmore, Bool.false_eq_true, if_false]
  · obtain ⟨rfl, rfl⟩ := Prod.mk.inj (Except.ok.inj h)
    rw [if_pos hclose, Cursor.advance_followedBy hne]
  · obtain ⟨⟨field, after⟩, hfield, h⟩ := bind_eq_ok.1 h
    obtain ⟨_, hend, h⟩ := bind_eq_ok.1 h
    obtain ⟨⟨rest, stop⟩, hrest, h⟩ := bind_eq_ok.1 h
    obtain ⟨rfl, rfl⟩ := Prod.mk.inj (Except.ok.inj h)
    rw [if_neg hclose, ih.field extra hmore hfield]
    simp only [bind, Except.bind, skipTag_followedBy hmore, checkFieldEnd_followedBy hend,
      ih.fields extra hmore hrest]
    rfl

theorem type_succ (ih : Confined source steps) (hmore : Breaks more) {t : TypeExpr}
    (h : parseWith source (steps + 1) c = .ok (t, c')) :
    parseWith source (steps + 1 + extra) (c.followedBy more) = .ok (t, c'.followedBy more) := by
  have hstep := Step.of_ok h
  have hne := hstep.rest_ne_nil
  have hpeek : (c.followedBy more).peek = c.peek := Cursor.peek_followedBy hne
  have hhead : (c.followedBy more).rest.head? = c.rest.head? := Cursor.head?_followedBy hne
  have hnext : (c.followedBy more).advance = c.advance.followedBy more :=
    Cursor.advance_followedBy hne
  rw [Nat.add_right_comm]
  apply Step.ok
  cases hstep with
  | struct hfirst hopen hfields =>
    exact .struct (hpeek.trans hfirst) (hnext ▸ Cursor.expectPunct_followedBy hmore hopen)
      (ih.fields extra hmore hfields)
  | interface ht hfirst hbody =>
    exact .interface (hhead.trans ht) hfirst (hnext ▸ Cursor.skipBalanced_followedBy hmore hbody)
  | map hfirst hopen hkey hclose hvalue =>
    exact .map (hpeek.trans hfirst) (hnext ▸ Cursor.expectPunct_followedBy hmore hopen)
      (ih.type extra hmore hkey) (Cursor.expectPunct_followedBy hmore hclose)
      (ih.type extra hmore hvalue)
  | send hfirst harrow helem =>
    have hinner := rest_ne_nil_of_peek harrow
    refine .send (hpeek.trans hfirst) ?_ ?_ <;> rw [hnext]
    · exact (Cursor.peek_followedBy hinner).trans harrow
    · rw [Cursor.advance_followedBy hinner]
      exact ih.type extra hmore helem
  | both hfirst harrow helem =>
    exact .both (hpeek.trans hfirst) (hnext ▸ Cursor.peek_followedBy_ne hmore (by simp) harrow)
      (hnext ▸ ih.type extra hmore helem)
  | func ht hfirst hparams hresults =>
    exact .func (hhead.trans ht) hfirst (hnext ▸ Cursor.skipBalanced_followedBy hmore hparams)
      (ih.results extra hmore hresults)
  | qualified hfirst hname hdot hselected =>
    have hinner := rest_ne_nil_of_peek hdot
    refine .qualified (hpeek.trans hfirst) hname ?_ ?_ <;> rw [hnext]
    · exact (Cursor.peek_followedBy hinner).trans hdot
    · rw [Cursor.advance_followedBy hinner]
      exact Cursor.expectName_followedBy hselected
  | instantiated ht hfirst hname hopen hargs =>
    refine .instantiated (hhead.trans ht) hfirst hname ?_
      (hnext ▸ Cursor.skipBalanced_followedBy hmore hargs)
    rw [hnext]
    exact (Cursor.peek_followedBy (rest_ne_nil_of_peek hopen)).trans hopen
  | named hfirst hname hdot hopen =>
    rw [← hnext]
    refine .named (hpeek.trans hfirst) hname ?_ ?_ <;> rw [hnext]
    · exact Cursor.peek_followedBy_ne hmore (by simp) hdot
    · exact Cursor.peek_followedBy_ne hmore (by simp) hopen
  | pointer hfirst helem =>
    exact .pointer (hpeek.trans hfirst) (hnext ▸ ih.type extra hmore helem)
  | parens hfirst hinner hclose =>
    exact .parens (hpeek.trans hfirst) (hnext ▸ ih.type extra hmore hinner)
      (Cursor.expectPunct_followedBy hmore hclose)
  | slice hfirst hclose helem =>
    have hinner := rest_ne_nil_of_peek hclose
    refine .slice (hpeek.trans hfirst) ?_ ?_ <;> rw [hnext]
    · exact (Cursor.peek_followedBy hinner).trans hclose
    · rw [Cursor.advance_followedBy hinner]
      exact ih.type extra hmore helem
  | array hfirst hlength hclose helem =>
    have hinner := rest_ne_nil_of_peek hlength
    refine .array (hpeek.trans hfirst) ?_ ?_ (ih.type extra hmore helem) <;> rw [hnext]
    · exact (Cursor.peek_followedBy hinner).trans hlength
    · rw [Cursor.advance_followedBy hinner]
      exact Cursor.expectPunct_followedBy hmore hclose
  | symbolicArray hfirst hlength hclose helem =>
    have hinner := rest_ne_nil_of_peek hlength
    refine .symbolicArray (hpeek.trans hfirst) ?_ ?_ (ih.type extra hmore helem) <;> rw [hnext]
    · exact (Cursor.peek_followedBy hinner).trans hlength
    · rw [Cursor.advance_followedBy hinner]
      exact Cursor.expectPunct_followedBy hmore hclose
  | recv hfirst hword helem =>
    exact .recv (hpeek.trans hfirst) (hnext ▸ Cursor.expectName_followedBy hword)
      (ih.type extra hmore helem)

end Confined

theorem confined (source : List Char) (steps : Nat) : Confined source steps := by
  induction steps with
  | zero =>
    refine ⟨fun _ _ h => ?_, fun _ _ h => ?_, fun _ _ h => ?_, fun _ _ h => ?_⟩
    · rw [parseWith] at h
      cases h
    · rw [resultsWith] at h
      cases h
    · rw [fieldsWith] at h
      cases h
    · rw [fieldWith] at h
      cases h
  | succ steps ih =>
    exact ⟨fun extra hmore h => ih.type_succ extra hmore h,
      fun extra hmore h => ih.results_succ extra hmore h,
      fun extra hmore h => ih.fields_succ extra hmore h,
      fun extra hmore h => ih.field_succ extra hmore h⟩

theorem parse_followedBy (hmore : Breaks more) {t : TypeExpr}
    (h : parse source c = .ok (t, c')) :
    parse source (c.followedBy more) = .ok (t, c'.followedBy more) := by
  have henough : enough (c.followedBy more) = enough c + 3 * more.length := by
    simp only [enough, followedBy, List.length_append]
    omega
  rw [parse, henough]
  exact (confined source (enough c)).type _ hmore h

end TypeExpr

/-! ## Declarations -/

namespace TypeDecl

open Cursor (followedBy rest_ne_nil_of_peek)

variable {source : List Char} {more : List Token} {c c' : Cursor} {ds : List TypeDecl}

theorem startsParams_followedBy (hmore : Breaks more) (h : c.rest ≠ []) :
    startsParams (c.followedBy more) = startsParams c := by
  obtain ⟨t, ht, hkind⟩ := Option.map_eq_some_iff.1 hmore
  obtain ⟨rest', rfl⟩ := List.head?_eq_some_iff.1 ht
  rcases c with ⟨last, _ | ⟨u, _ | ⟨v, _ | ⟨w, rest⟩⟩⟩⟩
  · exact absurd rfl h
  · simp [startsParams, followedBy, Cursor.peek, Cursor.advance, hkind]
  · simp only [startsParams, followedBy, Cursor.peek, Cursor.advance, List.cons_append,
      List.nil_append, List.head?_cons, List.head?_nil, Option.map_some, Option.map_none, hkind]
    rcases v.kind with _ | _ | _ | _ | _ | _ | p
    case punct =>
      by_cases hp : p = ']'
      · subst hp
        rfl
      · simp [hp]
    all_goals rfl
  · rfl

theorem parse_followedBy (hmore : Breaks more) {d : TypeDecl}
    (h : parse source c = .ok (d, c')) :
    parse source (c.followedBy more) = .ok (d, c'.followedBy more) := by
  obtain ⟨⟨name, after⟩, hname, h⟩ := bind_eq_ok.1 h
  have hline : (c.followedBy more).line = c.line :=
    Cursor.line_followedBy (rest_ne_nil_of_peek (Cursor.expectName_eq_ok hname).1)
  have hgeneric : ((after.followedBy more).atPunct '[' && startsParams (after.followedBy more)) =
      (after.atPunct '[' && startsParams after) := by
    rw [Cursor.atPunct_followedBy hmore]
    by_cases hat : after.atPunct '[' = true
    · have hpeek : after.peek = some (.punct '[') := Cursor.atPunct_iff.1 hat
      rw [startsParams_followedBy hmore (rest_ne_nil_of_peek hpeek)]
    · simp [hat]
  -- the type behind the parameters and the equals sign
  have htail : ∀ {params : Cursor} {generic : Bool},
      (TypeExpr.parse source (params.skipPunct '=') >>= fun x =>
        .ok ((⟨name, x.1, generic, ⟨c.line, x.2.lastLine⟩⟩ : TypeDecl), x.2)) = .ok (d, c') →
      (TypeExpr.parse source ((params.followedBy more).skipPunct '=') >>= fun x =>
        .ok ((⟨name, x.1, generic, ⟨c.line, x.2.lastLine⟩⟩ : TypeDecl), x.2)) =
          .ok (d, c'.followedBy more) := by
    intro params generic h
    obtain ⟨⟨type, stop⟩, htype, h⟩ := bind_eq_ok.1 h
    obtain ⟨rfl, rfl⟩ := Prod.mk.inj (Except.ok.inj h)
    rw [Cursor.skipPunct_followedBy hmore, TypeExpr.parse_followedBy hmore htype]
    rfl
  rw [parse, Cursor.expectName_followedBy hname]
  dsimp only [bind, Except.bind] at h ⊢
  rw [hgeneric, hline]
  split_ifs at h ⊢
  · obtain ⟨params, hparams, h⟩ := bind_eq_ok.1 h
    rw [Cursor.skipBalanced_followedBy hmore hparams]
    exact htail h
  · exact htail h

theorem parseGroup_followedBy (hmore : Breaks more) (extra : Nat) : ∀ {steps : Nat}
    {c c' : Cursor} {ds : List TypeDecl}, parseGroup source steps c = .ok (ds, c') →
      parseGroup source (steps + extra) (c.followedBy more) = .ok (ds, c'.followedBy more)
  | 0, c, c', ds, h => by
    rw [parseGroup] at h
    cases h
  | steps + 1, c, c', ds, h => by
    rw [parseGroup] at h
    simp only [] at h
    rw [Nat.add_right_comm, parseGroup]
    split_ifs at h with hempty hclose
    · cases h
    all_goals
      have hne : c.skipSeparators.rest ≠ [] := fun hnil => hempty (List.isEmpty_iff.2 hnil)
      simp only [Cursor.skipSeparators_followedBy hne, Cursor.atPunct_followedBy hmore,
        Cursor.isEmpty_followedBy hmore, Bool.false_eq_true, if_false]
    · obtain ⟨rfl, rfl⟩ := Prod.mk.inj (Except.ok.inj h)
      rw [if_pos hclose, Cursor.advance_followedBy hne]
    · obtain ⟨⟨d, after⟩, hd, h⟩ := bind_eq_ok.1 h
      obtain ⟨⟨rest, stop⟩, hrest, h⟩ := bind_eq_ok.1 h
      obtain ⟨rfl, rfl⟩ := Prod.mk.inj (Except.ok.inj h)
      rw [if_neg hclose, parse_followedBy hmore hd]
      simp only [bind, Except.bind, parseGroup_followedBy hmore extra hrest]
      rfl

theorem parseDecls_followedBy (hmore : Breaks more) (h : parseDecls source c = .ok (ds, c')) :
    parseDecls source (c.followedBy more) = .ok (ds, c'.followedBy more) := by
  unfold parseDecls at h ⊢
  rw [Cursor.atPunct_followedBy hmore]
  split_ifs at h ⊢ with hat
  · have hpeek : c.peek = some (.punct '(') := Cursor.atPunct_iff.1 hat
    have hlength : (c.followedBy more).rest.length + 1 = c.rest.length + 1 + more.length := by
      simp only [followedBy, List.length_append]
      omega
    rw [hlength, Cursor.advance_followedBy (rest_ne_nil_of_peek hpeek)]
    exact parseGroup_followedBy hmore more.length h
  · obtain ⟨⟨d, after⟩, hd, h⟩ := bind_eq_ok.1 h
    obtain ⟨rfl, rfl⟩ := Prod.mk.inj (Except.ok.inj h)
    rw [parse_followedBy hmore hd]
    rfl

/-! ## Files -/

/-- Reads the declarations that are left, as `parseFrom` does, and says how many brackets are open
at the end. -/
def readFrom (source : List Char) : Nat → Nat → Cursor → Except SyntaxError (List TypeDecl × Nat)
  | 0, depth, _ => .ok ([], depth)
  | steps + 1, depth, c =>
    match c.peek with
    | none => .ok ([], depth)
    | some kind =>
      if depth = 0 ∧ kind = .ident "type" then do
        let (decls, after) ← parseDecls source c.advance
        let (more, depth) ← readFrom source steps 0 after
        return (decls ++ more, depth)
      else readFrom source steps (bracketDepth depth kind) c.advance

/-- The declarations of some tokens, and how many brackets are open behind them. -/
def readAll (source : List Char) (tokens : List Token) : Except SyntaxError (List TypeDecl × Nat) :=
  readFrom source (tokens.length + 1) 0 (.start tokens)

theorem parseFrom_eq_map (source : List Char) : ∀ (steps depth : Nat) (c : Cursor),
    parseFrom source steps depth c = (readFrom source steps depth c).map Prod.fst
  | 0, depth, c => rfl
  | steps + 1, depth, c => by
    rw [parseFrom, readFrom]
    rcases c.peek with _ | kind
    · rfl
    dsimp only
    split_ifs
    · rcases parseDecls source c.advance with e | ⟨decls, after⟩
      · rfl
      · simp only [bind, Except.bind, parseFrom_eq_map source steps 0 after]
        rcases readFrom source steps 0 after with e | ⟨rest, depth⟩ <;> rfl
    · exact parseFrom_eq_map source steps _ _

theorem parseAll_eq_map (source : List Char) (tokens : List Token) :
    parseAll source tokens = (readAll source tokens).map Prod.fst :=
  parseFrom_eq_map source _ _ _

/-- More steps than tokens make no difference, nor does what stands before the first token. -/
theorem parseFrom_congr (source : List Char) : ∀ {steps steps' depth : Nat} {c c' : Cursor},
    c.rest = c'.rest → c.rest.length < steps → c.rest.length < steps' →
      parseFrom source steps depth c = parseFrom source steps' depth c'
  | steps + 1, steps' + 1, depth, c, c', hrest, hsteps, hsteps' => by
    have hpeek : c.peek = c'.peek := by rw [Cursor.peek, Cursor.peek, hrest]
    rw [parseFrom, parseFrom, ← hpeek]
    rcases hkind : c.peek with _ | kind
    · rfl
    have hnext : c.advance = c'.advance := by
      have hne := rest_ne_nil_of_peek hkind
      unfold Cursor.advance
      rw [← hrest]
      rcases hcons : c.rest with _ | ⟨t, rest⟩
      · exact absurd hcons hne
      · rfl
    have hlength := Cursor.length_advance_lt hkind
    dsimp only
    rw [← hnext]
    split_ifs
    · rcases hdecls : parseDecls source c.advance with e | ⟨decls, after⟩
      · rfl
      · have hle := (inOrder_of_parseDecls hdecls).suffix.length_le
        have hsame : parseFrom source steps 0 after = parseFrom source steps' 0 after :=
          parseFrom_congr source rfl (by omega) (by omega)
        simp only [bind, Except.bind, hsame]
    · exact parseFrom_congr source rfl (by omega) (by omega)

/-- Reading goes on behind tokens that leave no bracket open. -/
theorem parseFrom_followedBy (hmore : Breaks more) : ∀ {steps depth : Nat} {c : Cursor}
    {ds : List TypeDecl}, c.rest.length < steps → readFrom source steps depth c = .ok (ds, 0) →
      parseFrom source (steps + more.length) depth (c.followedBy more) =
        (parseFrom source (more.length + 1) 0 (.start more)).map (ds ++ ·)
  | steps + 1, depth, c, ds, hsteps, h => by
    rw [readFrom] at h
    rcases hkind : c.peek with _ | kind <;> simp only [hkind] at h
    · obtain ⟨rfl, rfl⟩ := Prod.mk.inj (Except.ok.inj h)
      have hnil : c.rest = [] := by simpa [Cursor.peek] using hkind
      have hfollowed : (c.followedBy more).rest = (Cursor.start more).rest := by
        simp [followedBy, hnil, Cursor.start]
      have hsame : parseFrom source (steps + 1 + more.length) 0 (c.followedBy more) =
          parseFrom source (more.length + 1) 0 (.start more) :=
        parseFrom_congr source hfollowed (by simp [followedBy, hnil]) (by simp [followedBy, hnil])
      rw [hsame]
      rcases parseFrom source (more.length + 1) 0 (.start more) with e | es <;> rfl
    have hne := rest_ne_nil_of_peek hkind
    have hlength := Cursor.length_advance_lt hkind
    rw [Nat.add_right_comm, parseFrom, Cursor.peek_followedBy hne, hkind,
      Cursor.advance_followedBy hne]
    dsimp only
    split_ifs at h ⊢
    · obtain ⟨⟨decls, after⟩, hdecls, h⟩ := bind_eq_ok.1 h
      obtain ⟨⟨rest, stop⟩, hrest, h⟩ := bind_eq_ok.1 h
      obtain ⟨rfl, rfl⟩ := Prod.mk.inj (Except.ok.inj h)
      have hle := (inOrder_of_parseDecls hdecls).suffix.length_le
      have hgoes := parseFrom_followedBy hmore (c := after) (by omega) hrest
      rw [parseDecls_followedBy hmore hdecls]
      simp only [bind, Except.bind, hgoes]
      rcases parseFrom source (more.length + 1) 0 (.start more) with e | es
      · rfl
      · simp [Except.map, pure, Except.pure]
    · exact parseFrom_followedBy hmore (by omega) h

/-- Tokens that are passed over: the word `type` stands only inside brackets, and all of these are
closed at the end. -/
def PassedOver : Nat → List Token → Prop
  | depth, [] => depth = 0
  | depth, t :: ts =>
    ¬(depth = 0 ∧ t.kind = .ident "type") ∧ PassedOver (bracketDepth depth t.kind) ts

theorem readFrom_of_passedOver {last : Option Token} : ∀ {steps depth : Nat} {ts : List Token},
    ts.length < steps → PassedOver depth ts → readFrom source steps depth ⟨last, ts⟩ = .ok ([], 0)
  | steps + 1, depth, [], _, h => by
    rw [readFrom]
    exact congrArg (fun n => Except.ok ([], n)) h
  | steps + 1, depth, t :: ts, hsteps, h => by
    rw [readFrom]
    exact (if_neg h.1).trans (readFrom_of_passedOver (Nat.lt_of_succ_lt_succ hsteps) h.2)

theorem parseAll_followedBy (hmore : Breaks more) {front : List Token}
    (h : readAll source front = .ok (ds, 0)) :
    parseAll source (front ++ more) = (parseAll source more).map (ds ++ ·) := by
  have hread := parseFrom_followedBy hmore (Nat.lt_succ_self _) h
  rw [parseAll, List.length_append, Nat.add_right_comm]
  exact hread

theorem parseAll_newline {newline : Token} (h : newline.kind = .newline) (back : List Token) :
    parseAll source (newline :: back) = parseAll source back := by
  rw [parseAll, parseFrom]
  simp only [Cursor.start, Cursor.peek, List.head?_cons, Option.map_some, h]
  rw [if_neg (by simp)]
  exact parseFrom_congr source rfl (by simp [Cursor.advance]) (by simp [Cursor.advance])

/-- If some tokens are read and leave no bracket open, then behind a line break everything is read
as if it stood alone: its declarations come behind those in front of it, and what is wrong with it
is what would be wrong anyway. Tokens that are passed over make no difference at all. -/
theorem parseAll_append (source : List Char) (front : List Token) {newline : Token}
    (hnewline : newline.kind = .newline) :
    parseAll source front = (readAll source front).map Prod.fst ∧
      (∀ decls, readAll source front = .ok (decls, 0) → ∀ back,
        parseAll source (front ++ newline :: back) = (parseAll source back).map (decls ++ ·)) ∧
      (PassedOver 0 front → ∀ back,
        parseAll source (front ++ newline :: back) = parseAll source back) := by
  have happend : ∀ decls, readAll source front = .ok (decls, 0) → ∀ back,
      parseAll source (front ++ newline :: back) = (parseAll source back).map (decls ++ ·) := by
    intro decls h back
    rw [parseAll_followedBy (by simp [Breaks, hnewline]) h, parseAll_newline hnewline]
  refine ⟨parseAll_eq_map source front, happend, fun h back => ?_⟩
  rw [happend [] (readFrom_of_passedOver (Nat.lt_succ_self _) h)]
  rcases parseAll source back with e | es <;> rfl

/-- A declaration that could go on with results, behind a block with a declaration in it. -/
def signature : List Token :=
  [⟨.punct '\x7b', 1, 0, 1⟩, ⟨.ident "type", 1, 2, 6⟩, ⟨.ident "X", 1, 7, 8⟩,
    ⟨.ident "int", 1, 9, 12⟩, ⟨.punct '\x7d', 1, 13, 14⟩, ⟨.newline, 1, 14, 15⟩,
    ⟨.ident "type", 2, 15, 19⟩, ⟨.ident "F", 2, 20, 21⟩, ⟨.ident "func", 2, 22, 26⟩,
    ⟨.punct '(', 2, 26, 27⟩, ⟨.punct ')', 2, 27, 28⟩]

/-- Brackets that could be those results, and a declaration without a name. -/
def nameless : List Token :=
  [⟨.punct '(', 3, 29, 30⟩, ⟨.ident "T", 3, 30, 31⟩, ⟨.punct ')', 3, 31, 32⟩,
    ⟨.newline, 3, 32, 33⟩, ⟨.ident "type", 4, 33, 37⟩]

/-- The text of both. -/
def unnamed : List Char :=
  "\x7b type X int \x7d\ntype F func()\n(T)\ntype".toList

theorem parseAll_append_signature :
    tokens unnamed = .ok (signature ++ ⟨.newline, 2, 28, 29⟩ :: nameless) ∧
      (∃ decls, readAll unnamed signature = .ok (decls, 0) ∧
        decls.map (fun d => (d.name, d.lines)) = [("F", ⟨2, 2⟩)] ∧
        ∀ back, parseAll unnamed (signature ++ ⟨.newline, 2, 28, 29⟩ :: back) =
          (parseAll unnamed back).map (decls ++ ·)) ∧
      parseAll unnamed nameless = .error ⟨4, .nameExpected none⟩ ∧
      PassedOver 0 (signature.take 5) ∧
      ∀ back, parseAll unnamed (signature.take 5 ++ ⟨.newline, 1, 14, 15⟩ :: back) =
        parseAll unnamed back := by
  have hread : readAll unnamed signature = .ok (_, 0) := rfl
  have hpassed : PassedOver 0 (signature.take 5) := by
    simp [signature, PassedOver, bracketDepth]
  exact ⟨by decide +kernel, ⟨_, hread, rfl, (parseAll_append unnamed signature rfl).2.1 _ hread⟩,
    rfl, hpassed, (parseAll_append unnamed (signature.take 5) rfl).2.2 hpassed⟩

end TypeDecl

end StructPadding.Go

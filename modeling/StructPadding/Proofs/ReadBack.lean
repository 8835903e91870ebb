import StructPadding.Proofs.Printed

/-!
# Types read back

The type that is read from the tokens of a plain type's text (`readBack`) is that type again, with
one exception: behind the word `chan` a channel to receive from is taken for part of a channel to
send to. `Parses` and `ParsesFields` say what a list of tokens is read as, whatever
follows it; there is one lemma for each way to write a type or a field.
-/

namespace StructPadding.Go

namespace Cursor

/-- The kinds of the tokens ahead. -/
def ahead (c : Cursor) : List TokenKind :=
  c.rest.map Token.kind

theorem peek_eq (c : Cursor) : c.peek = c.ahead.head? := by
  simp [peek, ahead]

@[simp]
theorem ahead_advance (c : Cursor) : c.advance.ahead = c.ahead.tail := by
  unfold advance ahead
  rcases hrest : c.rest with _ | ⟨t, rest⟩ <;> simp [hrest]

theorem rest_of_ahead {c : Cursor} {k : TokenKind} {ks : List TokenKind} (h : c.ahead = k :: ks) :
    ∃ t rest, c.rest = t :: rest ∧ t.kind = k :=
  rest_of_peek (by rw [peek_eq, h]; rfl)

/-- The cursor some tokens further. -/
def skip : Nat → Cursor → Cursor
  | 0, c => c
  | n + 1, c => skip n c.advance

theorem ahead_skip : ∀ (n : Nat) (c : Cursor), (c.skip n).ahead = c.ahead.drop n
  | 0, _ => rfl
  | n + 1, c => by
    rw [skip, ahead_skip n c.advance, ahead_advance, List.drop_tail]

theorem atPunct_eq (c : Cursor) (p : Char) : c.atPunct p = (c.ahead.head? == some (.punct p)) := by
  rw [atPunct, peek_eq]

theorem expectPunct_of_ahead {c : Cursor} {p : Char} {ks : List TokenKind}
    (h : c.ahead = .punct p :: ks) : c.expectPunct p = .ok c.advance := by
  rw [expectPunct, atPunct_eq, h]
  simp

theorem expectName_of_ahead {c : Cursor} {name : String} {ks : List TokenKind}
    (h : c.ahead = .ident name :: ks) : c.expectName = .ok (name, c.advance) := by
  rw [expectName, peek_eq, h]
  rfl

end Cursor

namespace TypeExpr

/-! ## Tokens and what is read from them -/

/-- Tokens that do not go on with the name before them. -/
def Ends (ks : List TokenKind) : Prop :=
  ∀ k ∈ ks.head?, k ≠ .punct '.' ∧ k ≠ .punct '['

variable {source : List Char}

/-- Tokens that are read as a type, whatever ends it. Three steps for each token are enough. -/
def Parses (source : List Char) (ks : List TokenKind) (t : TypeExpr) : Prop :=
  ∀ ⦃steps : Nat⦄ ⦃c : Cursor⦄ ⦃more : List TokenKind⦄, 3 * ks.length ≤ steps →
    c.ahead = ks ++ more → Ends more →
      ∃ c', parseWith source steps c = .ok (t, c') ∧ c'.ahead = more

/-- Tokens that are read as the fields of a struct if its brace follows. -/
def ParsesFields (source : List Char) (ks : List TokenKind) (fields : List (FieldDecl TypeExpr)) :
    Prop :=
  ∀ ⦃steps : Nat⦄ ⦃c : Cursor⦄ ⦃more : List TokenKind⦄, 3 * ks.length + 3 ≤ steps →
    c.ahead = ks ++ .punct '\x7d' :: more →
      ∃ c', fieldsWith source steps c = .ok (fields, c') ∧ c'.ahead = more

theorem parses_named {name : String} (hname : name ∉ reserved) :
    Parses source [.ident name] (.named name) := by
  rintro (_ | steps) c more hsteps hahead hmore
  · cases hsteps
  · rw [List.singleton_append] at hahead
    have hnext : c.advance.peek = more.head? := by simp [Cursor.peek_eq, hahead]
    refine ⟨c.advance, (Step.named (by simp [Cursor.peek_eq, hahead]) hname ?_ ?_).ok,
      by simp [hahead]⟩ <;> rw [hnext]
    · exact fun h => (hmore _ h).1 rfl
    · exact fun h => (hmore _ h).2 rfl

theorem parses_qualified {package name : String} (hpackage : package ∉ reserved) :
    Parses source [.ident package, .punct '.', .ident name] (.qualified package name) := by
  rintro (_ | steps) c more hsteps hahead hmore
  · cases hsteps
  · have hname : c.advance.advance.ahead = .ident name :: more := by simp [hahead]
    exact ⟨c.advance.advance.advance, (Step.qualified (by simp [Cursor.peek_eq, hahead]) hpackage
      (by simp [Cursor.peek_eq, hahead]) (Cursor.expectName_of_ahead hname)).ok, by simp [hahead]⟩

variable {ks : List TokenKind} {t : TypeExpr}

/-- A type behind tokens that say what to make of it. -/
theorem Parses.behind {u : TypeExpr} (opening : List TokenKind) (hne : opening ≠ [])
    (h : Parses source ks t)
    (hstep : ∀ {steps : Nat} {c c' : Cursor} {more : List TokenKind},
      c.ahead = opening ++ (ks ++ more) →
      parseWith source steps (c.skip opening.length) = .ok (t, c') →
        parseWith source (steps + 1) c = .ok (u, c')) :
    Parses source (opening ++ ks) u := by
  have hpos := List.length_pos_iff.2 hne
  rintro (_ | steps) c more hsteps hahead hmore <;> rw [List.length_append] at hsteps
  · omega
  · have hle : 3 * ks.length ≤ steps := by omega
    rw [List.append_assoc] at hahead
    have hinner : (c.skip opening.length).ahead = ks ++ more := by
      rw [Cursor.ahead_skip, hahead, List.drop_left]
    obtain ⟨c', hparse, hc'⟩ := h hle hinner hmore
    exact ⟨c', hstep hahead hparse, hc'⟩

theorem Parses.pointer (h : Parses source ks t) :
    Parses source (.punct '*' :: ks) (.pointer t) := by
  refine h.behind [.punct '*'] (by simp) fun {steps c c' more} hahead hparse => ?_
  exact (Step.pointer (by simp [Cursor.peek_eq, hahead]) hparse).ok

theorem Parses.slice (h : Parses source ks t) :
    Parses source (.punct '[' :: .punct ']' :: ks) (.slice t) := by
  refine h.behind [.punct '[', .punct ']'] (by simp) fun {steps c c' more} hahead hparse => ?_
  exact (Step.slice (by simp [Cursor.peek_eq, hahead]) (by simp [Cursor.peek_eq, hahead]) hparse).ok

theorem Parses.array (length : Nat) (h : Parses source ks t) :
    Parses source (.punct '[' :: .number (some length) :: .punct ']' :: ks) (.array length t) := by
  refine h.behind [.punct '[', .number (some length), .punct ']'] (by simp)
    fun {steps c c' more} hahead hparse => ?_
  have hclose : c.advance.advance.ahead = .punct ']' :: (ks ++ more) := by simp [hahead]
  exact (Step.array (by simp [Cursor.peek_eq, hahead]) (by simp [Cursor.peek_eq, hahead])
    (Cursor.expectPunct_of_ahead hclose) hparse).ok

theorem Parses.symbolicArray (length : String) (h : Parses source ks t) :
    Parses source (.punct '[' :: .ident length :: .punct ']' :: ks) (.symbolicArray length t) := by
  refine h.behind [.punct '[', .ident length, .punct ']'] (by simp)
    fun {steps c c' more} hahead hparse => ?_
  have hclose : c.advance.advance.ahead = .punct ']' :: (ks ++ more) := by simp [hahead]
  exact (Step.symbolicArray (by simp [Cursor.peek_eq, hahead]) (by simp [Cursor.peek_eq, hahead])
    (Cursor.expectPunct_of_ahead hclose) hparse).ok

theorem Parses.chan (h : Parses source ks t) (hne : ks ≠ []) (hks : ks.head? ≠ some .arrow) :
    Parses source (.ident "chan" :: ks) (.chan .both t) := by
  refine h.behind [.ident "chan"] (by simp) fun {steps c c' more} hahead hparse => ?_
  have hplain : c.advance.peek ≠ some .arrow := by
    rw [Cursor.peek_eq, Cursor.ahead_advance, hahead]
    rcases ks with _ | ⟨k, ks⟩
    · exact absurd rfl hne
    · exact hks
  exact (Step.both (by simp [Cursor.peek_eq, hahead]) hplain hparse).ok

theorem Parses.send (h : Parses source ks t) :
    Parses source (.ident "chan" :: .arrow :: ks) (.chan .send t) := by
  refine h.behind [.ident "chan", .arrow] (by simp) fun {steps c c' more} hahead hparse => ?_
  exact (Step.send (by simp [Cursor.peek_eq, hahead]) (by simp [Cursor.peek_eq, hahead]) hparse).ok

theorem Parses.recv (h : Parses source ks t) :
    Parses source (.arrow :: .ident "chan" :: ks) (.chan .recv t) := by
  refine h.behind [.arrow, .ident "chan"] (by simp) fun {steps c c' more} hahead hparse => ?_
  have hword : c.advance.ahead = .ident "chan" :: (ks ++ more) := by simp [hahead]
  exact (Step.recv (by simp [Cursor.peek_eq, hahead]) (Cursor.expectName_of_ahead hword) hparse).ok

theorem Parses.map {us : List TokenKind} {key : TypeExpr} (hkey : Parses source us key)
    (h : Parses source ks t) :
    Parses source (.ident "map" :: .punct '[' :: (us ++ .punct ']' :: ks)) (.map key t) := by
  rintro (_ | steps) c more hsteps hahead hmore
  · cases hsteps
  · simp only [List.length_cons, List.length_append] at hsteps
    have hle : 3 * ks.length ≤ steps := by omega
    have hle' : 3 * us.length ≤ steps := by omega
    have hopen : c.advance.ahead = .punct '[' :: (us ++ .punct ']' :: (ks ++ more)) := by
      simp [hahead]
    have hinside : c.advance.advance.ahead = us ++ .punct ']' :: (ks ++ more) := by simp [hahead]
    have hends : Ends (.punct ']' :: (ks ++ more)) := by
      rintro k ⟨⟩
      decide
    obtain ⟨d, hparse', hd⟩ := hkey hle' hinside hends
    obtain ⟨c', hparse, hc'⟩ := h hle (c := d.advance) (by simp [hd]) hmore
    exact ⟨c', (Step.map (by simp [Cursor.peek_eq, hahead]) (Cursor.expectPunct_of_ahead hopen)
      hparse' (Cursor.expectPunct_of_ahead hd) hparse).ok, hc'⟩

theorem ParsesFields.struct {fields : List (FieldDecl TypeExpr)}
    (h : ParsesFields source ks fields) :
    Parses source (.ident "struct" :: .punct '\x7b' :: (ks ++ [.punct '\x7d']))
      (.struct fields) := by
  rintro (_ | steps) c more hsteps hahead hmore
  · cases hsteps
  · have hle : 3 * ks.length + 3 ≤ steps := by simp at hsteps; omega
    have hopen : c.advance.ahead = .punct '\x7b' :: (ks ++ .punct '\x7d' :: more) := by
      simp [hahead]
    have hinner : c.advance.advance.ahead = ks ++ .punct '\x7d' :: more := by simp [hahead]
    obtain ⟨c', hparse, hc'⟩ := h hle hinner
    exact ⟨c', (Step.struct (by simp [Cursor.peek_eq, hahead])
      (Cursor.expectPunct_of_ahead hopen) hparse).ok, hc'⟩

/-! ## Fields -/

/-- The tokens that a type can start with. -/
def opensType : TokenKind → Bool
  | .ident _ => true
  | .arrow => true
  | .punct c => c == '*' || c == '['
  | _ => false

theorem opensType_cases {k : TokenKind} (h : opensType k = true) :
    (∃ name, k = .ident name) ∨ k = .arrow ∨ k = .punct '*' ∨ k = .punct '[' := by
  rcases k with name | _ | _ | _ | _ | _ | p <;> simp_all [opensType]

/-- The tokens that a field can be followed by. -/
def endsField : TokenKind → Bool
  | .newline => true
  | .punct c => c == ';' || c == '\x7d'
  | _ => false

variable {fields : List (FieldDecl TypeExpr)} {steps : Nat} {c c' : Cursor} {k : TokenKind}

theorem endsField_cases (h : endsField k = true) :
    k = .newline ∨ k = .punct ';' ∨ k = .punct '\x7d' := by
  rcases k with name | _ | _ | _ | _ | _ | p <;> simp_all [endsField]

theorem skipSeparators_of_separator (hahead : c.ahead = k :: ks) (hk : k.isSeparator = true) :
    c.skipSeparators = c.advance.skipSeparators := by
  obtain ⟨t, rest, hrest, rfl⟩ := Cursor.rest_of_ahead hahead
  simp [Cursor.skipSeparators, Cursor.advance, Cursor.skipWhile, hrest, hk]

theorem skipSeparators_self (hahead : c.ahead = k :: ks) (hk : k.isSeparator = false) :
    c.skipSeparators = c := by
  obtain ⟨t, rest, hrest, rfl⟩ := Cursor.rest_of_ahead hahead
  rcases c with ⟨last, rest'⟩
  obtain rfl : rest' = t :: rest := hrest
  simp [Cursor.skipSeparators, Cursor.skipWhile, hk]

theorem parsesFields_nil : ParsesFields source [] [] := by
  rintro (_ | steps) c more hsteps hahead
  · cases hsteps
  · rw [List.nil_append] at hahead
    obtain ⟨t, rest, hrest, -⟩ := Cursor.rest_of_ahead hahead
    refine ⟨c.advance, ?_, by simp [hahead]⟩
    rw [fieldsWith, skipSeparators_self hahead (by decide)]
    simp [hrest, Cursor.atPunct_eq, hahead]

theorem ParsesFields.separator (hk : k.isSeparator = true) (h : ParsesFields source ks fields) :
    ParsesFields source (k :: ks) fields := by
  rintro (_ | steps) c more hsteps hahead
  · cases hsteps
  · have hle : 3 * ks.length + 3 ≤ steps + 1 := by simp at hsteps; omega
    have hinner : c.advance.ahead = ks ++ .punct '\x7d' :: more := by simp [hahead]
    obtain ⟨c', hparse, hc'⟩ := h hle hinner
    refine ⟨c', ?_, hc'⟩
    rw [fieldsWith] at hparse ⊢
    rwa [skipSeparators_of_separator hahead hk]

/-- A field and those behind it. -/
theorem fieldsWith_cons {c'' : Cursor} {us : List TokenKind} {field : FieldDecl TypeExpr}
    (hahead : c.ahead = k :: us) (hk : opensType k = true)
    (hfield : fieldWith source steps c = .ok ([field], c')) {e : TokenKind} {vs : List TokenKind}
    (hahead' : c'.ahead = e :: vs) (he : endsField e = true)
    (hfields : fieldsWith source steps c' = .ok (fields, c'')) :
    fieldsWith source (steps + 1) c = .ok (field :: fields, c'') := by
  obtain ⟨t, rest, hrest, -⟩ := Cursor.rest_of_ahead hahead
  have hskip : c.skipSeparators = c := by
    refine skipSeparators_self hahead ?_
    rcases opensType_cases hk with ⟨_, rfl⟩ | rfl | rfl | rfl <;> rfl
  have hopen : c.atPunct '\x7d' = false := by
    rw [Cursor.atPunct_eq, hahead]
    rcases opensType_cases hk with ⟨_, rfl⟩ | rfl | rfl | rfl <;> simp
  have htag : skipTag c' = c' := by
    rw [skipTag, Cursor.peek_eq, hahead', if_neg]
    rintro ⟨⟩
    cases he
  have hend : checkFieldEnd c' = .ok () := by
    rw [checkFieldEnd, Cursor.peek_eq, hahead']
    rcases endsField_cases he with rfl | rfl | rfl <;> rfl
  rw [fieldsWith, hskip]
  simp only [hrest, List.isEmpty_cons, hopen, hfield, htag, hend, hfields, bind, Except.bind]
  rfl

/-- A field with a name of its own. -/
theorem fieldWith_named {name : String} {us : List TokenKind}
    (hahead : c.ahead = .ident name :: k :: us) (hk : opensType k = true)
    (hparse : parseWith source steps c.advance = .ok (t, c')) :
    fieldWith source (steps + 1) c = .ok ([⟨name, t, false⟩], c') := by
  have hstarts : startsEmbedded c = false := by
    rw [startsEmbedded, Cursor.peek_eq, Cursor.peek_eq, Cursor.ahead_advance, hahead]
    rcases opensType_cases hk with ⟨_, rfl⟩ | rfl | rfl | rfl <;> rfl
  have hmore : moreNames c.advance.rest.length c.advance = .ok ([], c.advance) := by
    have hcomma : c.advance.atPunct ',' = false := by
      rw [Cursor.atPunct_eq, Cursor.ahead_advance, hahead]
      rcases opensType_cases hk with ⟨_, rfl⟩ | rfl | rfl | rfl <;> simp
    rcases c.advance.rest.length with _ | n
    · rfl
    · rw [moreNames, if_neg (by simp [hcomma])]
  rw [fieldWith, if_neg (by simp [hstarts]), Cursor.expectName_of_ahead hahead]
  simp only [bind, Except.bind, hmore, hparse]
  rfl

theorem fieldWith_embedded {name : String} (hstarts : startsEmbedded c = true)
    (hparse : parseWith source steps c = .ok (t, c')) (hname : t.embeddedName? = some name) :
    fieldWith source (steps + 1) c = .ok ([⟨name, t, true⟩], c') := by
  rw [fieldWith, if_pos hstarts, hparse]
  simp only [bind, Except.bind, hname]
  rfl

theorem ends_of_endsField (hks : ∀ k ∈ ks.head?, endsField k = true) (more : List TokenKind) :
    ∃ e vs, ks ++ .punct '\x7d' :: more = e :: vs ∧ endsField e = true ∧
      Ends (ks ++ .punct '\x7d' :: more) := by
  have hends : ∀ {e : TokenKind} {vs : List TokenKind}, endsField e = true → Ends (e :: vs) := by
    rintro e vs he k ⟨⟩
    rcases endsField_cases he with rfl | rfl | rfl <;> simp
  rcases ks with _ | ⟨e, ks⟩
  · exact ⟨_, _, rfl, rfl, hends rfl⟩
  · exact ⟨e, _, rfl, hks e rfl, hends (hks e rfl)⟩

/-- A field with a name in front of others. -/
theorem ParsesFields.named {us : List TokenKind} (name : String) (ht : Parses source us t)
    (hus : ∃ k ∈ us.head?, opensType k = true) (h : ParsesFields source ks fields)
    (hks : ∀ k ∈ ks.head?, endsField k = true) :
    ParsesFields source (.ident name :: (us ++ ks)) (⟨name, t, false⟩ :: fields) := by
  intro steps c more hsteps hahead
  simp only [List.length_cons, List.length_append] at hsteps
  obtain ⟨steps, rfl⟩ : ∃ n, steps = n + 2 := ⟨steps - 2, by omega⟩
  obtain ⟨e, vs, hend, he, hends⟩ := ends_of_endsField hks more
  have htype : c.advance.ahead = us ++ (ks ++ .punct '\x7d' :: more) := by simp [hahead]
  have hle : 3 * us.length ≤ steps := by omega
  have hle' : 3 * ks.length + 3 ≤ steps + 1 := by omega
  obtain ⟨c', hparse, hc'⟩ := ht hle htype hends
  obtain ⟨c'', hfields, hc''⟩ := h hle' hc'
  obtain ⟨k, hk, hopens⟩ := hus
  obtain ⟨us', rfl⟩ := List.head?_eq_some_iff.1 hk
  refine ⟨c'', ?_, hc''⟩
  exact fieldsWith_cons hahead rfl (fieldWith_named hahead hopens hparse) (hc'.trans hend) he
    hfields

/-- An embedded field in front of others. -/
theorem ParsesFields.embedded {us : List TokenKind} {name : String} (ht : Parses source us t)
    (hname : t.embeddedName? = some name)
    (hus : us.head? = some (.punct '*') ∨ (∃ n, us = [.ident n]) ∨
      ∃ n vs, us = .ident n :: .punct '.' :: vs)
    (h : ParsesFields source ks fields) (hks : ∀ k ∈ ks.head?, endsField k = true) :
    ParsesFields source (us ++ ks) (⟨name, t, true⟩ :: fields) := by
  intro steps c more hsteps hahead
  rw [List.length_append] at hsteps
  have hpos : 0 < us.length := by
    rcases us with _ | ⟨k, us⟩
    · simp at hus
    · simp
  obtain ⟨steps, rfl⟩ : ∃ n, steps = n + 2 := ⟨steps - 2, by omega⟩
  obtain ⟨e, vs, hend, he, hends⟩ := ends_of_endsField hks more
  rw [List.append_assoc] at hahead
  have hle : 3 * us.length ≤ steps := by omega
  have hle' : 3 * ks.length + 3 ≤ steps + 1 := by omega
  obtain ⟨c', hparse, hc'⟩ := ht hle hahead hends
  obtain ⟨c'', hfields, hc''⟩ := h hle' hc'
  rw [hend] at hahead hc'
  have hstarts : startsEmbedded c = true ∧ ∃ k ws, c.ahead = k :: ws ∧ opensType k = true := by
    rw [startsEmbedded, Cursor.peek_eq, Cursor.peek_eq, Cursor.ahead_advance, hahead]
    rcases hus with hus | ⟨n, rfl⟩ | ⟨n, ws, rfl⟩
    · obtain ⟨ws, rfl⟩ := List.head?_eq_some_iff.1 hus
      exact ⟨rfl, _, _, rfl, rfl⟩
    · refine ⟨?_, _, _, rfl, rfl⟩
      rcases endsField_cases he with rfl | rfl | rfl <;> rfl
    · exact ⟨rfl, _, _, rfl, rfl⟩
  obtain ⟨hstarts, k, ws, hopen, hk⟩ := hstarts
  exact ⟨c'', fieldsWith_cons hopen hk (fieldWith_embedded hstarts hparse hname) hc' he hfields,
    hc''⟩

/-! ## The tokens of a type -/

/-- A type behind the word `chan`, if there is one. -/
def channel : Bool → TypeExpr → TypeExpr
  | true, t => .chan .both t
  | false, t => t

mutual

/-- The type that is read from the text of a type, with the word `chan` in front of it if `behind`.
Then an arrow at the start of the text belongs to that word. -/
def readBack (behind : Bool) : TypeExpr → TypeExpr
  | named name => channel behind (named name)
  | qualified package name => channel behind (qualified package name)
  | instantiated text => channel behind (instantiated text)
  | pointer elem => channel behind (pointer (elem.readBack false))
  | slice elem => channel behind (slice (elem.readBack false))
  | array length elem => channel behind (array length (elem.readBack false))
  | symbolicArray length elem => channel behind (symbolicArray length (elem.readBack false))
  | map key value => channel behind (map (key.readBack false) (value.readBack false))
  | chan .both elem => channel behind (elem.readBack true)
  | chan .send elem => channel behind (chan .send (elem.readBack false))
  | chan .recv elem =>
    if behind then chan .send (elem.readBack true) else chan .recv (elem.readBack false)
  | func text => channel behind (func text)
  | interface text => channel behind (interface text)
  | struct fields => channel behind (struct (readBackAll fields))

def readBackAll : List (FieldDecl TypeExpr) → List (FieldDecl TypeExpr)
  | [] => []
  | ⟨name, type, embedded⟩ :: fields =>
    ⟨name, type.readBack false, embedded⟩ :: readBackAll fields

end

theorem readBack_true (h : ∀ elem, t ≠ .chan .recv elem) :
    t.readBack true = .chan .both (t.readBack false) := by
  cases t with
  | chan dir elem =>
    cases dir with
    | recv => exact absurd rfl (h elem)
    | both => simp only [readBack, channel]
    | send => simp only [readBack, channel]
  | _ => simp only [readBack, channel]

theorem kinds_eq_cons (h : t.isPlain = true) :
    ∃ k ks, t.kinds = k :: ks ∧ opensType k = true ∧
      (k = .arrow → ∃ elem, t = .chan .recv elem) := by
  cases t with
  | chan dir elem => cases dir <;> simp [kinds, opensType]
  | instantiated _ => simp [isPlain] at h
  | func _ => simp [isPlain] at h
  | interface _ => simp [isPlain] at h
  | _ => simp [kinds, opensType]

/-- What is read from the tokens of a type, and from those behind the word `chan`. -/
theorem parses_behind (hp : t.isPlain = true) (ht : ∀ elem, t ≠ .chan .recv elem)
    (h : Parses source t.kinds (t.readBack false)) :
    Parses source t.kinds (t.readBack false) ∧
      Parses source (.ident "chan" :: t.kinds) (t.readBack true) := by
  obtain ⟨k, ks, hks, -, harrow⟩ := kinds_eq_cons hp
  refine ⟨h, ?_⟩
  rw [readBack_true ht]
  refine h.chan (by simp [hks]) ?_
  rw [hks]
  rintro ⟨⟩
  obtain ⟨elem, helem⟩ := harrow rfl
  exact ht elem helem

/-- A channel is never embedded. -/
theorem embeddedName?_readBack_true (t : TypeExpr) : (t.readBack true).embeddedName? = none := by
  by_cases h : ∃ elem, t = .chan .recv elem
  · obtain ⟨elem, rfl⟩ := h
    simp [readBack, embeddedName?]
  · rw [readBack_true fun elem helem => h ⟨elem, helem⟩]
    simp [embeddedName?]

theorem embeddedName?_readBack : ∀ t : TypeExpr,
    (t.readBack false).embeddedName? = t.embeddedName?
  | named _ => by simp [readBack, channel]
  | qualified _ _ => by simp [readBack, channel]
  | instantiated _ => by simp [readBack, channel]
  | pointer elem => by
    simp only [readBack, channel, embeddedName?]
    exact embeddedName?_readBack elem
  | slice _ => by simp [readBack, channel, embeddedName?]
  | array _ _ => by simp [readBack, channel, embeddedName?]
  | symbolicArray _ _ => by simp [readBack, channel, embeddedName?]
  | map _ _ => by simp [readBack, channel, embeddedName?]
  | chan .both elem => by
    rw [readBack, channel, embeddedName?_readBack_true]
    simp [embeddedName?]
  | chan .send _ => by simp [readBack, channel, embeddedName?]
  | chan .recv _ => by simp [readBack, embeddedName?]
  | func _ => by simp [readBack, channel]
  | interface _ => by simp [readBack, channel]
  | struct _ => by simp [readBack, channel, embeddedName?]

theorem kinds_of_embeddedName? {name : String} (hp : t.isPlain = true)
    (h : t.embeddedName? = some name) :
    t.kinds.head? = some (.punct '*') ∨ (∃ n, t.kinds = [.ident n]) ∨
      ∃ n vs, t.kinds = .ident n :: .punct '.' :: vs := by
  cases t with
  | named n => exact .inr (.inl ⟨n, by rw [kinds]⟩)
  | qualified p n => exact .inr (.inr ⟨p, _, by rw [kinds]⟩)
  | pointer elem => exact .inl (by rw [kinds]; rfl)
  | instantiated _ => simp [isPlain] at hp
  | _ => simp [embeddedName?] at h

mutual

theorem parses_kinds : ∀ {t : TypeExpr}, t.Written → t.isPlain = true →
    Parses source t.kinds (t.readBack false) ∧
      Parses source (.ident "chan" :: t.kinds) (t.readBack true)
  | named name, hw, hp => by
    rw [Written] at hw
    refine parses_behind hp (by simp) ?_
    rw [kinds, readBack]
    exact parses_named hw.2
  | qualified package name, hw, hp => by
    rw [Written] at hw
    refine parses_behind hp (by simp) ?_
    rw [kinds, readBack]
    exact parses_qualified hw.2.1
  | pointer elem, hw, hp => by
    refine parses_behind hp (by simp) ?_
    rw [Written] at hw
    rw [isPlain] at hp
    rw [kinds, readBack]
    exact (parses_kinds hw hp).1.pointer
  | slice elem, hw, hp => by
    refine parses_behind hp (by simp) ?_
    rw [Written] at hw
    rw [isPlain] at hp
    rw [kinds, readBack]
    exact (parses_kinds hw hp).1.slice
  | array length elem, hw, hp => by
    refine parses_behind hp (by simp) ?_
    rw [Written] at hw
    rw [isPlain] at hp
    rw [kinds, readBack]
    exact (parses_kinds hw.2 hp).1.array length
  | symbolicArray length elem, hw, hp => by
    refine parses_behind hp (by simp) ?_
    rw [Written] at hw
    rw [isPlain] at hp
    rw [kinds, readBack]
    exact (parses_kinds hw.2 hp).1.symbolicArray length
  | map key value, hw, hp => by
    refine parses_behind hp (by simp) ?_
    rw [Written] at hw
    rw [isPlain, Bool.and_eq_true] at hp
    rw [kinds, readBack]
    exact (parses_kinds hw.1 hp.1).1.map (parses_kinds hw.2 hp.2).1
  | chan .both elem, hw, hp => by
    refine parses_behind hp (by simp) ?_
    rw [Written] at hw
    rw [isPlain] at hp
    rw [kinds, readBack]
    exact (parses_kinds hw hp).2
  | chan .send elem, hw, hp => by
    refine parses_behind hp (by simp) ?_
    rw [Written] at hw
    rw [isPlain] at hp
    rw [kinds, readBack]
    exact (parses_kinds hw hp).1.send
  | chan .recv elem, hw, hp => by
    rw [Written] at hw
    rw [isPlain] at hp
    obtain ⟨halone, hbehind⟩ := parses_kinds hw hp
    rw [kinds, readBack, readBack]
    exact ⟨halone.recv, hbehind.send⟩
  | struct fields, hw, hp => by
    refine parses_behind hp (by simp) ?_
    rw [Written] at hw
    rw [isPlain] at hp
    rw [kinds, readBack]
    exact (parsesFields_kinds hw hp).struct
  | instantiated _, _, hp | func _, _, hp | interface _, _, hp => by
    rw [isPlain] at hp
    cases hp

theorem parsesFields_kinds : ∀ {fields : List (FieldDecl TypeExpr)}, WrittenAll fields →
    allPlain fields = true → ParsesFields source (fieldKinds fields) (readBackAll fields)
  | [], _, _ => by
    rw [fieldKinds, readBackAll]
    exact parsesFields_nil
  | ⟨name, type, embedded⟩ :: fields, hw, hp => by
    rw [WrittenAll] at hw
    rw [allPlain, Bool.and_eq_true] at hp
    obtain ⟨hname, htype, hrest⟩ := hw
    have hfirst := (parses_kinds htype hp.1).1
    have hmore : ParsesFields source
        ((if fields.isEmpty then [] else [.punct ';']) ++ fieldKinds fields)
        (readBackAll fields) := by
      cases fields with
      | nil => exact parsesFields_nil
      | cons field fields => exact (parsesFields_kinds hrest hp.2).separator rfl
    have hends : ∀ k ∈ ((if fields.isEmpty then [] else [TokenKind.punct ';']) ++
        fieldKinds fields).head?, endsField k = true := by
      cases fields with
      | nil => simp [fieldKinds]
      | cons field fields => rintro k ⟨⟩; rfl
    rw [fieldKinds, readBackAll]
    cases embedded with
    | true =>
      have hembedded : (type.readBack false).embeddedName? = some name :=
        (embeddedName?_readBack type).trans hname
      exact .embedded hfirst hembedded (kinds_of_embeddedName? hp.1 hname) hmore hends
    | false =>
      obtain ⟨k, ks, hks, hopens, -⟩ := kinds_eq_cons hp.1
      exact hmore.named name hfirst ⟨k, by simp [hks], hopens⟩ hends

end

end TypeExpr

end StructPadding.Go

import StructPadding.Extraction
import StructPadding.Proofs.Placed
import StructPadding.Proofs.Scanned

/-!
# What the parser returns

Declarations that are read from a source have types as they can be written (`TypeExpr.Written`):
names are spelled like names and are no words that start another type, lengths fit 64 bits, and an
embedded field has the name of its type. The parser only ever moves on, so everything it returns
comes from tokens of the source, and `tokens_proper` says what those hold. `TypeExpr.Step` says what
it does with one step, for each way to write a type.
-/

namespace StructPadding.Go

namespace Cursor

/-- The tokens ahead are as the scanner cuts them. -/
def Proper (c : Cursor) : Prop :=
  ∀ t ∈ c.rest, t.kind.Proper

theorem Proper.of_suffix {c c' : Cursor} (h : c.Proper) (hsuffix : c'.rest <:+ c.rest) :
    c'.Proper :=
  fun t ht => h t (hsuffix.subset ht)

theorem Proper.peek {c : Cursor} {kind : TokenKind} (h : c.Proper) (hpeek : c.peek = some kind) :
    kind.Proper := by
  obtain ⟨t, ht, rfl⟩ := Option.map_eq_some_iff.1 hpeek
  exact h t (List.mem_of_mem_head? ht)

theorem rest_of_peek {c : Cursor} {kind : TokenKind} (h : c.peek = some kind) :
    ∃ t rest, c.rest = t :: rest ∧ t.kind = kind := by
  obtain ⟨t, ht, hkind⟩ := Option.map_eq_some_iff.1 h
  obtain ⟨rest, hrest⟩ := List.head?_eq_some_iff.1 ht
  exact ⟨t, rest, hrest, hkind⟩

theorem advance_suffix (c : Cursor) : c.advance.rest <:+ c.rest := by
  unfold advance
  rcases hrest : c.rest with _ | ⟨t, rest⟩
  · simp only [hrest]
    exact List.suffix_rfl
  · exact List.suffix_cons t rest

theorem skipPunct_suffix (c : Cursor) (p : Char) : (c.skipPunct p).rest <:+ c.rest := by
  unfold skipPunct
  split_ifs
  · exact c.advance_suffix
  · exact List.suffix_rfl

theorem skipWhile_suffix (p : TokenKind → Bool) : ∀ (last : Option Token) (rest : List Token),
    (skipWhile p last rest).rest <:+ rest
  | last, [] => by simp [skipWhile]
  | last, t :: rest => by
    rw [skipWhile]
    split_ifs
    · exact (skipWhile_suffix p (some t) rest).trans (List.suffix_cons t rest)
    · exact List.suffix_rfl

theorem atPunct_iff {c : Cursor} {p : Char} :
    c.atPunct p = true ↔ c.peek = some (.punct p) := by
  simp [atPunct]

theorem expectPunct_eq_ok {c c' : Cursor} {p : Char} (h : c.expectPunct p = .ok c') :
    c.peek = some (.punct p) ∧ c' = c.advance := by
  unfold expectPunct at h
  split_ifs at h with hp
  · exact ⟨atPunct_iff.1 hp, (Except.ok.inj h).symm⟩
  · cases h

theorem expectName_eq_ok {c c' : Cursor} {name : String} (h : c.expectName = .ok (name, c')) :
    c.peek = some (.ident name) ∧ c' = c.advance := by
  unfold expectName at h
  split at h
  · next hpeek =>
    obtain ⟨rfl, rfl⟩ := Prod.mk.inj (Except.ok.inj h)
    exact ⟨hpeek, rfl⟩
  · cases h

/-- On the way to the second cursor some tokens are passed, the last of which is no line break. -/
def Past (c c' : Cursor) : Prop :=
  ∃ read last, c.rest = read ++ last :: c'.rest ∧ c'.last = some last ∧ last.kind ≠ .newline

theorem Past.suffix {c c' : Cursor} (h : c.Past c') : c'.rest <:+ c.rest := by
  obtain ⟨read, last, hrest, -⟩ := h
  exact ⟨read ++ [last], by simp [hrest]⟩

theorem Past.of_suffix {c d e : Cursor} (h : d.Past e) (hsuffix : d.rest <:+ c.rest) :
    c.Past e := by
  obtain ⟨read, last, hrest, hlast⟩ := h
  obtain ⟨before, hbefore⟩ := hsuffix
  exact ⟨before ++ read, last, by rw [← hbefore, hrest, List.append_assoc], hlast⟩

/-- What holds of what is read further on, holds of it from here. -/
theorem read_of_suffix {c d e : Cursor} {P Q : Prop} (h : d.Past e ∧ (d.Proper → P))
    (hsuffix : d.rest <:+ c.rest) (himp : P → Q) : c.Past e ∧ (c.Proper → Q) :=
  ⟨h.1.of_suffix hsuffix, fun hc => himp (h.2 (hc.of_suffix hsuffix))⟩

theorem Past.length_lt {c c' : Cursor} (h : c.Past c') : c'.rest.length < c.rest.length := by
  obtain ⟨read, last, hrest, -⟩ := h
  rw [hrest, List.length_append, List.length_cons]
  omega

theorem past_advance {c : Cursor} {kind : TokenKind} (h : c.peek = some kind)
    (hkind : kind ≠ .newline) : c.Past c.advance := by
  obtain ⟨t, ht, rfl⟩ := Option.map_eq_some_iff.1 h
  obtain ⟨rest, hrest⟩ := List.head?_eq_some_iff.1 ht
  exact ⟨[], t, by simp [advance, hrest], by simp [advance, hrest], hkind⟩

theorem length_advance_lt {c : Cursor} {kind : TokenKind} (h : c.peek = some kind) :
    c.advance.rest.length < c.rest.length := by
  obtain ⟨t, ht, -⟩ := Option.map_eq_some_iff.1 h
  obtain ⟨rest, hrest⟩ := List.head?_eq_some_iff.1 ht
  simp [advance, hrest]

theorem past_of_expectName {c c' : Cursor} {name : String} (h : c.expectName = .ok (name, c')) :
    c.Past c' := by
  obtain ⟨hpeek, rfl⟩ := expectName_eq_ok h
  exact past_advance hpeek nofun

theorem past_of_closeBrackets {opening closing : Char} {c : Cursor} :
    ∀ {depth : Nat} {last : Option Token} {rest : List Token}, 0 < depth →
      closeBrackets opening closing depth last rest = some c → Past ⟨last, rest⟩ c
  | depth + 1, last, [], _, h => by
    rw [closeBrackets] at h
    cases h
  | depth + 1, last, t :: rest, _, h => by
    have hnext : rest <:+ t :: rest := List.suffix_cons t rest
    rw [closeBrackets] at h
    split_ifs at h with hopening hclosing
    · exact (past_of_closeBrackets (Nat.succ_pos _) h).of_suffix hnext
    · cases depth with
      | zero =>
        rw [closeBrackets] at h
        obtain rfl := Option.some.inj h
        exact ⟨[], t, rfl, rfl, by simp [hclosing]⟩
      | succ depth => exact (past_of_closeBrackets (Nat.succ_pos _) h).of_suffix hnext
    · exact (past_of_closeBrackets (Nat.succ_pos _) h).of_suffix hnext

theorem past_of_skipBalanced {c c' : Cursor} {opening closing : Char}
    (h : c.skipBalanced opening closing = .ok c') : c.Past c' := by
  rw [skipBalanced, bind_eq_ok] at h
  obtain ⟨inside, hinside, h⟩ := h
  obtain ⟨-, rfl⟩ := expectPunct_eq_ok hinside
  split at h
  · next hclose =>
    obtain rfl := Except.ok.inj h
    exact (past_of_closeBrackets Nat.one_pos hclose).of_suffix c.advance_suffix
  · cases h

end Cursor

/-! ## One step of the parser -/

/-- The words that start a type of their own. -/
def reserved : List String :=
  ["struct", "interface", "map", "chan", "func"]

theorem notMem_reserved {name : String} (hstruct : name = "struct" → False)
    (hinterface : name = "interface" → False) (hmap : name = "map" → False)
    (hchan : name = "chan" → False) (hfunc : name = "func" → False) : name ∉ reserved := by
  simp only [reserved, List.mem_cons, List.not_mem_nil, or_false]
  tauto

namespace TypeExpr

/-- How a type is read with one step more than what is in it: one case for each way to write a type,
by the token it starts with. -/
inductive Step (source : List Char) (steps : Nat) (c : Cursor) : TypeExpr → Cursor → Prop
  | struct {inside after : Cursor} {fields : List (FieldDecl TypeExpr)}
    (hfirst : c.peek = some (.ident "struct"))
    (hopen : c.advance.expectPunct '\x7b' = .ok inside)
    (hfields : fieldsWith source steps inside = .ok (fields, after)) :
    Step source steps c (.struct fields) after
  | interface {t : Token} {after : Cursor} (ht : t ∈ c.rest.head?)
    (hfirst : t.kind = .ident "interface")
    (hbody : c.advance.skipBalanced '\x7b' '\x7d' = .ok after) :
    Step source steps c (.interface (sourceText source t.start after)) after
  | map {inside close outside after : Cursor} {key value : TypeExpr}
    (hfirst : c.peek = some (.ident "map")) (hopen : c.advance.expectPunct '[' = .ok inside)
    (hkey : parseWith source steps inside = .ok (key, close))
    (hclose : close.expectPunct ']' = .ok outside)
    (hvalue : parseWith source steps outside = .ok (value, after)) :
    Step source steps c (.map key value) after
  | send {after : Cursor} {elem : TypeExpr} (hfirst : c.peek = some (.ident "chan"))
    (harrow : c.advance.peek = some .arrow)
    (helem : parseWith source steps c.advance.advance = .ok (elem, after)) :
    Step source steps c (.chan .send elem) after
  | both {after : Cursor} {elem : TypeExpr} (hfirst : c.peek = some (.ident "chan"))
    (harrow : c.advance.peek ≠ some .arrow)
    (helem : parseWith source steps c.advance = .ok (elem, after)) :
    Step source steps c (.chan .both elem) after
  | func {t : Token} {params after : Cursor} (ht : t ∈ c.rest.head?)
    (hfirst : t.kind = .ident "func") (hparams : c.advance.skipBalanced '(' ')' = .ok params)
    (hresults : resultsWith source steps params = .ok after) :
    Step source steps c (.func (sourceText source t.start after)) after
  | qualified {after : Cursor} {name selected : String} (hfirst : c.peek = some (.ident name))
    (hname : name ∉ reserved) (hdot : c.advance.peek = some (.punct '.'))
    (hselected : c.advance.advance.expectName = .ok (selected, after)) :
    Step source steps c (.qualified name selected) after
  | instantiated {t : Token} {after : Cursor} {name : String} (ht : t ∈ c.rest.head?)
    (hfirst : t.kind = .ident name) (hname : name ∉ reserved)
    (hopen : c.advance.peek = some (.punct '['))
    (hargs : c.advance.skipBalanced '[' ']' = .ok after) :
    Step source steps c (.instantiated (sourceText source t.start after)) after
  | named {name : String} (hfirst : c.peek = some (.ident name)) (hname : name ∉ reserved)
    (hdot : c.advance.peek ≠ some (.punct '.')) (hopen : c.advance.peek ≠ some (.punct '[')) :
    Step source steps c (.named name) c.advance
  | pointer {after : Cursor} {elem : TypeExpr} (hfirst : c.peek = some (.punct '*'))
    (helem : parseWith source steps c.advance = .ok (elem, after)) :
    Step source steps c (.pointer elem) after
  | parens {inside after : Cursor} {inner : TypeExpr} (hfirst : c.peek = some (.punct '('))
    (hinner : parseWith source steps c.advance = .ok (inner, inside))
    (hclose : inside.expectPunct ')' = .ok after) : Step source steps c inner after
  | slice {after : Cursor} {elem : TypeExpr} (hfirst : c.peek = some (.punct '['))
    (hclose : c.advance.peek = some (.punct ']'))
    (helem : parseWith source steps c.advance.advance = .ok (elem, after)) :
    Step source steps c (.slice elem) after
  | array {inside after : Cursor} {length : Nat} {elem : TypeExpr}
    (hfirst : c.peek = some (.punct '['))
    (hlength : c.advance.peek = some (.number (some length)))
    (hclose : c.advance.advance.expectPunct ']' = .ok inside)
    (helem : parseWith source steps inside = .ok (elem, after)) :
    Step source steps c (.array length elem) after
  | symbolicArray {inside after : Cursor} {length : String} {elem : TypeExpr}
    (hfirst : c.peek = some (.punct '[')) (hlength : c.advance.peek = some (.ident length))
    (hclose : c.advance.advance.expectPunct ']' = .ok inside)
    (helem : parseWith source steps inside = .ok (elem, after)) :
    Step source steps c (.symbolicArray length elem) after
  | recv {inside after : Cursor} {elem : TypeExpr} (hfirst : c.peek = some .arrow)
    (hword : c.advance.expectName = .ok ("chan", inside))
    (helem : parseWith source steps inside = .ok (elem, after)) :
    Step source steps c (.chan .recv elem) after

section Step

variable {source : List Char} {steps : Nat} {c c' : Cursor} {t : TypeExpr}

theorem Step.of_ok (h : parseWith source (steps + 1) c = .ok (t, c')) :
    Step source steps c t c' := by
  rw [parseWith] at h
  rcases hrest : c.rest with _ | ⟨token, rest⟩ <;> simp only [hrest] at h
  · cases h
  have htoken : token ∈ c.rest.head? := by simp [hrest]
  have hpeek : c.peek = some token.kind := by simp [Cursor.peek, hrest]
  -- a case for each way to start a type, without those that end in a complaint
  repeat' split at h
  all_goals simp only [bind_eq_ok, Prod.exists, pure, Except.pure, Except.ok.injEq,
    Prod.mk.injEq, Cursor.fail, reduceCtorEq] at h
  · next hkind =>
    obtain ⟨inside, hopen, fields, after, hfields, rfl, rfl⟩ := h
    exact .struct (hkind ▸ hpeek) hopen hfields
  · next hkind =>
    obtain ⟨after, hbody, rfl, rfl⟩ := h
    exact .interface htoken hkind hbody
  · next hkind =>
    obtain ⟨inside, hopen, key, close, hkey, outside, hclose, value, after, hvalue, rfl, rfl⟩ := h
    exact .map (hkind ▸ hpeek) hopen hkey hclose hvalue
  · next hkind harrow =>
    obtain ⟨elem, after, helem, rfl, rfl⟩ := h
    exact .send (hkind ▸ hpeek) harrow helem
  · next hkind harrow =>
    obtain ⟨elem, after, helem, rfl, rfl⟩ := h
    exact .both (hkind ▸ hpeek) harrow helem
  · next hkind =>
    obtain ⟨params, hparams, after, hresults, rfl, rfl⟩ := h
    exact .func htoken hkind hparams hresults
  · next hstruct hinterface hmap hchan hfunc hkind hdot =>
    obtain ⟨selected, after, hselected, rfl, rfl⟩ := h
    exact .qualified (hkind ▸ hpeek) (notMem_reserved hstruct hinterface hmap hchan hfunc)
      (Cursor.atPunct_iff.1 hdot) hselected
  · next hstruct hinterface hmap hchan hfunc hkind _ hopen =>
    obtain ⟨after, hargs, rfl, rfl⟩ := h
    exact .instantiated htoken hkind (notMem_reserved hstruct hinterface hmap hchan hfunc)
      (Cursor.atPunct_iff.1 hopen) hargs
  · next hstruct hinterface hmap hchan hfunc hkind hdot hopen =>
    obtain ⟨rfl, rfl⟩ := h
    exact .named (hkind ▸ hpeek) (notMem_reserved hstruct hinterface hmap hchan hfunc)
      (mt Cursor.atPunct_iff.2 hdot) (mt Cursor.atPunct_iff.2 hopen)
  · next hkind =>
    obtain ⟨elem, after, helem, rfl, rfl⟩ := h
    exact .pointer (hkind ▸ hpeek) helem
  · next hkind =>
    obtain ⟨inner, inside, hinner, after, hclose, rfl, rfl⟩ := h
    exact .parens (hkind ▸ hpeek) hinner hclose
  · next hkind hclose =>
    obtain ⟨elem, after, helem, rfl, rfl⟩ := h
    exact .slice (hkind ▸ hpeek) (Cursor.atPunct_iff.1 hclose) helem
  · next hkind _ _ length hlength =>
    obtain ⟨inside, hinside, elem, after, helem, rfl, rfl⟩ := h
    exact .array (hkind ▸ hpeek) hlength hinside helem
  · next hkind _ _ length hlength =>
    obtain ⟨inside, hinside, elem, after, helem, rfl, rfl⟩ := h
    exact .symbolicArray (hkind ▸ hpeek) hlength hinside helem
  · next hkind =>
    obtain ⟨word, inside, hword, h⟩ := h
    split_ifs at h with hchan
    · obtain ⟨⟨elem, after⟩, helem, h⟩ := bind_eq_ok.1 h
      obtain ⟨rfl, rfl⟩ := Prod.mk.inj (Except.ok.inj h)
      exact .recv (hkind ▸ hpeek) (hchan ▸ hword) helem

/-- A name that starts no type of its own is read as one. -/
theorem parseWith_of_name {token : Token} {rest : List Token} {name : String}
    (hrest : c.rest = token :: rest) (hkind : token.kind = .ident name) (hname : name ∉ reserved) :
    parseWith source (steps + 1) c =
      if c.advance.atPunct '.' then do
        let (selected, after) ← c.advance.advance.expectName
        return (.qualified name selected, after)
      else if c.advance.atPunct '[' then do
        let after ← c.advance.skipBalanced '[' ']'
        return (.instantiated (sourceText source token.start after), after)
      else .ok (.named name, c.advance) := by
  simp only [reserved, List.mem_cons, List.not_mem_nil, or_false, not_or] at hname
  rw [parseWith]
  simp only [hrest, hkind]
  split <;> simp_all

theorem Step.ok (h : Step source steps c t c') : parseWith source (steps + 1) c = .ok (t, c') := by
  cases h with
  | struct hfirst hopen hfields =>
    obtain ⟨token, rest, hrest, hkind⟩ := Cursor.rest_of_peek hfirst
    simp only [parseWith, hrest, hkind, hopen, hfields, bind, Except.bind]
    rfl
  | interface ht hfirst hbody =>
    obtain ⟨rest, hrest⟩ := List.head?_eq_some_iff.1 ht
    simp only [parseWith, hrest, hfirst, hbody, bind, Except.bind]
    rfl
  | map hfirst hopen hkey hclose hvalue =>
    obtain ⟨token, rest, hrest, hkind⟩ := Cursor.rest_of_peek hfirst
    simp only [parseWith, hrest, hkind, hopen, hkey, hclose, hvalue, bind, Except.bind]
    rfl
  | send hfirst harrow helem =>
    obtain ⟨token, rest, hrest, hkind⟩ := Cursor.rest_of_peek hfirst
    simp only [parseWith, hrest, hkind, if_pos harrow, helem, bind, Except.bind]
    rfl
  | both hfirst harrow helem =>
    obtain ⟨token, rest, hrest, hkind⟩ := Cursor.rest_of_peek hfirst
    simp only [parseWith, hrest, hkind, if_neg harrow, helem, bind, Except.bind]
    rfl
  | func ht hfirst hparams hresults =>
    obtain ⟨rest, hrest⟩ := List.head?_eq_some_iff.1 ht
    simp only [parseWith, hrest, hfirst, hparams, hresults, bind, Except.bind]
    rfl
  | qualified hfirst hname hdot hselected =>
    obtain ⟨token, rest, hrest, hkind⟩ := Cursor.rest_of_peek hfirst
    rw [parseWith_of_name hrest hkind hname, if_pos (Cursor.atPunct_iff.2 hdot), hselected]
    rfl
  | instantiated ht hfirst hname hopen hargs =>
    obtain ⟨rest, hrest⟩ := List.head?_eq_some_iff.1 ht
    rw [parseWith_of_name hrest hfirst hname, if_neg (by simp [Cursor.atPunct_iff, hopen]),
      if_pos (Cursor.atPunct_iff.2 hopen), hargs]
    rfl
  | named hfirst hname hdot hopen =>
    obtain ⟨token, rest, hrest, hkind⟩ := Cursor.rest_of_peek hfirst
    rw [parseWith_of_name hrest hkind hname, if_neg (mt Cursor.atPunct_iff.1 hdot),
      if_neg (mt Cursor.atPunct_iff.1 hopen)]
  | pointer hfirst helem =>
    obtain ⟨token, rest, hrest, hkind⟩ := Cursor.rest_of_peek hfirst
    simp only [parseWith, hrest, hkind, helem, bind, Except.bind]
    rfl
  | parens hfirst hinner hclose =>
    obtain ⟨token, rest, hrest, hkind⟩ := Cursor.rest_of_peek hfirst
    simp only [parseWith, hrest, hkind, hinner, hclose, bind, Except.bind]
    rfl
  | slice hfirst hclose helem =>
    obtain ⟨token, rest, hrest, hkind⟩ := Cursor.rest_of_peek hfirst
    simp only [parseWith, hrest, hkind, if_pos (Cursor.atPunct_iff.2 hclose), helem, bind,
      Except.bind]
    rfl
  | array hfirst hlength hclose helem =>
    obtain ⟨token, rest, hrest, hkind⟩ := Cursor.rest_of_peek hfirst
    have hopen : ¬c.advance.atPunct ']' = true := by simp [Cursor.atPunct_iff, hlength]
    simp only [parseWith, hrest, hkind, if_neg hopen, hlength, hclose, helem, bind, Except.bind]
    rfl
  | symbolicArray hfirst hlength hclose helem =>
    obtain ⟨token, rest, hrest, hkind⟩ := Cursor.rest_of_peek hfirst
    have hopen : ¬c.advance.atPunct ']' = true := by simp [Cursor.atPunct_iff, hlength]
    simp only [parseWith, hrest, hkind, if_neg hopen, hlength, hclose, helem, bind, Except.bind]
    rfl
  | recv hfirst hword helem =>
    obtain ⟨token, rest, hrest, hkind⟩ := Cursor.rest_of_peek hfirst
    simp only [parseWith, hrest, hkind, hword, if_pos, helem, bind, Except.bind]
    rfl

end Step

end TypeExpr

/-! ## Types as they can be written -/

namespace TypeExpr

mutual

/-- A type whose names and lengths can be written down. -/
def Written : TypeExpr → Prop
  | named name => isName name = true ∧ name ∉ reserved
  | qualified package name => isName package = true ∧ package ∉ reserved ∧ isName name = true
  | instantiated _ => True
  | pointer elem => elem.Written
  | slice elem => elem.Written
  | array length elem => length < UInt64.size ∧ elem.Written
  | symbolicArray length elem => isName length = true ∧ elem.Written
  | map key value => key.Written ∧ value.Written
  | chan _ elem => elem.Written
  | func _ => True
  | interface _ => True
  | struct fields => WrittenAll fields

/-- Fields with such types; an embedded one has the name of its type. -/
def WrittenAll : List (FieldDecl TypeExpr) → Prop
  | [] => True
  | ⟨name, type, embedded⟩ :: fields =>
    (if embedded then type.embeddedName? = some name else isName name = true) ∧ type.Written ∧
      WrittenAll fields

end

theorem writtenAll_append : ∀ {fs gs : List (FieldDecl TypeExpr)}, WrittenAll fs →
    WrittenAll gs → WrittenAll (fs ++ gs)
  | [], gs, _, hgs => hgs
  | ⟨_, _, _⟩ :: fs, gs, hfs, hgs => by
    rw [WrittenAll] at hfs
    rw [List.cons_append, WrittenAll]
    exact ⟨hfs.1, hfs.2.1, writtenAll_append hfs.2.2 hgs⟩

theorem writtenAll_map {type : TypeExpr} (htype : type.Written) : ∀ {names : List String},
    (∀ name ∈ names, isName name = true) → WrittenAll (names.map fun name => ⟨name, type, false⟩)
  | [], _ => trivial
  | name :: names, h => by
    rw [List.map_cons, WrittenAll, if_neg (by decide)]
    exact ⟨h name List.mem_cons_self, htype,
      writtenAll_map htype fun other hother => h other (List.mem_cons_of_mem name hother)⟩

theorem moreNames_eq_ok : ∀ {steps : Nat} {c c' : Cursor} {names : List String},
    moreNames steps c = .ok (names, c') →
      c'.rest <:+ c.rest ∧ (c.Proper → ∀ name ∈ names, isName name = true)
  | 0, c, c', names, h => by
    obtain ⟨rfl, rfl⟩ := Prod.mk.inj (Except.ok.inj h)
    exact ⟨List.suffix_rfl, by simp⟩
  | steps + 1, c, c', names, h => by
    rw [moreNames] at h
    split_ifs at h
    · rw [bind_eq_ok] at h
      obtain ⟨⟨name, after⟩, hname, h⟩ := h
      obtain ⟨⟨rest, last⟩, hrest, h⟩ := bind_eq_ok.1 h
      obtain ⟨rfl, rfl⟩ := Prod.mk.inj (Except.ok.inj h)
      obtain ⟨hpeek, rfl⟩ := Cursor.expectName_eq_ok hname
      have hskip : c.advance.skipNewlines.rest <:+ c.rest :=
        (Cursor.skipWhile_suffix _ _ _).trans c.advance_suffix
      have hafter := (Cursor.advance_suffix _).trans hskip
      obtain ⟨hsuffix, hnames⟩ := moreNames_eq_ok hrest
      refine ⟨hsuffix.trans hafter, fun hc other hother => ?_⟩
      rcases List.mem_cons.1 hother with rfl | hother
      · exact (hc.of_suffix hskip).peek hpeek
      · exact hnames (hc.of_suffix hafter) other hother
    · obtain ⟨rfl, rfl⟩ := Prod.mk.inj (Except.ok.inj h)
      exact ⟨List.suffix_rfl, by simp⟩

theorem skipTag_suffix (c : Cursor) : (skipTag c).rest <:+ c.rest := by
  unfold skipTag
  split_ifs
  · exact c.advance_suffix
  · exact List.suffix_rfl

/-- With so many steps the parser moves on, and returns types as they can be written if the tokens
are as the scanner cuts them. -/
structure Reliable (source : List Char) (steps : Nat) : Prop where
  read : ∀ {c c' : Cursor} {t : TypeExpr}, parseWith source steps c = .ok (t, c') →
    c.Past c' ∧ (c.Proper → t.Written)
  results : ∀ {c c' : Cursor}, resultsWith source steps c = .ok c' → c' = c ∨ c.Past c'
  fields : ∀ {c c' : Cursor} {fs : List (FieldDecl TypeExpr)},
    fieldsWith source steps c = .ok (fs, c') → c.Past c' ∧ (c.Proper → WrittenAll fs)
  field : ∀ {c c' : Cursor} {fs : List (FieldDecl TypeExpr)},
    fieldWith source steps c = .ok (fs, c') → c.Past c' ∧ (c.Proper → WrittenAll fs)

namespace Reliable

variable {source : List Char} {steps : Nat}

theorem results_succ (ih : Reliable source steps) {c c' : Cursor}
    (h : resultsWith source (steps + 1) c = .ok c') : c' = c ∨ c.Past c' := by
  have hread : (parseWith source steps c >>= fun x => .ok x.2) = .ok c' →
      c' = c ∨ c.Past c' := by
    intro h
    obtain ⟨⟨t, after⟩, ht, h⟩ := bind_eq_ok.1 h
    obtain rfl := Except.ok.inj h
    exact .inr (ih.read ht).1
  rw [resultsWith] at h
  split at h
  · exact .inr (Cursor.past_of_skipBalanced h)
  · exact hread h
  · exact hread h
  · exact hread h
  · exact hread h
  · obtain rfl := Except.ok.inj h
    exact .inl rfl

theorem field_succ (ih : Reliable source steps) {c c' : Cursor} {fs : List (FieldDecl TypeExpr)}
    (h : fieldWith source (steps + 1) c = .ok (fs, c')) :
    c.Past c' ∧ (c.Proper → WrittenAll fs) := by
  rw [fieldWith] at h
  split_ifs at h
  · obtain ⟨⟨type, after⟩, htype, h⟩ := bind_eq_ok.1 h
    obtain ⟨hpast, hwritten⟩ := ih.read htype
    dsimp only at h
    split at h
    · next name hname =>
      obtain ⟨rfl, rfl⟩ := Prod.mk.inj (Except.ok.inj h)
      exact ⟨hpast, fun hc => by simpa [WrittenAll] using ⟨hname, hwritten hc⟩⟩
    · cases h
  · obtain ⟨⟨name, after⟩, hname, h⟩ := bind_eq_ok.1 h
    obtain ⟨⟨names, last⟩, hnames, h⟩ := bind_eq_ok.1 h
    obtain ⟨⟨type, stop⟩, htype, h⟩ := bind_eq_ok.1 h
    obtain ⟨rfl, rfl⟩ := Prod.mk.inj (Except.ok.inj h)
    obtain ⟨hpeek, rfl⟩ := Cursor.expectName_eq_ok hname
    obtain ⟨hmore, hall⟩ := moreNames_eq_ok hnames
    have hlast := hmore.trans c.advance_suffix
    obtain ⟨hpast, hwritten⟩ := ih.read htype
    refine ⟨hpast.of_suffix hlast, fun hc => ?_⟩
    refine writtenAll_map (hwritten (hc.of_suffix hlast)) fun other hother => ?_
    rcases List.mem_cons.1 hother with rfl | hother
    · exact hc.peek hpeek
    · exact hall (hc.of_suffix c.advance_suffix) other hother

theorem fields_succ (ih : Reliable source steps) {c c' : Cursor} {fs : List (FieldDecl TypeExpr)}
    (h : fieldsWith source (steps + 1) c = .ok (fs, c')) :
    c.Past c' ∧ (c.Proper → WrittenAll fs) := by
  rw [fieldsWith] at h
  have hskip : c.skipSeparators.rest <:+ c.rest := Cursor.skipWhile_suffix _ _ _
  simp only [] at h
  split_ifs at h with _ hclose
  · cases h
  · obtain ⟨rfl, rfl⟩ := Prod.mk.inj (Except.ok.inj h)
    have hpast := Cursor.past_advance (Cursor.atPunct_iff.1 hclose) nofun
    exact ⟨hpast.of_suffix hskip, fun _ => trivial⟩
  · obtain ⟨⟨field, after⟩, hfield, h⟩ := bind_eq_ok.1 h
    obtain ⟨_, _, h⟩ := bind_eq_ok.1 h
    obtain ⟨⟨rest, stop⟩, hrest, h⟩ := bind_eq_ok.1 h
    obtain ⟨rfl, rfl⟩ := Prod.mk.inj (Except.ok.inj h)
    obtain ⟨hafter, hwritten⟩ := ih.field hfield
    have htag := (skipTag_suffix after).trans (hafter.suffix.trans hskip)
    obtain ⟨hpast, hmore⟩ := ih.fields hrest
    exact ⟨hpast.of_suffix htag, fun hc =>
      writtenAll_append (hwritten (hc.of_suffix hskip)) (hmore (hc.of_suffix htag))⟩

theorem type_succ (ih : Reliable source steps) {c c' : Cursor} {t : TypeExpr}
    (h : parseWith source (steps + 1) c = .ok (t, c')) :
    c.Past c' ∧ (c.Proper → t.Written) := by
  have hnext := c.advance_suffix
  have hinner := (Cursor.advance_suffix c.advance).trans hnext
  cases Step.of_ok h with
  | struct _ hopen hfields =>
    obtain ⟨-, rfl⟩ := Cursor.expectPunct_eq_ok hopen
    exact Cursor.read_of_suffix (ih.fields hfields) hinner fun h => by rwa [Written]
  | interface _ _ hbody =>
    exact ⟨(Cursor.past_of_skipBalanced hbody).of_suffix hnext, fun _ => by rw [Written]; trivial⟩
  | map _ hopen hkey hclose hvalue =>
    obtain ⟨-, rfl⟩ := Cursor.expectPunct_eq_ok hopen
    obtain ⟨-, rfl⟩ := Cursor.expectPunct_eq_ok hclose
    obtain ⟨hpast, hkey⟩ := ih.read hkey
    have houter := (Cursor.advance_suffix _).trans (hpast.suffix.trans hinner)
    obtain ⟨hpast, hvalue⟩ := ih.read hvalue
    refine ⟨hpast.of_suffix houter, fun hc => ?_⟩
    rw [Written]
    exact ⟨hkey (hc.of_suffix hinner), hvalue (hc.of_suffix houter)⟩
  | send _ _ helem => exact Cursor.read_of_suffix (ih.read helem) hinner fun h => by rwa [Written]
  | both _ _ helem => exact Cursor.read_of_suffix (ih.read helem) hnext fun h => by rwa [Written]
  | func _ _ hparams hresults =>
    have hopen := (Cursor.past_of_skipBalanced hparams).of_suffix hnext
    refine ⟨?_, fun _ => by rw [Written]; trivial⟩
    rcases ih.results hresults with rfl | hpast
    · exact hopen
    · exact hpast.of_suffix hopen.suffix
  | qualified hfirst hname _ hselected =>
    obtain ⟨hpeek, -⟩ := Cursor.expectName_eq_ok hselected
    refine ⟨(Cursor.past_of_expectName hselected).of_suffix hinner, fun hc => ?_⟩
    rw [Written]
    exact ⟨hc.peek hfirst, hname, (hc.of_suffix hinner).peek hpeek⟩
  | instantiated _ _ _ _ hargs =>
    exact ⟨(Cursor.past_of_skipBalanced hargs).of_suffix hnext, fun _ => by rw [Written]; trivial⟩
  | named hfirst hname =>
    refine ⟨Cursor.past_advance hfirst nofun, fun hc => ?_⟩
    rw [Written]
    exact ⟨hc.peek hfirst, hname⟩
  | pointer _ helem => exact Cursor.read_of_suffix (ih.read helem) hnext fun h => by rwa [Written]
  | parens _ hinner hclose =>
    obtain ⟨hpeek, rfl⟩ := Cursor.expectPunct_eq_ok hclose
    obtain ⟨hpast, hwritten⟩ := ih.read hinner
    exact ⟨(Cursor.past_advance hpeek nofun).of_suffix (hpast.suffix.trans hnext),
      fun hc => hwritten (hc.of_suffix hnext)⟩
  | slice _ _ helem => exact Cursor.read_of_suffix (ih.read helem) hinner fun h => by rwa [Written]
  | array _ hlength hclose helem | symbolicArray _ hlength hclose helem =>
    obtain ⟨-, rfl⟩ := Cursor.expectPunct_eq_ok hclose
    have houter := (Cursor.advance_suffix _).trans hinner
    obtain ⟨hpast, hwritten⟩ := ih.read helem
    refine ⟨hpast.of_suffix houter, fun hc => ?_⟩
    rw [Written]
    exact ⟨(hc.of_suffix hnext).peek hlength, hwritten (hc.of_suffix houter)⟩
  | recv _ hword helem =>
    obtain ⟨-, rfl⟩ := Cursor.expectName_eq_ok hword
    exact Cursor.read_of_suffix (ih.read helem) hinner fun h => by rwa [Written]

theorem type (h : Reliable source steps) {c c' : Cursor} {t : TypeExpr} (hc : c.Proper)
    (ht : parseWith source steps c = .ok (t, c')) : t.Written ∧ c.Past c' :=
  ⟨(h.read ht).2 hc, (h.read ht).1⟩

end Reliable

theorem reliable (source : List Char) (steps : Nat) : Reliable source steps := by
  induction steps with
  | zero =>
    refine ⟨fun h => ?_, fun h => ?_, fun h => ?_, fun h => ?_⟩
    · rw [parseWith] at h
      cases h
    · rw [resultsWith] at h
      cases h
    · rw [fieldsWith] at h
      cases h
    · rw [fieldWith] at h
      cases h
  | succ steps ih => exact ⟨ih.type_succ, ih.results_succ, ih.fields_succ, ih.field_succ⟩

end TypeExpr

/-! ## Declarations -/

namespace TypeDecl

/-- A declaration whose name and type can be written down. -/
structure Written (d : TypeDecl) : Prop where
  name : isName d.name = true
  type : d.type.Written

/-- What is read of a declaration: its name, and its type behind the parameters and the equals sign
that may stand before it. -/
theorem parse_eq_ok {source : List Char} {c c' : Cursor} {d : TypeDecl}
    (h : parse source c = .ok (d, c')) :
    c.peek = some (.ident d.name) ∧ d.lines = ⟨c.line, c'.lastLine⟩ ∧
      ∃ start : Cursor, start.rest <:+ c.advance.rest ∧
        TypeExpr.parse source start = .ok (d.type, c') := by
  obtain ⟨⟨name, after⟩, hname, h⟩ := bind_eq_ok.1 h
  obtain ⟨hpeek, rfl⟩ := Cursor.expectName_eq_ok hname
  have htail : ∀ {params : Cursor} {generic : Bool}, params.rest <:+ c.advance.rest →
      (TypeExpr.parse source (params.skipPunct '=') >>= fun x =>
        .ok ((⟨name, x.1, generic, ⟨c.line, x.2.lastLine⟩⟩ : TypeDecl), x.2)) = .ok (d, c') →
      c.peek = some (.ident d.name) ∧ d.lines = ⟨c.line, c'.lastLine⟩ ∧
        ∃ start : Cursor, start.rest <:+ c.advance.rest ∧
          TypeExpr.parse source start = .ok (d.type, c') := by
    intro params generic hparams h
    obtain ⟨⟨type, stop⟩, htype, h⟩ := bind_eq_ok.1 h
    obtain ⟨rfl, rfl⟩ := Prod.mk.inj (Except.ok.inj h)
    exact ⟨hpeek, rfl, _, (params.skipPunct_suffix '=').trans hparams, htype⟩
  dsimp only at h
  split_ifs at h
  · obtain ⟨params, hparams, h⟩ := bind_eq_ok.1 h
    exact htail (Cursor.past_of_skipBalanced hparams).suffix h
  · exact htail List.suffix_rfl h

theorem past_of_parse {source : List Char} {c c' : Cursor} {d : TypeDecl}
    (h : parse source c = .ok (d, c')) : c.Past c' := by
  obtain ⟨-, -, start, hstart, htype⟩ := parse_eq_ok h
  exact ((TypeExpr.reliable source _).read htype).1.of_suffix (hstart.trans c.advance_suffix)

theorem written_of_parse {source : List Char} {c c' : Cursor} {d : TypeDecl} (hc : c.Proper)
    (h : parse source c = .ok (d, c')) : d.Written := by
  obtain ⟨hpeek, -, start, hstart, htype⟩ := parse_eq_ok h
  have hsuffix := hstart.trans c.advance_suffix
  exact ⟨hc.peek hpeek, ((TypeExpr.reliable source _).type (hc.of_suffix hsuffix) htype).1⟩

/-- Declarations are read one after another, each behind the end of the one before it. -/
inductive InOrder (source : List Char) : Cursor → List TypeDecl → Cursor → Prop
  | nil {c c' : Cursor} (h : c'.rest <:+ c.rest) : InOrder source c [] c'
  | cons {c start stop c' : Cursor} {d : TypeDecl} {ds : List TypeDecl}
    (hstart : start.rest <:+ c.rest) (hd : parse source start = .ok (d, stop))
    (tail : InOrder source stop ds c') : InOrder source c (d :: ds) c'

section InOrder

variable {source : List Char} {c c' : Cursor} {ds : List TypeDecl}

theorem InOrder.of_suffix {d : Cursor} (h : InOrder source d ds c')
    (hsuffix : d.rest <:+ c.rest) : InOrder source c ds c' := by
  cases h with
  | nil h => exact .nil (h.trans hsuffix)
  | cons hstart hd tail => exact .cons (hstart.trans hsuffix) hd tail

theorem InOrder.suffix (h : InOrder source c ds c') : c'.rest <:+ c.rest := by
  induction h with
  | nil h => exact h
  | cons hstart hd _ ih => exact ih.trans ((past_of_parse hd).suffix.trans hstart)

theorem InOrder.append {d : Cursor} {es : List TypeDecl} (h : InOrder source c ds d)
    (h' : InOrder source d es c') : InOrder source c (ds ++ es) c' := by
  induction h with
  | nil h => exact h'.of_suffix h
  | cons hstart hd _ ih => exact .cons hstart hd (ih h')

theorem InOrder.written (h : InOrder source c ds c') (hc : c.Proper) : ∀ d ∈ ds, d.Written := by
  induction h with
  | nil => simp
  | cons hstart hd _ ih =>
    have hproper := hc.of_suffix hstart
    intro e he
    rcases List.mem_cons.1 he with rfl | he
    · exact written_of_parse hproper hd
    · exact ih (hproper.of_suffix (past_of_parse hd).suffix) e he

theorem inOrder_of_parseGroup {steps : Nat} (h : parseGroup source steps c = .ok (ds, c')) :
    InOrder source c ds c' := by
  induction steps generalizing c ds with
  | zero =>
    rw [parseGroup] at h
    cases h
  | succ steps ih =>
    have hskip : c.skipSeparators.rest <:+ c.rest := Cursor.skipWhile_suffix _ _ _
    rw [parseGroup] at h
    simp only [] at h
    split_ifs at h
    · cases h
    · obtain ⟨rfl, rfl⟩ := Prod.mk.inj (Except.ok.inj h)
      exact .nil ((Cursor.advance_suffix _).trans hskip)
    · obtain ⟨⟨d, after⟩, hd, h⟩ := bind_eq_ok.1 h
      obtain ⟨⟨more, stop⟩, hmore, h⟩ := bind_eq_ok.1 h
      obtain ⟨rfl, rfl⟩ := Prod.mk.inj (Except.ok.inj h)
      exact .cons hskip hd (ih hmore)

theorem inOrder_of_parseDecls (h : parseDecls source c = .ok (ds, c')) :
    InOrder source c ds c' := by
  unfold parseDecls at h
  split_ifs at h
  · exact (inOrder_of_parseGroup h).of_suffix c.advance_suffix
  · obtain ⟨⟨d, after⟩, hd, h⟩ := bind_eq_ok.1 h
    obtain ⟨rfl, rfl⟩ := Prod.mk.inj (Except.ok.inj h)
    exact .cons List.suffix_rfl hd (.nil List.suffix_rfl)

theorem inOrder_of_parseFrom {steps depth : Nat} (h : parseFrom source steps depth c = .ok ds) :
    ∃ stop, InOrder source c ds stop := by
  induction steps generalizing depth c ds with
  | zero =>
    obtain rfl := Except.ok.inj h
    exact ⟨c, .nil List.suffix_rfl⟩
  | succ steps ih =>
    rw [parseFrom] at h
    split at h
    · obtain rfl := Except.ok.inj h
      exact ⟨c, .nil List.suffix_rfl⟩
    · split_ifs at h
      · obtain ⟨⟨first, after⟩, hfirst, h⟩ := bind_eq_ok.1 h
        obtain ⟨more, hmore, h⟩ := bind_eq_ok.1 h
        obtain rfl := Except.ok.inj h
        obtain ⟨stop, hrest⟩ := ih hmore
        exact ⟨stop, ((inOrder_of_parseDecls hfirst).append hrest).of_suffix c.advance_suffix⟩
      · obtain ⟨stop, hrest⟩ := ih h
        exact ⟨stop, hrest.of_suffix c.advance_suffix⟩

end InOrder

end TypeDecl

theorem exists_tokens {source : List Char} {decls : List TypeDecl}
    (h : declarations source = .ok decls) :
    ∃ ts, tokens source = .ok ts ∧ TypeDecl.parseAll source ts = .ok decls := by
  unfold declarations at h
  rcases htokens : tokens source with e | ts <;> simp only [htokens] at h
  · cases h
  rcases hparse : TypeDecl.parseAll source ts with e | ds <;> simp only [hparse] at h
  · cases h
  · obtain rfl := Except.ok.inj h
    exact ⟨ts, rfl, hparse⟩

/-- The declarations of a source have names and types as they can be written. -/
theorem declarations_written {source : List Char} {decls : List TypeDecl}
    (h : declarations source = .ok decls) : ∀ d ∈ decls, d.Written := by
  obtain ⟨ts, htokens, hparse⟩ := exists_tokens h
  obtain ⟨stop, horder⟩ := TypeDecl.inOrder_of_parseFrom hparse
  exact horder.written (tokens_proper htokens)

end StructPadding.Go

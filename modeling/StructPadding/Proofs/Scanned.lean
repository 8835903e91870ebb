import Mathlib.Data.List.TakeWhile
import Mathlib.Tactic.Common
import StructPadding.Go.Token

/-!
# What the scanner cuts

Every name that is cut from a source is spelled like one, and every number that has a value fits 64
bits (`tokens_proper`), since every piece is cut off in one of a few ways (`FirstPiece`). The other
way round, texts are put together piece by piece: `Reads` says which kinds of tokens a text is cut
into, wherever it stands, and there is a lemma for each piece that may be put in front of a text. A
name needs a text behind it that does not go on with the name.
-/

namespace StructPadding.Go

/-! ## Names -/

/-- Whether a text is spelled like a name. -/
def isName (name : String) : Bool :=
  match name.toList with
  | [] => false
  | c :: cs => startsName c && cs.all continuesName

/-- What holds of the ten digits. -/
theorem of_isDigit {P : Char → Prop} (h : ∀ n : Fin 10, P (Char.ofNat (48 + n))) {c : Char}
    (hc : c.isDigit = true) : P c := by
  have hrange : 48 ≤ c.toNat ∧ c.toNat ≤ 57 := by
    simpa [Char.isDigit, UInt32.le_iff_toNat_le] using hc
  have hdigit := h ⟨c.toNat - 48, by omega⟩
  simpa [Nat.add_sub_cancel' hrange.1, Char.ofNat_toNat] using hdigit

theorem startsName_of_isDigit {c : Char} (h : c.isDigit = true) : startsName c = false :=
  of_isDigit (P := fun c => startsName c = false) (by decide +kernel) h

theorem continuesName_of_startsName {c : Char} (h : startsName c = true) :
    continuesName c = true := by
  unfold startsName at h
  unfold continuesName Text.isAlphanumeric
  rcases Bool.or_eq_true_iff.1 h with h | h <;> simp [h]

theorem continuesName_of_isName {name : String} (h : isName name = true) :
    ∀ c ∈ name.toList, continuesName c = true := by
  unfold isName at h
  intro c hc
  rcases hcs : name.toList with _ | ⟨d, cs⟩ <;> rw [hcs] at h hc
  · cases h
  · obtain ⟨hd, hcs⟩ := Bool.and_eq_true_iff.1 h
    rcases List.mem_cons.1 hc with rfl | hc
    · exact continuesName_of_startsName hd
    · exact List.all_eq_true.1 hcs c hc

theorem notMem_of_isName {name : String} (h : isName name = true) {c : Char}
    (hc : continuesName c = false) : c ∉ name.toList := by
  intro hmem
  rw [continuesName_of_isName h c hmem] at hc
  cases hc

/-! ## Pieces -/

/-- The characters that start a piece that is neither a name nor a number. -/
def marks : List Char :=
  ['\n', ' ', '\t', '\r', '/', '"', '\'', '\x60', '<', '.']

theorem notMem_marks {c : Char} (h : startsName c = true) : c ∉ marks := by
  have hnone : (marks.all fun d => !startsName d) = true := by decide +kernel
  intro hmem
  have hstarts := List.all_eq_true.1 hnone c hmem
  simp [h] at hstarts

/-- How the first piece of a source is cut off: one case for each kind of piece. -/
inductive FirstPiece : Char → List Char → Piece → List Char → Prop
  | newline (cs : List Char) : FirstPiece '\n' cs ⟨['\n'], some .newline⟩ cs
  | blank {c : Char} (hc : c = ' ' ∨ c = '\t' ∨ c = '\r') (cs : List Char) :
    FirstPiece c cs ⟨[c], none⟩ cs
  | line (cs : List Char) :
    FirstPiece '/' ('/' :: cs) ⟨'/' :: '/' :: cs.takeWhile (· ≠ '\n'), none⟩
      (cs.dropWhile (· ≠ '\n'))
  | comment {cs body rest : List Char} (hbody : closeComment cs = some (body, rest)) :
    FirstPiece '/' ('*' :: cs)
      ⟨['/', '*'] ++ body, if body.contains '\n' then some .newline else none⟩ rest
  | literal {c : Char} {cs body rest : List Char} (hc : c = '"' ∨ c = '\'')
    (hbody : closeLiteral c cs = some (body, rest)) :
    FirstPiece c cs ⟨[c] ++ body, some .str⟩ rest
  | raw {cs body rest : List Char} (hbody : closeRaw cs = some (body, rest)) :
    FirstPiece '\x60' cs ⟨['\x60'] ++ body, some .str⟩ rest
  | number {c : Char} (hc : c.isDigit = true) (cs : List Char) :
    FirstPiece c cs ⟨c :: cs.takeWhile continuesNumber,
      some (.number (Numeral.value? (c :: cs.takeWhile continuesNumber)))⟩
      (cs.dropWhile continuesNumber)
  | arrow (cs : List Char) : FirstPiece '<' ('-' :: cs) ⟨['<', '-'], some .arrow⟩ cs
  | ellipsis (cs : List Char) :
    FirstPiece '.' ('.' :: '.' :: cs) ⟨['.', '.', '.'], some .ellipsis⟩ cs
  | name {c : Char} (hc : startsName c = true) (cs : List Char) :
    FirstPiece c cs ⟨c :: cs.takeWhile continuesName,
      some (.ident (String.ofList (c :: cs.takeWhile continuesName)))⟩
      (cs.dropWhile continuesName)
  | punct {c : Char} {cs : List Char} (hc : c ∉ ['\n', ' ', '\t', '\r', '"', '\'', '\x60'])
    (hslash : c = '/' → cs.head? ≠ some '/' ∧ cs.head? ≠ some '*') (hdigit : c.isDigit = false)
    (harrow : c = '<' → cs.head? ≠ some '-') (hdots : c = '.' → cs.take 2 ≠ ['.', '.'])
    (hname : startsName c = false) : FirstPiece c cs ⟨[c], some (.punct c)⟩ cs

theorem FirstPiece.of_ok {c : Char} {cs rest : List Char} {p : Piece}
    (h : firstPiece c cs = .ok (p, rest)) : FirstPiece c cs p rest := by
  simp only [firstPiece] at h
  split_ifs at h with hnewline hblank hslash hquote hraw hdigit harrow hdots hname
  · cases h
    exact hnewline ▸ .newline cs
  · cases h
    exact .blank hblank cs
  · subst hslash
    split at h
    · cases h
      exact .line _
    · split at h
      · next hbody =>
        cases h
        exact .comment hbody
      · cases h
    · next hline hblock =>
      cases h
      refine .punct (by simp) (fun _ => ⟨fun hhead => ?_, fun hhead => ?_⟩) (by decide) (by simp)
        (by simp) (by decide +kernel)
      · obtain ⟨ds, rfl⟩ := List.head?_eq_some_iff.1 hhead
        exact hline ds rfl
      · obtain ⟨ds, rfl⟩ := List.head?_eq_some_iff.1 hhead
        exact hblock ds rfl
  · split at h
    · next hbody =>
      cases h
      exact .literal hquote hbody
    · cases h
  · subst hraw
    split at h
    · next hbody =>
      cases h
      exact .raw hbody
    · cases h
  · cases h
    exact .number hdigit cs
  · obtain ⟨rfl, hhead⟩ := harrow
    obtain ⟨ds, rfl⟩ := List.head?_eq_some_iff.1 hhead
    cases h
    exact .arrow ds
  · obtain ⟨rfl, htake⟩ := hdots
    obtain ⟨ds, rfl⟩ : ∃ ds, cs = '.' :: '.' :: ds :=
      ⟨cs.drop 2, by simpa [htake] using (List.take_append_drop 2 cs).symm⟩
    cases h
    exact .ellipsis ds
  · cases h
    exact .name hname cs
  · cases h
    have hc : c ∉ ['\n', ' ', '\t', '\r', '"', '\'', '\x60'] := by
      simp only [List.mem_cons, List.not_mem_nil, or_false]
      tauto
    exact .punct hc (fun hc => absurd hc hslash) (by simpa using hdigit)
      (fun hc hhead => harrow ⟨hc, hhead⟩) (fun hc htake => hdots ⟨hc, htake⟩)
      (by simpa using hname)

theorem FirstPiece.ok {c : Char} {cs rest : List Char} {p : Piece}
    (h : FirstPiece c cs p rest) : firstPiece c cs = .ok (p, rest) := by
  cases h with
  | newline | line | arrow | ellipsis => rfl
  | blank hc => rcases hc with rfl | rfl | rfl <;> rfl
  | comment hbody => simp [firstPiece, hbody]
  | literal hc hbody => rcases hc with rfl | rfl <;> simp [firstPiece, hbody]
  | raw hbody => simp [firstPiece, hbody]
  | number hc =>
    have hmarks : c ∉ marks := of_isDigit (P := fun c => c ∉ marks) (by decide) hc
    simp only [marks, List.mem_cons, List.not_mem_nil, or_false, not_or] at hmarks
    simp [firstPiece, hmarks, hc]
  | name hc =>
    have hmarks := notMem_marks hc
    have hdigit : c.isDigit = false := by
      rcases hdigit : c.isDigit with _ | _
      · rfl
      · simp [startsName_of_isDigit hdigit] at hc
    simp only [marks, List.mem_cons, List.not_mem_nil, or_false, not_or] at hmarks
    simp [firstPiece, hmarks, hdigit, hc]
  | punct hc hslash hdigit harrow hdots hname =>
    simp only [List.mem_cons, List.not_mem_nil, or_false, not_or] at hc
    by_cases hmark : c = '/'
    · subst hmark
      obtain ⟨hline, hblock⟩ := hslash rfl
      simp only [firstPiece, hc, or_self, ↓reduceIte]
      split
      · simp at hline
      · simp at hblock
      · rfl
    · have harrow' : ¬(c = '<' ∧ cs.head? = some '-') := fun h => harrow h.1 h.2
      have hdots' : ¬(c = '.' ∧ cs.take 2 = ['.', '.']) := fun h => hdots h.1 h.2
      simp only [firstPiece, hc, hmark, hdigit, harrow', hdots', hname, or_self, if_false,
        Bool.false_eq_true]

/-! ## What tokens hold -/

/-- A name is spelled like one, and the value of a number fits 64 bits. -/
def TokenKind.Proper : TokenKind → Prop
  | ident name => isName name = true
  | number (some n) => n < UInt64.size
  | _ => True

theorem Numeral.read?_lt {radix n : Nat} {cs : List Char} (h : read? radix cs = some n) :
    n < UInt64.size := by
  unfold read? at h
  split_ifs at h
  simpa using (Option.filter_eq_some_iff.1 h).2

theorem Numeral.value?_lt {n : Nat} {cs : List Char} (h : value? cs = some n) :
    n < UInt64.size := by
  unfold value? at h
  split at h <;> exact read?_lt h

theorem number_proper (cs : List Char) : (TokenKind.number (Numeral.value? cs)).Proper := by
  rcases h : Numeral.value? cs with _ | n
  · trivial
  · exact Numeral.value?_lt h

theorem ident_proper {c : Char} (h : startsName c = true) (cs : List Char) :
    (TokenKind.ident (String.ofList (c :: cs.takeWhile continuesName))).Proper := by
  have hall : (cs.takeWhile continuesName).all continuesName = true :=
    List.all_eq_true.2 fun d hd => List.mem_takeWhile_imp hd
  simp only [TokenKind.Proper, isName, String.toList_ofList, h, hall, Bool.and_self]

/-- How names and punctuation are spelled. -/
def TokenKind.Spells : TokenKind → List Char → Prop
  | ident name, text => text = name.toList
  | punct c, text => text = [c]
  | _, _ => True

theorem firstPiece_kind {c : Char} {cs rest : List Char} {p : Piece}
    (h : firstPiece c cs = .ok (p, rest)) :
    ∀ kind ∈ p.kind, kind.Proper ∧ kind.Spells p.text := by
  cases FirstPiece.of_ok h with
  | newline | literal | raw | arrow | ellipsis =>
    rintro kind ⟨⟩
    exact ⟨trivial, trivial⟩
  | blank | line => nofun
  | comment =>
    intro kind hkind
    obtain ⟨-, ⟨⟩⟩ := Option.mem_ite_none_right.1 hkind
    exact ⟨trivial, trivial⟩
  | number =>
    rintro kind ⟨⟩
    exact ⟨number_proper _, trivial⟩
  | name hc =>
    rintro kind ⟨⟩
    exact ⟨ident_proper hc cs, String.toList_ofList.symm⟩
  | punct =>
    rintro kind ⟨⟩
    exact ⟨trivial, rfl⟩

theorem tokensFrom_nil (line start : Nat) : tokensFrom line start [] = .ok [] := by
  rw [tokensFrom]

theorem tokensFrom_cons {c : Char} {cs rest : List Char} {p : Piece}
    (h : firstPiece c cs = .ok (p, rest)) (line start : Nat) :
    tokensFrom line start (c :: cs) =
      (tokensFrom (line + p.breaks) (start + Text.Utf8.size p.text) rest).map
        ((p.token? line start).toList ++ ·) := by
  rw [tokensFrom]
  split
  · next heq => simp [h] at heq
  · next heq =>
    obtain ⟨rfl, rfl⟩ := Prod.mk.inj (Except.ok.inj (h.symm.trans heq))
    rfl

theorem token?_proper {p : Piece} (h : ∀ kind ∈ p.kind, kind.Proper) (line start : Nat) :
    ∀ t ∈ (p.token? line start).toList, t.kind.Proper := by
  intro t ht
  obtain ⟨kind, hkind, rfl⟩ := Option.map_eq_some_iff.1 (Option.mem_toList.1 ht)
  exact h kind hkind

theorem tokensFrom_proper (line start : Nat) (cs : List Char) {ts : List Token}
    (h : tokensFrom line start cs = .ok ts) : ∀ t ∈ ts, t.kind.Proper := by
  fun_induction tokensFrom line start cs generalizing ts with
  | case1 =>
    cases h
    simp
  | case2 => cases h
  | case3 line start c cs p rest hp _ ih =>
    rcases hrest : tokensFrom (line + p.breaks) (start + Text.Utf8.size p.text) rest with e | us <;>
      rw [hrest] at h
    · cases h
    · obtain rfl := Except.ok.inj h
      intro t ht
      rcases List.mem_append.1 ht with ht | ht
      · exact token?_proper (fun kind hkind => (firstPiece_kind hp kind hkind).1) line start t ht
      · exact ih hrest t ht

/-- What a source is cut into holds names and numbers as they should be. -/
theorem tokens_proper {source : List Char} {ts : List Token} (h : tokens source = .ok ts) :
    ∀ t ∈ ts, t.kind.Proper :=
  tokensFrom_proper 1 0 source h

/-! ## Texts put together -/

/-- What goes on is cut off exactly where the text behind it starts. -/
theorem takeWhile_dropWhile_append {p : Char → Bool} {ds cs : List Char}
    (hds : ∀ d ∈ ds, p d = true) (hcs : ∀ c ∈ cs.head?, p c = false) :
    (ds ++ cs).takeWhile p = ds ∧ (ds ++ cs).dropWhile p = cs := by
  rw [List.takeWhile_append_of_pos hds, List.dropWhile_append_of_pos hds]
  rcases cs with _ | ⟨c, cs⟩
  · exact ⟨List.append_nil ds, rfl⟩
  · simp [hcs c rfl]

/-- The kinds of the tokens that a text is cut into, wherever it stands. -/
def Reads (cs : List Char) (kinds : List TokenKind) : Prop :=
  ∀ line start, ∃ ts, tokensFrom line start cs = .ok ts ∧ ts.map Token.kind = kinds

namespace Reads

variable {cs : List Char} {kinds : List TokenKind}

theorem nil : Reads [] [] :=
  fun line start => ⟨[], tokensFrom_nil line start, rfl⟩

theorem cons {c : Char} {cs rest : List Char} {p : Piece} (hp : firstPiece c cs = .ok (p, rest))
    (h : Reads rest kinds) : Reads (c :: cs) (p.kind.toList ++ kinds) := by
  intro line start
  obtain ⟨ts, hts, rfl⟩ := h (line + p.breaks) (start + Text.Utf8.size p.text)
  refine ⟨(p.token? line start).toList ++ ts, by rw [tokensFrom_cons hp, hts]; rfl, ?_⟩
  unfold Piece.token?
  rcases p.kind with _ | kind <;> rfl

theorem newline (h : Reads cs kinds) : Reads ('\n' :: cs) (.newline :: kinds) :=
  h.cons (p := ⟨['\n'], some .newline⟩) rfl

theorem blank {c : Char} (hc : c = ' ' ∨ c = '\t') (h : Reads cs kinds) :
    Reads (c :: cs) kinds := by
  refine h.cons (p := ⟨[c], none⟩) ?_
  rcases hc with rfl | rfl <;> rfl

theorem blanks {c : Char} (hc : c = ' ' ∨ c = '\t') (n : Nat) (h : Reads cs kinds) :
    Reads (List.replicate n c ++ cs) kinds := by
  induction n with
  | zero => exact h
  | succ n ih => exact blank hc ih

theorem arrow (h : Reads cs kinds) : Reads ('<' :: '-' :: cs) (.arrow :: kinds) :=
  h.cons (p := ⟨['<', '-'], some .arrow⟩) rfl

theorem punct {c : Char} (hc : c ∈ ['*', '[', ']', ';', '\x7b', '\x7d']) (h : Reads cs kinds) :
    Reads (c :: cs) (.punct c :: kinds) := by
  refine h.cons (p := ⟨[c], some (.punct c)⟩) ?_
  simp only [List.mem_cons, List.not_mem_nil, or_false] at hc
  rcases hc with rfl | rfl | rfl | rfl | rfl | rfl <;> rfl

theorem dot (hcs : cs.head? ≠ some '.') (h : Reads cs kinds) :
    Reads ('.' :: cs) (.punct '.' :: kinds) := by
  refine h.cons (p := ⟨['.'], some (.punct '.')⟩) ?_
  have htake : cs.take 2 ≠ ['.', '.'] := by
    rintro htake
    rcases cs with _ | ⟨c, cs⟩
    · cases htake
    · exact hcs (by simpa using (List.cons.inj htake).1)
  exact (FirstPiece.punct (c := '.') (by simp) nofun (by decide) nofun (fun _ => htake)
    (by decide +kernel)).ok

/-- A name, if what is behind it does not go on with it. -/
theorem name {name : String} (hname : isName name = true)
    (hcs : ∀ c ∈ cs.head?, continuesName c = false) (h : Reads cs kinds) :
    Reads (name.toList ++ cs) (.ident name :: kinds) := by
  unfold isName at hname
  rcases hchars : name.toList with _ | ⟨c, ds⟩ <;> rw [hchars] at hname
  · cases hname
  obtain ⟨hc, hds⟩ := Bool.and_eq_true_iff.1 hname
  obtain ⟨htake, hdrop⟩ := takeWhile_dropWhile_append (List.all_eq_true.1 hds) hcs
  have hpiece := (FirstPiece.name hc (ds ++ cs)).ok
  rw [htake, hdrop, ← hchars, String.ofList_toList, hchars] at hpiece
  exact h.cons hpiece

end Reads

/-! ## Numbers -/

namespace Numeral

theorem digit?_digitChar {d : Nat} (h : d < 10) : digit? 10 d.digitChar = some d := by
  have hall : ∀ d : Fin 10, digit? 10 (Nat.digitChar d) = some d.val := by decide +kernel
  exact hall ⟨d, h⟩

theorem digits?_append (radix : Nat) : ∀ (n : Nat) (cs ds : List Char),
    digits? radix n (cs ++ ds) = (digits? radix n cs).bind fun m => digits? radix m ds
  | n, [], ds => rfl
  | n, c :: cs, ds => by
    simp only [List.cons_append, digits?, bind]
    rcases digit? radix c with _ | d
    · rfl
    · exact digits?_append radix (n * radix + d) cs ds

theorem digits?_toDigits (n : Nat) : digits? 10 0 (Nat.toDigits 10 n) = some n := by
  induction n using Nat.strong_induction_on with
  | _ n ih =>
    by_cases hn : n < 10
    · rw [Nat.toDigits_of_lt_base hn]
      simp [digits?, digit?_digitChar hn]
    · rw [Nat.toDigits_of_base_le (by decide) (by omega), digits?_append, ih (n / 10) (by omega)]
      simp only [Option.bind_some, digits?, digit?_digitChar (Nat.mod_lt n (by decide : 10 > 0)),
        bind, Option.some.injEq]
      omega

/-- Only the number zero is written with a zero in front. -/
theorem toDigits_eq_cons {n : Nat} (hn : 0 < n) :
    ∃ c cs, Nat.toDigits 10 n = c :: cs ∧ c ≠ '0' := by
  induction n using Nat.strong_induction_on with
  | _ n ih =>
    by_cases hlt : n < 10
    · have hall : ∀ d : Fin 10, 0 < d.val → Nat.digitChar d ≠ '0' := by decide
      exact ⟨_, [], Nat.toDigits_of_lt_base hlt, hall ⟨n, hlt⟩ hn⟩
    · obtain ⟨c, cs, hcs, hc⟩ := ih (n / 10) (by omega) (by omega)
      exact ⟨c, cs ++ [(n % 10).digitChar],
        by rw [Nat.toDigits_of_base_le (by decide) (by omega), hcs]; rfl, hc⟩

theorem plain_of_isDigit {cs : List Char} (h : ∀ c ∈ cs, c.isDigit = true) : plain cs = cs := by
  have hmark : ∀ c ∈ cs, decide (c ≠ '_') = true := fun c hc =>
    of_isDigit (P := fun c => decide (c ≠ '_') = true) (by decide) (h c hc)
  have hlower : ∀ c ∈ cs, c.toLower = id c := fun c hc =>
    of_isDigit (P := fun c => c.toLower = id c) (by decide) (h c hc)
  unfold plain
  rw [List.filter_eq_self.2 hmark, List.map_congr_left hlower, List.map_id]

/-- A number is read back from its decimal digits. -/
theorem value?_toDigits {n : Nat} (hn : n < UInt64.size) :
    value? (Nat.toDigits 10 n) = some n := by
  have hplain : plain (Nat.toDigits 10 n) = Nat.toDigits 10 n :=
    plain_of_isDigit fun c hc => Nat.isDigit_of_mem_toDigits (by decide) (by decide) hc
  have hread : read? 10 (Nat.toDigits 10 n) = some n := by
    unfold read?
    rw [if_neg (by simp), digits?_toDigits]
    simp [hn]
  unfold value?
  rw [hplain]
  rcases Nat.eq_zero_or_pos n with rfl | hpos
  · rfl
  · obtain ⟨c, cs, hcs, hc⟩ := toDigits_eq_cons hpos
    rw [hcs] at hread ⊢
    split <;> simp_all

end Numeral

/-- A number is cut off where it does not go on. -/
theorem firstPiece_number {c : Char} {ds cs : List Char} (hc : c.isDigit = true)
    (hds : ∀ d ∈ ds, continuesNumber d = true) (hcs : ∀ d ∈ cs.head?, continuesNumber d = false) :
    firstPiece c (ds ++ cs) =
      .ok (⟨c :: ds, some (.number (Numeral.value? (c :: ds)))⟩, cs) := by
  obtain ⟨htake, hdrop⟩ := takeWhile_dropWhile_append hds hcs
  have hpiece := (FirstPiece.number hc (ds ++ cs)).ok
  rwa [htake, hdrop] at hpiece

/-- A number, if what is behind it does not go on with it. -/
theorem Reads.number {n : Nat} (hn : n < UInt64.size) {cs : List Char} {kinds : List TokenKind}
    (hcs : ∀ c ∈ cs.head?, continuesNumber c = false) (h : Reads cs kinds) :
    Reads ((toString n).toList ++ cs) (.number (some n) :: kinds) := by
  have hdigits : ∀ c ∈ Nat.toDigits 10 n, c.isDigit = true :=
    fun c hc => Nat.isDigit_of_mem_toDigits (by decide) (by decide) hc
  have hvalue := Numeral.value?_toDigits hn
  rw [Nat.toString_eq_repr, Nat.toList_repr]
  rcases hchars : Nat.toDigits 10 n with _ | ⟨c, ds⟩
  · simp at hchars
  rw [hchars] at hdigits hvalue
  have hgoes : ∀ d ∈ ds, continuesNumber d = true := fun d hd =>
    of_isDigit (P := fun d => continuesNumber d = true) (by decide)
      (hdigits d (List.mem_cons_of_mem c hd))
  rw [List.cons_append]
  refine h.cons (p := ⟨c :: ds, some (.number (some n))⟩) ?_
  rw [firstPiece_number (hdigits c List.mem_cons_self) hgoes hcs, hvalue]

end StructPadding.Go

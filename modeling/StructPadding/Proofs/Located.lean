import StructPadding.Diff.Block
import StructPadding.Go.Cursor
import StructPadding.Proofs.Encoded
import StructPadding.Proofs.Scanned

/-!
# Where tokens stand

Tokens are counted off line by line and byte by byte as a source is cut, and what a token is cut
from is read as that token also if it stands alone (`Token.Cut`). A diff splits the same source at
its line feeds. Both have the same lines: `hasAt_of_cut` finds a token that starts on a line in that
line of the split source, at the bytes where it was cut.
-/

namespace StructPadding

namespace Diff

/-- A line of a text has some bytes in it, which start at an offset of the text. -/
def HasAt (text : List UInt8) (line offset : Nat) (bytes : List UInt8) : Prop :=
  ∃ lines left right more, splitLines text = lines ++ (left ++ bytes ++ right) :: more ∧
    line = lines.length + 1 ∧ offset = (lines.flatMap (· ++ [0x0a])).length + left.length

theorem HasAt.line_pos {text bytes : List UInt8} {line offset : Nat}
    (h : HasAt text line offset bytes) : 1 ≤ line := by
  obtain ⟨lines, left, right, more, -, rfl, -⟩ := h
  exact Nat.le_add_left 1 _

theorem HasAt.line_le {text bytes : List UInt8} {line offset : Nat}
    (h : HasAt text line offset bytes) : line ≤ (splitLines text).length := by
  obtain ⟨lines, left, right, more, hlines, rfl, -⟩ := h
  simp [hlines]

theorem splitOn_append_of_notMem {bytes : List UInt8} (h : 0x0a ∉ bytes) (after : List UInt8) :
    ∃ right more, (bytes ++ after).splitOn 0x0a = (bytes ++ right) :: more := by
  induction bytes with
  | nil =>
    obtain ⟨right, more, hsplit⟩ := List.exists_cons_of_ne_nil (List.splitOn_ne_nil 0x0a after)
    exact ⟨right, more, hsplit⟩
  | cons b bytes ih =>
    simp only [List.mem_cons, not_or] at h
    obtain ⟨right, more, hsplit⟩ := ih h.2
    refine ⟨right, more, ?_⟩
    rw [List.cons_append, List.splitOn_cons_eq_if_modifyHead, if_neg (by simpa using Ne.symm h.1),
      hsplit]
    rfl

/-- What is split behind some bytes: the lines they make up, and the line that goes on. -/
theorem splitOn_append {bytes : List UInt8} (h : 0x0a ∉ bytes) (before after : List UInt8) :
    ∃ lines left right more,
      (before ++ bytes ++ after).splitOn 0x0a = lines ++ (left ++ bytes ++ right) :: more ∧
        lines.length = before.count 0x0a ∧ before = lines.flatMap (· ++ [0x0a]) ++ left := by
  induction before with
  | nil =>
    obtain ⟨right, more, hsplit⟩ := splitOn_append_of_notMem h after
    exact ⟨[], [], right, more, hsplit, rfl, rfl⟩
  | cons b before ih =>
    obtain ⟨lines, left, right, more, hsplit, hlength, hbefore⟩ := ih
    rw [List.cons_append, List.cons_append, List.splitOn_cons_eq_if_modifyHead, hsplit]
    by_cases hb : b = 0x0a
    · refine ⟨[] :: lines, left, right, more, by simp [hb], by simp [hb, hlength], ?_⟩
      simp [hb, ← hbefore]
    · rcases lines with _ | ⟨line, lines⟩
      · refine ⟨[], b :: left, right, more, by simp [hb], ?_, by simpa using hbefore⟩
        simpa [List.count_cons, hb] using hlength
      · refine ⟨(b :: line) :: lines, left, right, more, by simp [hb], ?_, ?_⟩
        · simpa [List.count_cons, hb] using hlength
        · simpa using hbefore

/-- Bytes without a line feed are found on the line that the line feeds before them count. -/
theorem hasAt_of_append {bytes : List UInt8} (hne : bytes ≠ []) (h : 0x0a ∉ bytes)
    (before after : List UInt8) :
    HasAt (before ++ bytes ++ after) (before.count 0x0a + 1) before.length bytes := by
  -- a line feed at the very end comes after the bytes
  obtain ⟨after', hsplit⟩ : ∃ after', splitLines (before ++ bytes ++ after) =
      (before ++ bytes ++ after').splitOn 0x0a := by
    unfold splitLines
    rw [if_neg (by simp [hne])]
    dsimp only
    split_ifs with hlast
    · rcases List.eq_nil_or_concat after with rfl | ⟨after', b, rfl⟩
      · rw [List.append_nil, List.getLast?_append, List.getLast?_eq_some_getLast hne,
          Option.some_or, Option.some.injEq] at hlast
        exact absurd (hlast ▸ List.getLast_mem hne) h
      · exact ⟨after', by simp [← List.append_assoc]⟩
    · exact ⟨after, rfl⟩
  obtain ⟨lines, left, right, more, hlines, hlength, hbefore⟩ := splitOn_append h before after'
  refine ⟨lines, left, right, more, hsplit.trans hlines, by rw [hlength], ?_⟩
  rw [← List.length_append, ← hbefore]

end Diff

namespace Go

open Text.Utf8 (size bytesOf bytesOf_cons bytesOf_append length_bytesOf count_bytesOf)

/-! ## Pieces -/

theorem firstPiece_head {c : Char} {cs rest : List Char} {p : Piece}
    (h : firstPiece c cs = .ok (p, rest)) : ∃ more, p.text = c :: more := by
  have happ := firstPiece_append h
  rcases htext : p.text with _ | ⟨d, more⟩
  · exact absurd htext (firstPiece_text_ne_nil h)
  · rw [htext, List.cons_append] at happ
    exact ⟨more, by rw [(List.cons.inj happ).1]⟩

/-- Only a line break starts with a line feed. -/
theorem firstPiece_newline {cs rest : List Char} {p : Piece}
    (h : firstPiece '\n' cs = .ok (p, rest)) : p.kind = some .newline := by
  simp only [firstPiece, if_pos] at h
  obtain ⟨rfl, -⟩ := Prod.mk.inj (Except.ok.inj h)
  rfl

theorem closeComment_alone {cs body rest : List Char} (h : closeComment cs = some (body, rest)) :
    closeComment body = some (body, []) := by
  fun_induction closeComment cs generalizing body rest with
  | case1 => cases h
  | case2 =>
    obtain ⟨rfl, -⟩ := Prod.mk.inj (Option.some.inj h)
    rfl
  | case3 c cs hopen ih =>
    obtain ⟨⟨b, r⟩, hb, he⟩ := Option.map_eq_some_iff.1 h
    obtain ⟨rfl, rfl⟩ := Prod.mk.inj he
    have happ := closeComment_append hb
    rw [closeComment, ih hb]
    · rfl
    · rintro more rfl rfl
      exact hopen (more ++ r) rfl happ.symm

theorem closeLiteral_alone {quote : Char} {cs body rest : List Char}
    (h : closeLiteral quote cs = some (body, rest)) :
    closeLiteral quote body = some (body, []) := by
  fun_induction closeLiteral quote cs generalizing body rest with
  | case1 => cases h
  | case2 => cases h
  | case3 c cs hc ih =>
    obtain ⟨⟨b, r⟩, hb, he⟩ := Option.map_eq_some_iff.1 h
    obtain ⟨rfl, rfl⟩ := Prod.mk.inj he
    rw [closeLiteral, if_neg hc, ih hb]
    rfl
  | case4 => cases h
  | case5 cs _ hc =>
    obtain ⟨rfl, -⟩ := Prod.mk.inj (Option.some.inj h)
    rw [closeLiteral, if_neg hc, if_pos rfl]
    simp
  | case6 c cs hopen hc hquote ih =>
    obtain ⟨⟨b, r⟩, hb, he⟩ := Option.map_eq_some_iff.1 h
    obtain ⟨rfl, rfl⟩ := Prod.mk.inj he
    have happ := closeLiteral_append hb
    rw [closeLiteral, if_neg hc, if_neg hquote, ih hb]
    · rfl
    · rintro d more rfl rfl
      exact hopen d (more ++ r) rfl happ.symm

theorem closeRaw_alone {cs body rest : List Char} (h : closeRaw cs = some (body, rest)) :
    closeRaw body = some (body, []) := by
  fun_induction closeRaw cs generalizing body rest with
  | case1 => cases h
  | case2 cs =>
    obtain ⟨rfl, -⟩ := Prod.mk.inj (Option.some.inj h)
    rfl
  | case3 c cs hc ih =>
    obtain ⟨⟨b, r⟩, hb, he⟩ := Option.map_eq_some_iff.1 h
    obtain ⟨rfl, rfl⟩ := Prod.mk.inj he
    rw [closeRaw, if_neg hc, ih hb]
    rfl

theorem takeWhile_dropWhile_takeWhile (p : Char → Bool) (cs : List Char) :
    (cs.takeWhile p).takeWhile p = cs.takeWhile p ∧ (cs.takeWhile p).dropWhile p = [] := by
  have hall : ∀ d ∈ cs.takeWhile p, p d = true := fun d hd => List.mem_takeWhile_imp hd
  exact ⟨List.takeWhile_eq_self_iff.2 hall, List.dropWhile_eq_nil_iff.2 hall⟩

/-- A piece that stands alone is cut off as it is. -/
theorem firstPiece_alone {c : Char} {cs rest : List Char} {p : Piece}
    (h : firstPiece c cs = .ok (p, rest)) : firstPiece c p.text.tail = .ok (p, []) := by
  cases FirstPiece.of_ok h with
  | newline => exact (FirstPiece.newline []).ok
  | blank hc => exact (FirstPiece.blank hc []).ok
  | line cs =>
    have halone := (FirstPiece.line (cs.takeWhile (· ≠ '\n'))).ok
    rwa [(takeWhile_dropWhile_takeWhile _ cs).1, (takeWhile_dropWhile_takeWhile _ cs).2] at halone
  | comment hbody => exact (FirstPiece.comment (closeComment_alone hbody)).ok
  | literal hc hbody => exact (FirstPiece.literal hc (closeLiteral_alone hbody)).ok
  | raw hbody => exact (FirstPiece.raw (closeRaw_alone hbody)).ok
  | number hc =>
    have halone := (FirstPiece.number hc (cs.takeWhile continuesNumber)).ok
    rwa [(takeWhile_dropWhile_takeWhile _ cs).1, (takeWhile_dropWhile_takeWhile _ cs).2] at halone
  | arrow => exact (FirstPiece.arrow []).ok
  | ellipsis => exact (FirstPiece.ellipsis []).ok
  | name hc =>
    have halone := (FirstPiece.name hc (cs.takeWhile continuesName)).ok
    rwa [(takeWhile_dropWhile_takeWhile _ cs).1, (takeWhile_dropWhile_takeWhile _ cs).2] at halone
  | punct hc _ hdigit _ _ hname =>
    exact (FirstPiece.punct hc (by simp) hdigit (by simp) (by simp) hname).ok

theorem reads_text_of_firstPiece {c : Char} {cs rest : List Char} {p : Piece}
    (h : firstPiece c cs = .ok (p, rest)) : Reads p.text p.kind.toList := by
  obtain ⟨more, htext⟩ := firstPiece_head h
  have halone := firstPiece_alone h
  rw [htext] at halone ⊢
  simpa using Reads.nil.cons halone

/-! ## Tokens -/

/-- A token is cut from a text behind another one, when both stand at a line and a byte. -/
structure Token.Cut (line start : Nat) (before text : List Char) (t : Token) : Prop where
  line_eq : t.line = line + before.count '\n'
  start_eq : t.start = start + size before
  stop_eq : t.stop = start + size (before ++ text)
  spelled : t.kind.Spells text
  alone : Reads text [t.kind]
  first : ∃ c ∈ text.head?, c = '\n' → t.kind = .newline

theorem size_append (cs ds : List Char) : size (cs ++ ds) = size cs + size ds := by
  rw [← length_bytesOf, bytesOf_append, List.length_append, length_bytesOf, length_bytesOf]

theorem cut_token? {c : Char} {cs rest : List Char} {p : Piece}
    (h : firstPiece c cs = .ok (p, rest)) (line start : Nat) :
    ∀ t ∈ p.token? line start, t.Cut line start [] p.text := by
  intro t ht
  obtain ⟨kind, hkind, rfl⟩ := Option.map_eq_some_iff.1 ht
  obtain ⟨more, htext⟩ := firstPiece_head h
  have halone := reads_text_of_firstPiece h
  rw [show p.kind = some kind from hkind] at halone
  refine ⟨by simp, by simp [size], by simp, (firstPiece_kind h kind hkind).2, halone, c,
    by simp [htext], ?_⟩
  rintro rfl
  simpa [hkind] using firstPiece_newline h

theorem Token.Cut.behind {line start : Nat} {before text : List Char} {t : Token} {p : Piece}
    (h : t.Cut (line + p.breaks) (start + size p.text) before text) :
    t.Cut line start (p.text ++ before) text where
  line_eq := by rw [h.line_eq, Piece.breaks, List.count_append, Nat.add_assoc]
  start_eq := by rw [h.start_eq, size_append, Nat.add_assoc]
  stop_eq := by rw [h.stop_eq, List.append_assoc, size_append p.text, Nat.add_assoc]
  spelled := h.spelled
  alone := h.alone
  first := h.first

/-- Every token is cut from the text, on its line and at its bytes. -/
theorem tokensFrom_cut (line start : Nat) (cs : List Char) {ts : List Token}
    (h : tokensFrom line start cs = .ok ts) :
    ∀ t ∈ ts, ∃ before text after, cs = before ++ text ++ after ∧ t.Cut line start before text := by
  fun_induction tokensFrom line start cs generalizing ts with
  | case1 =>
    obtain rfl := Except.ok.inj h
    simp
  | case2 => cases h
  | case3 line start c cs p rest hp _ ih =>
    have happ := firstPiece_append hp
    rcases hrest : tokensFrom (line + p.breaks) (start + size p.text) rest with e | us <;>
      rw [hrest] at h
    · cases h
    · obtain rfl := Except.ok.inj h
      intro t ht
      rcases List.mem_append.1 ht with ht | ht
      · exact ⟨[], p.text, rest, happ.symm, cut_token? hp line start t (Option.mem_toList.1 ht)⟩
      · obtain ⟨before, text, after, rfl, hcut⟩ := ih hrest t ht
        exact ⟨p.text ++ before, text, after, by simp [← happ], hcut.behind⟩

/-- One token ends before another one starts, on the same line or above. -/
def Token.Before (t u : Token) : Prop :=
  t.stop ≤ u.start ∧ t.line ≤ u.line

theorem tokensFrom_pairwise (line start : Nat) (cs : List Char) {ts : List Token}
    (h : tokensFrom line start cs = .ok ts) : ts.Pairwise Token.Before := by
  fun_induction tokensFrom line start cs generalizing ts with
  | case1 =>
    obtain rfl := Except.ok.inj h
    exact .nil
  | case2 => cases h
  | case3 line start c cs p rest hp _ ih =>
    rcases hrest : tokensFrom (line + p.breaks) (start + size p.text) rest with e | us <;>
      rw [hrest] at h
    · cases h
    · obtain rfl := Except.ok.inj h
      refine List.pairwise_append.2 ⟨?_, ih hrest, fun t ht u hu => ?_⟩
      · rcases p.token? line start with _ | t <;> simp
      · have ht := cut_token? hp line start t (Option.mem_toList.1 ht)
        obtain ⟨before, text, after, -, hu⟩ := tokensFrom_cut _ _ _ hrest u hu
        rw [Token.Before, ht.stop_eq, ht.line_eq, hu.start_eq, hu.line_eq]
        simp only [List.nil_append, List.count_nil, Piece.breaks]
        omega

/-! ## Texts -/

theorem dropBytes_size (cs ds : List Char) : dropBytes (size cs) (cs ++ ds) = ds := by
  induction cs with
  | nil => cases ds <;> simp [size, dropBytes]
  | cons c cs ih =>
    have hpos := c.utf8Size_pos
    rw [List.cons_append, dropBytes, size, if_neg (by omega), Nat.add_sub_cancel_left, ih]

theorem takeBytes_size (cs ds : List Char) : takeBytes (size cs) (cs ++ ds) = cs := by
  induction cs with
  | nil => cases ds <;> simp [size, takeBytes]
  | cons c cs ih =>
    have hpos := c.utf8Size_pos
    rw [List.cons_append, takeBytes, size, if_neg (by omega), Nat.add_sub_cancel_left, ih]

/-- A text stands in a source between two bytes. -/
def IsSlice (source : List Char) (start stop : Nat) (text : List Char) : Prop :=
  ∃ before after, source = before ++ text ++ after ∧ start = size before ∧
    stop = size (before ++ text)

theorem IsSlice.takeBytes_eq {source text : List Char} {start stop : Nat}
    (h : IsSlice source start stop text) :
    takeBytes (stop - start) (dropBytes start source) = text := by
  obtain ⟨before, after, rfl, rfl, rfl⟩ := h
  rw [List.append_assoc, dropBytes_size, size_append, Nat.add_sub_cancel_left, takeBytes_size]

theorem Token.Cut.start_lt {line start : Nat} {before text : List Char} {t : Token}
    (h : t.Cut line start before text) : t.start < t.stop := by
  obtain ⟨c, hc, -⟩ := h.first
  obtain ⟨more, rfl⟩ := List.head?_eq_some_iff.1 hc
  have hpos := c.utf8Size_pos
  rw [h.start_eq, h.stop_eq, size_append, size]
  omega

/-- From the start of a token to the end of one that is not before it there is a text. -/
theorem exists_slice {cs : List Char} {ts : List Token} (h : tokens cs = .ok ts) {t u : Token}
    (ht : t ∈ ts) (hu : u ∈ ts) (hend : t = u ∨ t.Before u) :
    ∃ text, IsSlice cs t.start u.stop text := by
  obtain ⟨before, first, rest, hcs, hfirst⟩ := tokensFrom_cut 1 0 cs h t ht
  obtain ⟨before', last, rest', hcs', hlast⟩ := tokensFrom_cut 1 0 cs h u hu
  have hlt : t.start < u.stop := by
    rcases hend with rfl | hbefore
    · exact hfirst.start_lt
    · exact hfirst.start_lt.trans_le (hbefore.1.trans hlast.start_lt.le)
  rw [hfirst.start_eq, hlast.stop_eq, Nat.zero_add, Nat.zero_add] at hlt ⊢
  have hshort : before <+: cs := ⟨first ++ rest, by rw [hcs, List.append_assoc]⟩
  have hlong : before' ++ last <+: cs := ⟨rest', hcs'.symm⟩
  rcases List.prefix_or_prefix_of_prefix hshort hlong with ⟨text, htext⟩ | ⟨more, hmore⟩
  · exact ⟨text, before, rest', by rw [htext, hcs'], rfl, by rw [htext]⟩
  · rw [← hmore, size_append] at hlt
    omega

/-! ## Lines -/

theorem feed_notMem_bytesOf {cs : List Char} (h : '\n' ∉ cs) : 0x0a ∉ bytesOf cs := by
  rw [← List.count_eq_zero, count_bytesOf, List.count_eq_zero]
  exact h

/-- The bytes that a token starts with are found in the split source, on the line of the token. -/
theorem hasAt_of_cut {before text after : List Char} {t : Token} (h : t.Cut 1 0 before text)
    {bytes more : List UInt8} (htext : bytesOf text = bytes ++ more) (hne : bytes ≠ [])
    (hfeed : 0x0a ∉ bytes) :
    Diff.HasAt (bytesOf (before ++ text ++ after)) t.line t.start bytes := by
  have hat := Diff.hasAt_of_append hne hfeed (bytesOf before) (more ++ bytesOf after)
  rw [count_bytesOf, length_bytesOf] at hat
  rw [h.line_eq, h.start_eq, bytesOf_append, bytesOf_append, htext, Nat.zero_add, Nat.add_comm]
  simpa using hat

section Source

variable {source : List UInt8} {cs : List Char} {ts : List Token}
  (hcs : Text.Utf8.decode source = .ok cs) (hts : tokens cs = .ok ts) {t : Token} (ht : t ∈ ts)

include hcs hts ht

theorem hasAt_of_name {name : String} (hname : t.kind = .ident name) :
    Diff.HasAt source t.line t.start (bytesOf name.toList) := by
  obtain ⟨before, text, after, rfl, hcut⟩ := tokensFrom_cut 1 0 cs hts t ht
  obtain rfl : text = name.toList := by
    have := hcut.spelled
    rwa [hname] at this
  have hproper : isName name = true := by
    have := tokens_proper hts t ht
    rwa [hname] at this
  have hfeed : '\n' ∉ name.toList := notMem_of_isName hproper (by decide +kernel)
  obtain ⟨c, hc, -⟩ := hcut.first
  obtain ⟨more, hmore⟩ := List.head?_eq_some_iff.1 hc
  rw [Text.Utf8.eq_bytesOf_of_decode hcs]
  refine hasAt_of_cut hcut (List.append_nil _).symm ?_ (feed_notMem_bytesOf hfeed)
  rw [hmore, bytesOf_cons]
  exact List.append_ne_nil_of_left_ne_nil String.utf8EncodeChar_ne_nil _

theorem hasAt_of_kind (hkind : t.kind ≠ .newline) :
    ∃ byte, Diff.HasAt source t.line t.start [byte] ∧
      ∀ c, t.kind = .punct c → byte ∈ (bytesOf [c]).head? := by
  obtain ⟨before, text, after, rfl, hcut⟩ := tokensFrom_cut 1 0 cs hts t ht
  obtain ⟨c, hc, hfirst⟩ := hcut.first
  obtain ⟨more, rfl⟩ := List.head?_eq_some_iff.1 hc
  obtain ⟨byte, bytes, hbytes⟩ :=
    List.exists_cons_of_ne_nil (String.utf8EncodeChar_ne_nil (c := c))
  have hfeed : 0x0a ∉ bytesOf [c] := feed_notMem_bytesOf (by simpa [eq_comm] using mt hfirst hkind)
  have hstart : bytesOf (c :: more) = [byte] ++ (bytes ++ bytesOf more) := by
    rw [bytesOf_cons, hbytes]
    rfl
  rw [bytesOf_cons, hbytes] at hfeed
  rw [Text.Utf8.eq_bytesOf_of_decode hcs]
  refine ⟨byte, hasAt_of_cut hcut hstart (by simp) ?_, fun d hd => ?_⟩
  · simp only [List.cons_append, List.mem_cons, not_or] at hfeed
    simpa using hfeed.1
  · have hspelled : c :: more = [d] := by
      have := hcut.spelled
      rwa [hd] at this
    rw [← hspelled, hstart]
    rfl

end Source

end Go

end StructPadding

import StructPadding.Proofs.Located

/-!
# Tokens tile a source

Between two tokens there are only blanks and comments (`Skipped`); a comment over several lines is a
token itself. A source is cut into skipped text and tokens in turn (`Tiled`), so the tokens and the
gaps between them make up all of its bytes (`tokens_tile`).
-/

namespace StructPadding.Go

open Text.Utf8 (size bytesOf bytesOf_append length_bytesOf count_bytesOf)

/-! ## What is skipped -/

/-- Text that is skipped in front of some characters: blanks, comments to the end of the line, and
block comments on one line. -/
inductive Skipped (after : List Char) : List Char → Prop
  | nil : Skipped after []
  | blank {c : Char} {text : List Char} (hc : c = ' ' ∨ c = '\t' ∨ c = '\r')
    (tail : Skipped after text) : Skipped after (c :: text)
  | line {body text : List Char} (hbody : '\n' ∉ body)
    (hend : ∀ c ∈ (text ++ after).head?, c = '\n') (tail : Skipped after text) :
    Skipped after ('/' :: '/' :: (body ++ text))
  /-- The first closing mark ends the comment. -/
  | block {body text : List Char} (hbody : '\n' ∉ body)
    (hclose : ¬['*', '/'] <:+: body ++ ['*']) (tail : Skipped after text) :
    Skipped after ('/' :: '*' :: (body ++ '*' :: '/' :: text))

theorem closeComment_body {cs text rest : List Char} (h : closeComment cs = some (text, rest)) :
    ∃ body, text = body ++ ['*', '/'] ∧ ¬['*', '/'] <:+: body ++ ['*'] := by
  fun_induction closeComment cs generalizing text rest with
  | case1 => cases h
  | case2 =>
    obtain ⟨rfl, -⟩ := Prod.mk.inj (Option.some.inj h)
    exact ⟨[], rfl, fun hinfix => by simpa using hinfix.length_le⟩
  | case3 c cs hopen ih =>
    obtain ⟨⟨b, r⟩, hb, he⟩ := Option.map_eq_some_iff.1 h
    obtain ⟨rfl, rfl⟩ := Prod.mk.inj he
    have happ := closeComment_append hb
    obtain ⟨body, rfl, hbody⟩ := ih hb
    refine ⟨c :: body, rfl, fun hinfix => ?_⟩
    rw [List.cons_append, List.infix_cons_iff] at hinfix
    rcases hinfix with hprefix | hinfix
    · -- a mark across the first character would have ended the comment before it
      obtain ⟨rfl, hslash⟩ := List.cons_prefix_cons.1 hprefix
      rcases body with _ | ⟨d, body⟩
      · simp at hslash
      · obtain ⟨rfl, -⟩ := List.cons_prefix_cons.1 hslash
        exact hopen _ rfl happ.symm
    · exact hbody hinfix

/-- A piece without a kind is skipped in front of what is skipped. -/
theorem skipped_append {c : Char} {cs rest gap after : List Char} {p : Piece}
    (h : firstPiece c cs = .ok (p, rest)) (hkind : p.kind = none) (hrest : rest = gap ++ after)
    (hgap : Skipped after gap) : Skipped after (p.text ++ gap) := by
  cases FirstPiece.of_ok h with
  | newline | literal | raw | number | arrow | ellipsis | name | punct => cases hkind
  | blank hc => exact hgap.blank hc
  | line cs =>
    refine .line (fun hmem => ?_) ?_ hgap
    · simpa using List.mem_takeWhile_imp hmem
    · rw [← hrest]
      intro d hd
      have hstop := List.head?_dropWhile_not (fun c => decide (c ≠ '\n')) cs
      rw [hd] at hstop
      simpa using hstop
  | comment hbody =>
    obtain ⟨body, rfl, hclose⟩ := closeComment_body hbody
    have hfeed : '\n' ∉ body := fun hmem => by simp [hmem] at hkind
    simpa using Skipped.block hfeed hclose hgap

/-! ## Tiles -/

/-- A text, from a line and a byte on, that is skipped but for some tokens. -/
inductive Tiled : Nat → Nat → List Char → List Token → Prop
  | nil {line start : Nat} {gap : List Char} (hgap : Skipped [] gap) : Tiled line start gap []
  | cons {line start : Nat} {gap text after : List Char} {t : Token} {ts : List Token}
    (hgap : Skipped (text ++ after) gap) (hcut : t.Cut line start gap text)
    (tail : Tiled (line + (gap ++ text).count '\n') (start + size (gap ++ text)) after ts) :
    Tiled line start (gap ++ (text ++ after)) (t :: ts)

theorem Tiled.behind_skipped {line start : Nat} {c : Char} {cs rest : List Char} {p : Piece}
    {ts : List Token} (hp : firstPiece c cs = .ok (p, rest)) (hkind : p.kind = none)
    (h : Tiled (line + p.breaks) (start + size p.text) rest ts) :
    Tiled line start (p.text ++ rest) ts := by
  cases h with
  | nil hgap => exact .nil (skipped_append hp hkind (List.append_nil rest).symm hgap)
  | @cons _ _ gap text after t ts hgap hcut tail =>
    rw [← List.append_assoc]
    refine .cons (skipped_append hp hkind rfl hgap) hcut.behind ?_
    rw [List.append_assoc, List.count_append, size_append, ← Nat.add_assoc, ← Nat.add_assoc]
    exact tail

theorem tiled_of_tokensFrom (line start : Nat) (cs : List Char) {ts : List Token}
    (h : tokensFrom line start cs = .ok ts) : Tiled line start cs ts := by
  fun_induction tokensFrom line start cs generalizing ts with
  | case1 =>
    obtain rfl := Except.ok.inj h
    exact .nil .nil
  | case2 => cases h
  | case3 line start c cs p rest hp _ ih =>
    rcases hrest : tokensFrom (line + p.breaks) (start + size p.text) rest with e | us <;>
      rw [hrest] at h
    · cases h
    obtain rfl := Except.ok.inj h
    rw [← firstPiece_append hp]
    rcases htoken : p.token? line start with _ | t
    · have hkind : p.kind = none := by simpa [Piece.token?] using htoken
      exact (ih hrest).behind_skipped hp hkind
    · exact .cons .nil (cut_token? hp line start t htoken) (ih hrest)

/-- The bytes between tokens, from the first byte of a text to the last, as pairs of offsets. -/
def Token.gaps (start stop : Nat) : List Token → List (Nat × Nat)
  | [] => [(start, stop)]
  | t :: ts => (start, t.start) :: gaps t.stop stop ts

theorem Tiled.gaps {line start : Nat} {cs : List Char} {ts : List Token}
    (h : Tiled line start cs ts) : ∀ p ∈ Token.gaps start (start + size cs) ts,
      ∃ before text after, cs = before ++ text ++ after ∧ p.1 = start + size before ∧
        p.2 = start + size (before ++ text) ∧ Skipped after text := by
  induction h with
  | @nil line start gap hgap =>
    intro p hp
    obtain rfl := List.mem_singleton.1 hp
    exact ⟨[], gap, [], by simp, rfl, rfl, hgap⟩
  | @cons line start gap text after t ts hgap hcut tail ih =>
    intro p hp
    rcases List.mem_cons.1 hp with rfl | hp
    · exact ⟨[], gap, text ++ after, by simp, rfl, hcut.start_eq, hgap⟩
    · have hsize : start + size (gap ++ (text ++ after)) =
          start + size (gap ++ text) + size after := by
        rw [← List.append_assoc, size_append (gap ++ text), Nat.add_assoc]
      rw [hcut.stop_eq, hsize] at hp
      obtain ⟨before, skipped, more, rfl, hfst, hsnd, hskipped⟩ := ih p hp
      refine ⟨gap ++ text ++ before, skipped, more, by simp, ?_, ?_, hskipped⟩
      · rw [hfst, size_append (gap ++ text), Nat.add_assoc]
      · rw [hsnd, List.append_assoc (gap ++ text), size_append (gap ++ text), Nat.add_assoc]

/-! ## Bytes -/

/-- The bytes of a source from one offset up to another are characters, and so are those before and
behind them. -/
structure Between (source : List UInt8) (start stop : Nat) (text after : List Char) : Prop where
  bytes_eq : ∃ before, source = bytesOf before ++ bytesOf text ++ bytesOf after ∧
    start = (bytesOf before).length
  stop_eq : stop = start + (bytesOf text).length

theorem between_of_append (before text after : List Char) :
    Between (bytesOf (before ++ text ++ after)) (size before) (size (before ++ text)) text after
    where
  bytes_eq := ⟨before, by rw [bytesOf_append, bytesOf_append], (length_bytesOf before).symm⟩
  stop_eq := by rw [size_append, length_bytesOf]

theorem Token.Cut.line_eq_count {before text after : List Char} {t : Token}
    (h : t.Cut 1 0 before text) :
    t.line = 1 + ((bytesOf (before ++ text ++ after)).take t.start).count 0x0a := by
  rw [h.line_eq, h.start_eq, Nat.zero_add, ← length_bytesOf, List.append_assoc, bytesOf_append,
    List.take_left, count_bytesOf]

theorem Token.Cut.stop_le {before text : List Char} (after : List Char) {t : Token}
    (h : t.Cut 1 0 before text) : t.stop ≤ (bytesOf (before ++ text ++ after)).length := by
  rw [h.stop_eq, length_bytesOf, size_append (before ++ text)]
  omega

/-- Tokens that make up the bytes of a source, together with what is skipped between them. -/
structure Tiles (source : List UInt8) (ts : List Token) : Prop where
  nonempty : ∀ t ∈ ts, t.start < t.stop
  ordered : ts.Pairwise fun t u => t.stop ≤ u.start
  inside : ∀ t ∈ ts, t.stop ≤ source.length
  line_eq : ∀ t ∈ ts, t.line = 1 + (source.take t.start).count 0x0a
  /-- A token is made of whole characters, which are read as one such token if they stand alone. -/
  alone : ∀ t ∈ ts, ∃ text after, Between source t.start t.stop text after ∧
    ∃ u, tokens text = .ok [u] ∧ u.kind = t.kind
  skipped : ∀ p ∈ Token.gaps 0 source.length ts, ∃ text after,
    Between source p.1 p.2 text after ∧ Skipped after text

/-- A source that can be cut into tokens is tiled by them. -/
theorem tokens_tile {source : List UInt8} {cs : List Char} {ts : List Token}
    (hcs : Text.Utf8.decode source = .ok cs) (hts : tokens cs = .ok ts) : Tiles source ts := by
  obtain rfl := Text.Utf8.eq_bytesOf_of_decode hcs
  have hcut := tokensFrom_cut 1 0 cs hts
  refine ⟨fun t ht => ?_, (tokensFrom_pairwise 1 0 cs hts).imp And.left, fun t ht => ?_,
    fun t ht => ?_, fun t ht => ?_, fun p hp => ?_⟩
  · obtain ⟨before, text, after, -, h⟩ := hcut t ht
    exact h.start_lt
  · obtain ⟨before, text, after, rfl, h⟩ := hcut t ht
    exact h.stop_le after
  · obtain ⟨before, text, after, rfl, h⟩ := hcut t ht
    exact h.line_eq_count
  · obtain ⟨before, text, after, rfl, h⟩ := hcut t ht
    obtain ⟨us, hus, hkinds⟩ := h.alone 1 0
    obtain ⟨u, rfl, hu⟩ := List.map_eq_singleton_iff.1 hkinds
    have hbetween := between_of_append before text after
    rw [← Nat.zero_add (size before), ← h.start_eq, ← Nat.zero_add (size (before ++ text)),
      ← h.stop_eq] at hbetween
    exact ⟨text, after, hbetween, u, hus, hu⟩
  · rw [length_bytesOf, ← Nat.zero_add (size cs)] at hp
    obtain ⟨before, text, after, rfl, hfst, hsnd, hskipped⟩ :=
      (tiled_of_tokensFrom 1 0 cs hts).gaps p hp
    rw [hfst, hsnd, Nat.zero_add, Nat.zero_add]
    exact ⟨text, after, between_of_append before text after, hskipped⟩

/-- Tokens of every kind, with characters of two bytes in a name, in a comment and behind a
backslash. -/
def crowded : List UInt8 :=
  Text.Utf8.encode "é/*é*/'\\é'\t// x\n/*\n*/.../0x1F<-\x60\n\x60\r"

def crowdedTokens : List Token :=
  [⟨.ident "é", 1, 0, 2⟩, ⟨.str, 1, 8, 13⟩, ⟨.newline, 1, 18, 19⟩, ⟨.newline, 2, 19, 24⟩,
    ⟨.ellipsis, 3, 24, 27⟩, ⟨.punct '/', 3, 27, 28⟩, ⟨.number (some 31), 3, 28, 32⟩,
    ⟨.arrow, 3, 32, 34⟩, ⟨.str, 3, 34, 37⟩]

theorem tokens_tile_crowded :
    (∃ cs, Text.Utf8.decode crowded = .ok cs ∧ tokens cs = .ok crowdedTokens) ∧
      (Token.gaps 0 crowded.length crowdedTokens).filter (fun p => p.1 < p.2) =
        [(2, 8), (13, 18), (37, 38)] ∧
      Tiles crowded crowdedTokens := by
  have hcs : Text.Utf8.decode crowded =
      .ok "é/*é*/'\\é'\t// x\n/*\n*/.../0x1F<-\x60\n\x60\r".toList := by decide +kernel
  have hts : tokens "é/*é*/'\\é'\t// x\n/*\n*/.../0x1F<-\x60\n\x60\r".toList =
      .ok crowdedTokens := by decide +kernel
  exact ⟨⟨_, hcs, hts⟩, by decide +kernel, tokens_tile hcs hts⟩

end StructPadding.Go

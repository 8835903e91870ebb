import Mathlib.Data.List.Forall2
import StructPadding.Proofs.Extracted
import StructPadding.Proofs.Located
import StructPadding.Proofs.Parsed

/-!
# The lines of a struct

A struct has the lines of its declaration, from the token of the name to the last token of the type
(`Span`). The parser never goes back, so spans do not overlap, and a diff numbers the lines of the
source as the scanner does: `extract_lines` finds both ends of a struct in the lines of a diff.
-/

namespace StructPadding.Go

open Text.Utf8 (bytesOf)

namespace TypeExpr

theorem fieldsWith_last {source : List Char} {steps : Nat} {c c' : Cursor}
    {fs : List (FieldDecl TypeExpr)} (h : fieldsWith source steps c = .ok (fs, c')) :
    ∃ t, c'.last = some t ∧ t.kind = .punct '\x7d' := by
  induction steps generalizing c fs with
  | zero =>
    rw [fieldsWith] at h
    cases h
  | succ steps ih =>
    rw [fieldsWith] at h
    simp only [] at h
    split_ifs at h with _ hclose
    · cases h
    · obtain ⟨-, rfl⟩ := Prod.mk.inj (Except.ok.inj h)
      obtain ⟨t, ht, hkind⟩ := Option.map_eq_some_iff.1 (Cursor.atPunct_iff.1 hclose)
      obtain ⟨rest, hrest⟩ := List.head?_eq_some_iff.1 ht
      exact ⟨t, by simp [Cursor.advance, hrest], hkind⟩
    · obtain ⟨⟨field, after⟩, -, h⟩ := bind_eq_ok.1 h
      obtain ⟨_, -, h⟩ := bind_eq_ok.1 h
      obtain ⟨⟨rest, stop⟩, hrest, h⟩ := bind_eq_ok.1 h
      obtain ⟨-, rfl⟩ := Prod.mk.inj (Except.ok.inj h)
      exact ih hrest

/-- A struct literal ends with its closing brace. -/
theorem parse_struct_last {source : List Char} {c c' : Cursor} {t : TypeExpr}
    (h : parse source c = .ok (t, c')) (hc : c.peek = some (.ident "struct")) :
    ∃ t, c'.last = some t ∧ t.kind = .punct '\x7d' := by
  obtain ⟨token, htoken, hkind⟩ := Option.map_eq_some_iff.1 hc
  obtain ⟨rest, hrest⟩ := List.head?_eq_some_iff.1 htoken
  rw [parse, enough, parseWith] at h
  simp only [hrest, hkind] at h
  obtain ⟨inside, -, h⟩ := bind_eq_ok.1 h
  obtain ⟨⟨fields, after⟩, hfields, h⟩ := bind_eq_ok.1 h
  obtain ⟨-, rfl⟩ := Prod.mk.inj (Except.ok.inj h)
  exact fieldsWith_last hfields

end TypeExpr

/-- A declaration, with the tokens of a source that it goes from and to. -/
structure Span where
  decl : TypeDecl
  name : Token
  last : Token

/-- The declaration is read from the token of its name on. Its type is what stands behind some
tokens and ends with the last token of the span. -/
structure Span.Stands (source : List Char) (ts : List Token) (s : Span) : Prop where
  name_eq : s.name.kind = .ident s.decl.name
  tokens_eq : ∃ before params type after,
    ts = before ++ s.name :: (params ++ (type ++ s.last :: after)) ∧
      (∃ prev, TypeDecl.parse source ⟨prev, s.name :: (params ++ (type ++ s.last :: after))⟩ =
        .ok (s.decl, ⟨some s.last, after⟩)) ∧
      (∃ prev, TypeExpr.parse source ⟨prev, type ++ s.last :: after⟩ =
        .ok (s.decl.type, ⟨some s.last, after⟩)) ∧
      (type.head?.map Token.kind = some (.ident "struct") → s.last.kind = .punct '\x7d')
  last_ne : s.last.kind ≠ .newline
  lines_eq : s.decl.lines = ⟨s.name.line, s.last.line⟩

theorem exists_span {source : List Char} {ts : List Token} {c c' : Cursor} {d : TypeDecl}
    (hts : c.rest <:+ ts) (h : TypeDecl.parse source c = .ok (d, c')) :
    ∃ s : Span, s.decl = d ∧ s.Stands source ts ∧
      ∃ read, c.rest = s.name :: (read ++ s.last :: c'.rest) := by
  obtain ⟨hpeek, hlines, start, hstart, htype⟩ := TypeDecl.parse_eq_ok h
  obtain ⟨name, hname, hkind⟩ := Option.map_eq_some_iff.1 hpeek
  obtain ⟨rest, hrest⟩ := List.head?_eq_some_iff.1 hname
  obtain ⟨before, rfl⟩ := hts
  obtain ⟨type, last, htokens, hlast, hnewline⟩ := ((TypeExpr.reliable source _).read htype).1
  obtain ⟨params, hparams⟩ := hstart
  rw [Cursor.advance, hrest] at hparams
  have hread : c.rest = name :: (params ++ (type ++ last :: c'.rest)) := by
    rw [hrest, ← htokens, hparams]
  have hstop : c' = ⟨some last, c'.rest⟩ := by rw [← hlast]
  refine ⟨⟨d, name, last⟩, rfl,
    ⟨hkind, ⟨before, params, type, c'.rest, ?_, ?_, ?_, ?_⟩, hnewline, ?_⟩, params ++ type,
    by simp [hread]⟩
  · rw [hread]
  · refine ⟨c.last, ?_⟩
    rw [← hread, ← hstop]
    exact h
  · refine ⟨start.last, ?_⟩
    rw [← htokens, ← hstop]
    exact htype
  · intro hstruct
    have hword : start.peek = some (.ident "struct") := by
      obtain ⟨u, hu, hkind⟩ := Option.map_eq_some_iff.1 hstruct
      simp [Cursor.peek, htokens, hu, hkind]
    obtain ⟨t, ht, hbrace⟩ := TypeExpr.parse_struct_last htype hword
    obtain rfl : last = t := Option.some.inj (hlast.symm.trans ht)
    exact hbrace
  · rw [hlines]
    simp [Cursor.line, Cursor.lastLine, hrest, hlast]

theorem exists_spans {source : List Char} {ts : List Token} {c c' : Cursor} {ds : List TypeDecl}
    (h : TypeDecl.InOrder source c ds c') (hts : c.rest <:+ ts)
    (hbefore : c.rest.Pairwise Token.Before) :
    ∃ spans : List Span, spans.map Span.decl = ds ∧
      (∀ s ∈ spans, s.Stands source ts ∧ s.name ∈ c.rest ∧ s.name.Before s.last) ∧
      spans.Pairwise fun s t => s.last.Before t.name := by
  induction h with
  | nil => exact ⟨[], rfl, by simp, .nil⟩
  | @cons c start stop c' d ds hstart hd _ ih =>
    obtain ⟨s, rfl, hs, read, hread⟩ := exists_span (hstart.trans hts) hd
    have hsuffix : stop.rest <:+ start.rest := (TypeDecl.past_of_parse hd).suffix
    have hordered := hbefore.sublist hstart.sublist
    obtain ⟨spans, hspans, hall, hpairwise⟩ :=
      ih (hsuffix.trans (hstart.trans hts)) (hordered.sublist hsuffix.sublist)
    rw [hread] at hordered
    obtain ⟨hname, hrest⟩ := List.pairwise_cons.1 hordered
    obtain ⟨-, hlast, -⟩ := List.pairwise_append.1 hrest
    refine ⟨s :: spans, by simp [hspans], ?_, .cons ?_ hpairwise⟩
    · intro t ht
      rcases List.mem_cons.1 ht with rfl | ht
      · exact ⟨hs, hstart.subset (by simp [hread]), hname _ (by simp)⟩
      · obtain ⟨hstands, hmem, hends⟩ := hall t ht
        exact ⟨hstands, hstart.subset (hsuffix.subset hmem), hends⟩
    · intro t ht
      exact (List.pairwise_cons.1 hlast).1 _ (hall t ht).2.1

theorem extract_spans {target : Target} {rule : RecordRule} {path : String} {source : List UInt8}
    {layouts : List Layout} (h : (extract target rule path source).value = .ok layouts) :
    ∃ cs ts decls, ∃ spans : List Span, Text.Utf8.decode source = .ok cs ∧ tokens cs = .ok ts ∧
      TypeDecl.parseAll cs ts = .ok decls ∧ (spans.map Span.decl).Sublist decls ∧
      (∀ s ∈ spans, s.Stands cs ts ∧ s.name.Before s.last) ∧
      spans.Pairwise (fun s t => s.last.Before t.name) ∧
      layouts.map (fun l => (l.name, l.lines)) =
        spans.map fun s => (s.decl.name, s.decl.lines) := by
  obtain ⟨cs, decls, hcs, hdecls, -, hlaid⟩ := extract_eq_ok h
  have hdecode : Text.Utf8.decode source = .ok cs := by
    unfold sourceChars at hcs
    split at hcs
    · obtain rfl := Except.ok.inj hcs
      assumption
    · cases hcs
  obtain ⟨ts, hts, hparse⟩ := exists_tokens hdecls
  obtain ⟨stop, horder⟩ := TypeDecl.inOrder_of_parseFrom hparse
  obtain ⟨spans, rfl, hall, hpairwise⟩ :=
    exists_spans horder List.suffix_rfl (tokensFrom_pairwise 1 0 cs hts)
  have hsublist := hlaid.sublist
  rw [List.map_map] at hsublist
  obtain ⟨found, hfound, hlayouts⟩ := List.sublist_map_iff.1 hsublist
  exact ⟨cs, ts, _, found, hdecode, hts, hparse, hfound.map _,
    fun s hs => ⟨(hall s (hfound.subset hs)).1, (hall s (hfound.subset hs)).2.2⟩,
    hpairwise.sublist hfound, hlayouts⟩

theorem Span.Stands.mem {source : List Char} {ts : List Token} {s : Span} (h : s.Stands source ts) :
    s.name ∈ ts ∧ s.last ∈ ts := by
  obtain ⟨before, params, type, after, rfl, -⟩ := h.tokens_eq
  simp

/-- The lines of a layout are those of a split source that its declaration goes from and to: the one
with the name, and the one with the first byte of the last token. -/
structure Span.Covers (source : List UInt8) (s : Span) (l : Layout) : Prop where
  name_eq : l.name = s.decl.name
  first_pos : 1 ≤ l.lines.first
  first_le : l.lines.first ≤ l.lines.last
  last_le : l.lines.last ≤ (Diff.splitLines source).length
  name_at : Diff.HasAt source l.lines.first s.name.start (bytesOf l.name.toList)
  last_at : ∃ byte, Diff.HasAt source l.lines.last s.last.start [byte] ∧
    (s.last.kind = .punct '\x7d' → byte = 0x7d)

theorem covers_of_stands {source : List UInt8} {cs : List Char} {ts : List Token} {s : Span}
    {l : Layout} (hcs : Text.Utf8.decode source = .ok cs) (hts : tokens cs = .ok ts)
    (h : s.Stands cs ts) (hbefore : s.name.Before s.last) (hname : l.name = s.decl.name)
    (hlines : l.lines = s.decl.lines) : s.Covers source l := by
  have hrange : l.lines = ⟨s.name.line, s.last.line⟩ := hlines.trans h.lines_eq
  have hfirst : Diff.HasAt source l.lines.first s.name.start (bytesOf l.name.toList) := by
    rw [hrange, hname]
    exact hasAt_of_name hcs hts h.mem.1 h.name_eq
  have hle : l.lines.first ≤ l.lines.last := by
    rw [hrange]
    exact hbefore.2
  obtain ⟨byte, hlast, hpunct⟩ := hasAt_of_kind hcs hts h.mem.2 h.last_ne
  rw [show s.last.line = l.lines.last by rw [hrange]] at hlast
  exact ⟨hname, hfirst.line_pos, hle, hlast.line_le, hfirst, byte, hlast,
    fun hbrace => (Option.some.inj (hpunct _ hbrace)).symm⟩

theorem extract_covers {target : Target} {rule : RecordRule} {path : String}
    {source : List UInt8} {layouts : List Layout}
    (h : (extract target rule path source).value = .ok layouts) {l : Layout} (hl : l ∈ layouts) :
    ∃ s : Span, s.Covers source l := by
  obtain ⟨cs, ts, decls, spans, hcs, hts, -, -, hall, -, hlayouts⟩ := extract_spans h
  have hrow : (l.name, l.lines) ∈ layouts.map fun l => (l.name, l.lines) :=
    List.mem_map_of_mem hl
  rw [hlayouts] at hrow
  obtain ⟨s, hs, heq⟩ := List.mem_map.1 hrow
  obtain ⟨hname, hlines⟩ := Prod.mk.inj heq
  exact ⟨s, covers_of_stands hcs hts (hall s hs).1 (hall s hs).2 hname.symm hlines.symm⟩

/-- The structs of a source come in the order of their declarations, none of which overlap, and
their lines are the lines of a diff. -/
theorem extract_lines {target : Target} {rule : RecordRule} {path : String} {source : List UInt8}
    {layouts : List Layout} (h : (extract target rule path source).value = .ok layouts) :
    ∃ cs ts decls, ∃ spans : List Span, Text.Utf8.decode source = .ok cs ∧ tokens cs = .ok ts ∧
      TypeDecl.parseAll cs ts = .ok decls ∧ (spans.map Span.decl).Sublist decls ∧
      (∀ s ∈ spans, s.Stands cs ts) ∧ List.Forall₂ (Span.Covers source) spans layouts ∧
      spans.Pairwise (fun s t => s.last.Before t.name) ∧
      layouts.Pairwise fun l m => l.lines.last ≤ m.lines.first := by
  obtain ⟨cs, ts, decls, spans, hcs, hts, hparse, hdecls, hall, hpairwise, hlayouts⟩ :=
    extract_spans h
  have hrows : List.Forall₂ (fun (s : Span) (l : Layout) => (s.decl.name, s.decl.lines) =
      (l.name, l.lines)) spans layouts := by
    rw [eq_comm, ← List.forall₂_eq_eq_eq, List.forall₂_map_left_iff, List.forall₂_map_right_iff]
      at hlayouts
    exact hlayouts
  refine ⟨cs, ts, decls, spans, hcs, hts, hparse, hdecls, fun s hs => (hall s hs).1, ?_, hpairwise,
    ?_⟩
  · refine ((List.forall₂_and_left _ _).2 ⟨hall, hrows⟩).imp fun s l hsl => ?_
    obtain ⟨⟨hs, hbefore⟩, hrow⟩ := hsl
    obtain ⟨hname, hlines⟩ := Prod.mk.inj hrow
    exact covers_of_stands hcs hts hs hbefore hname.symm hlines.symm
  · suffices h : (layouts.map fun l => (l.name, l.lines)).Pairwise fun p q => p.2.last ≤ q.2.first
      from List.pairwise_map.1 h
    rw [hlayouts, List.pairwise_map]
    refine hpairwise.imp_of_mem fun hs ht hst => ?_
    rw [(hall _ hs).1.lines_eq, (hall _ ht).1.lines_eq]
    exact hst.2

/-- Two structs that share a line, behind a comment and around a literal with line breaks. -/
def sharedLine : List UInt8 :=
  Text.Utf8.encode ("/* a\nb */ type T struct \x7b\n\tn int32 \x60x\ny\x60\n\x7d; " ++
    "type U struct \x7b b bool \x7d\n")

theorem extract_lines_shared :
    ∃ layouts, (extract ⟨8⟩ .standard "p.go" sharedLine).value = .ok layouts ∧
      layouts.map (fun l => (l.name, l.lines)) = [("T", ⟨2, 5⟩), ("U", ⟨5, 5⟩)] ∧
      ∃ cs ts decls, ∃ spans : List Span, Text.Utf8.decode sharedLine = .ok cs ∧
        tokens cs = .ok ts ∧ TypeDecl.parseAll cs ts = .ok decls ∧
        (spans.map Span.decl).Sublist decls ∧ (∀ s ∈ spans, s.Stands cs ts) ∧
        List.Forall₂ (Span.Covers sharedLine) spans layouts ∧
        spans.Pairwise (fun s t => s.last.Before t.name) ∧
        layouts.Pairwise fun l m => l.lines.last ≤ m.lines.first := by
  have hextract : ((extract ⟨8⟩ .standard "p.go" sharedLine).value.toOption.map fun ls =>
      ls.map fun l => (l.name, l.lines)) = some [("T", ⟨2, 5⟩), ("U", ⟨5, 5⟩)] := by decide +kernel
  rcases hlayouts : (extract ⟨8⟩ .standard "p.go" sharedLine).value with e | layouts <;>
    rw [hlayouts] at hextract
  · cases hextract
  · exact ⟨layouts, rfl, Option.some.inj hextract, extract_lines hlayouts⟩

end StructPadding.Go

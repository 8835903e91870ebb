import StructPadding.Proofs.Comments
import StructPadding.Proofs.Replaced
import StructPadding.Proofs.Spans

/-!
# Where a review breaks off

Nothing can be looked up between the lines of a struct that ends before it starts, and no proposal
can be shown with a name that is wider than a column. There a review breaks off, and nowhere else
(`review_breaks_iff`). The first happens only in a manifest, since the structs of a Go source never
end before they start. Whatever else could be out of reach is not: each search of a diff stays
within its buffers, and the text of a type is a slice of its source.
-/

namespace StructPadding

namespace Go

/-- The text from the first to the last token of a type is what the parser quotes of it. -/
theorem sourceText_of_parseWith {source : List Char} {ts : List Token}
    (hts : tokens source = .ok ts) {steps : Nat} {c c' : Cursor} {type : TypeExpr}
    (hc : c.rest <:+ ts) (h : TypeExpr.parseWith source steps c = .ok (type, c')) :
    ∃ t ∈ c.rest.head?, ∃ u ∈ c'.last, ∃ text, IsSlice source t.start u.stop text ∧
      sourceText source t.start c' = String.ofList (oneLine text) := by
  obtain ⟨read, u, hread, hlast, -⟩ := ((TypeExpr.reliable source steps).read h).1
  have hu : u ∈ ts := hc.subset (by simp [hread])
  obtain ⟨t, ht, hend⟩ : ∃ t ∈ c.rest.head?, t = u ∨ t.Before u := by
    rcases read with _ | ⟨t, read⟩
    · exact ⟨u, by simp [hread], .inl rfl⟩
    · have hordered := (tokensFrom_pairwise 1 0 source hts).sublist hc.sublist
      rw [hread, List.cons_append, List.pairwise_cons] at hordered
      exact ⟨t, by simp [hread], .inr (hordered.1 u (by simp))⟩
  obtain ⟨text, htext⟩ := exists_slice hts (hc.subset (List.mem_of_mem_head? ht)) hu hend
  refine ⟨t, ht, u, hlast, text, htext, ?_⟩
  simp only [sourceText, hlast, Option.map_some, Option.getD_some, htext.takeBytes_eq]

end Go

namespace Review

open Diff (changedLines splitLines maxEdits)

/-- The structs of a new Go file are all touched. -/
theorem touched_of_new {source : List UInt8} {s : Go.Span} {l : Layout}
    (h : s.Covers source l) : (changedLines [] source).any l.lines.contains := by
  by_contra hnone
  have hout : ∀ t ∈ changedLines [] source, ¬(l.lines.first ≤ t ∧ t ≤ l.lines.last) := by
    simpa [LineRange.contains] using hnone
  obtain ⟨j, hj⟩ := Diff.verbatim_of_untouched h.first_pos h.last_le hout
  obtain ⟨line, hline, -⟩ := hj 0 h.first_le
  simp [splitLines] at hline

theorem touches_error_iff {lines : List Nat} {l : Layout} :
    (∃ e, touches lines l = .error e) ↔ lines ≠ [] ∧ l.lines.last < l.lines.first := by
  unfold touches
  split_ifs with hempty hinverted
  · simp [List.isEmpty_iff.1 hempty]
  · simpa [hinverted] using hempty
  · simp [hinverted]

theorem touched_error_iff {lines : List Nat} {ls : List Layout} :
    (∃ e, touched lines ls = .error e) ↔
      lines ≠ [] ∧ ∃ l ∈ ls, l.lines.last < l.lines.first := by
  induction ls with
  | nil => simp [touched]
  | cons l ls ih =>
    rw [touched]
    rcases hl : touches lines l with e | hit
    · obtain ⟨hlines, hinverted⟩ := touches_error_iff.1 ⟨e, hl⟩
      exact ⟨fun _ => ⟨hlines, l, List.mem_cons_self, hinverted⟩, fun _ => ⟨e, rfl⟩⟩
    · have hkept : ¬(lines ≠ [] ∧ l.lines.last < l.lines.first) := by
        rw [← touches_error_iff, hl]
        rintro ⟨e, ⟨⟩⟩
      have hcons : (lines ≠ [] ∧ ∃ m ∈ l :: ls, m.lines.last < m.lines.first) ↔
          lines ≠ [] ∧ ∃ m ∈ ls, m.lines.last < m.lines.first := by
        simp only [List.mem_cons, exists_eq_or_imp]
        tauto
      rw [hcons, ← ih]
      rcases touched lines ls with e | rest <;> simp [bind, Except.bind, pure, Except.pure]

theorem reviewEach_error_iff {config : Config} {changes : List FileChange} :
    (∃ e, (reviewEach config changes).value = .error e) ↔
      ∃ change ∈ changes, ∃ e, (commentsFor config change).value = .error e := by
  induction changes with
  | nil => simp [reviewEach]
  | cons change changes ih =>
    unfold reviewEach
    simp only [Journal.value_bind, List.mem_cons, exists_eq_or_imp, ← ih]
    rcases (commentsFor config change).value with e | comments
    · simp
    · rcases hrest : (reviewEach config changes).value with e | rest <;> simp [hrest]

/-- A change whose head version is a manifest with a struct that ends before it starts. The file is
looked at, and some line of it is changed. -/
structure Inverts (config : Config) (change : FileChange) (head : List UInt8) (m : Manifest)
    (layouts : List Layout) : Prop where
  head_eq : change.head = some head
  kept : (config.excludeVendored && Path.isVendored change.path) = false
  manifest : isManifest change.path = true
  decoded : Json.decodeText Manifest.ofNode head = .ok m
  laid : m.layouts config.recordRule = .ok layouts
  changed : changedLines (change.base.getD []) head ≠ []
  inverted : ∃ l ∈ layouts, l.check = .ok () ∧ l.lines.last < l.lines.first

/-- A change whose head version has a struct with a name that is too long to be shown. The file is
looked at, some line of the struct is changed, and its proposal has less padding. -/
structure Overruns (config : Config) (change : FileChange) (head : List UInt8)
    (layouts : List Layout) (l proposal : Layout) : Prop where
  head_eq : change.head = some head
  kept : (config.excludeVendored && Path.isVendored change.path) = false
  extracted : (extract config.target config.recordRule change.path head).value = .ok layouts
  mem : l ∈ layouts
  sound : l.check = .ok ()
  touched : (changedLines (change.base.getD []) head).any l.lines.contains
  reordered : l.reorder config.recordRule = .ok proposal
  improved : proposal.padding < l.padding
  long : ∃ name ∈ Field.shownNamesAll l.fields, Text.maxWidth < name.length

theorem exists_error_iff {ε α : Type} {x : Except ε α} : (∃ e, x = .error e) ↔ ¬∃ a, x = .ok a := by
  cases x <;> simp

section Looked

variable {config : Config} {change : FileChange} {head : List UInt8} {layouts : List Layout}
  (hhead : change.head = some head)
  (hkept : (config.excludeVendored && Path.isVendored change.path) = false)
  (hlayouts : (extract config.target config.recordRule change.path head).value = .ok layouts)

include hhead hkept hlayouts

/-- A file that is looked at breaks a review off in one of two ways. -/
theorem commentsFor_error_of_extract : (∃ e, (commentsFor config change).value = .error e) ↔
    (changedLines (change.base.getD []) head ≠ [] ∧
      ∃ l ∈ layouts, l.check = .ok () ∧ l.lines.last < l.lines.first) ∨
    ∃ l proposal, Overruns config change head layouts l proposal := by
  rw [exists_error_iff, exists_commentsFor_iff hhead hkept hlayouts, not_and_or,
    ← exists_error_iff, touched_error_iff]
  refine or_congr (by simp only [List.mem_filter, decide_eq_true_eq, and_assoc]) ⟨fun h => ?_, ?_⟩
  · push Not at h
    obtain ⟨l, hl, hcheck, htouched, hlt, hlong⟩ := h
    exact ⟨l, _, hhead, hkept, hlayouts, hl, hcheck, htouched,
      reorder_of_extract hlayouts l hl, hlt, hlong⟩
  · rintro ⟨l, proposal, h⟩ hshort
    obtain rfl := Except.ok.inj (h.reordered.symm.trans (reorder_of_extract hlayouts l h.mem))
    obtain ⟨name, hname, hlong⟩ := h.long
    have := hshort l h.mem h.sound h.touched h.improved name hname
    omega

end Looked

theorem commentsFor_error_iff {config : Config} {change : FileChange} :
    (∃ e, (commentsFor config change).value = .error e) ↔
      (∃ head m layouts, Inverts config change head m layouts) ∨
        ∃ head layouts l proposal, Overruns config change head layouts l proposal := by
  constructor
  · rintro ⟨e, he⟩
    rcases hhead : change.head with _ | head
    · simp [commentsFor, hhead] at he
    rcases hkept : (config.excludeVendored && Path.isVendored change.path) with _ | _
    · rcases hlayouts : (extract config.target config.recordRule change.path head).value with
        f | layouts
      · simp [commentsFor, hhead, hkept, hlayouts] at he
      rcases (commentsFor_error_of_extract hhead hkept hlayouts).1 ⟨e, he⟩ with
        ⟨hchanged, l, hl, hsound, hinverted⟩ | ⟨l, proposal, h⟩
      · left
        unfold extract at hlayouts
        split_ifs at hlayouts with hmanifest
        · obtain ⟨m, hm, hlaid⟩ := Manifest.extract_eq_ok.1 hlayouts
          exact ⟨head, m, layouts, hhead, hkept, hmanifest, hm, hlaid, hchanged, l, hl, hsound,
            hinverted⟩
        · obtain ⟨s, hs⟩ := Go.extract_covers hlayouts hl
          have := hs.first_le
          omega
      · exact .inr ⟨head, layouts, l, proposal, h⟩
    · simp [commentsFor, hhead, hkept] at he
  · rintro (⟨head, m, layouts, h⟩ | ⟨head, layouts, l, proposal, h⟩)
    · have hlayouts : (extract config.target config.recordRule change.path head).value =
          .ok layouts := by
        rw [extract, if_pos h.manifest]
        exact Manifest.extract_eq_ok.2 ⟨m, h.decoded, h.laid⟩
      exact (commentsFor_error_of_extract h.head_eq h.kept hlayouts).2
        (.inl ⟨h.changed, h.inverted⟩)
    · exact (commentsFor_error_of_extract h.head_eq h.kept h.extracted).2 (.inr ⟨l, proposal, h⟩)

theorem review_error_iff {config : Config} {changes : List FileChange} :
    (∃ e, (review config changes).value = .error e) ↔ ∃ change ∈ changes,
      (∃ head m layouts, Inverts config change head m layouts) ∨
        ∃ head layouts l proposal, Overruns config change head layouts l proposal := by
  simp only [review, Journal.value_bind, reviewEach_error_iff, commentsFor_error_iff]

/-- A new manifest with a struct that starts on line 3 and ends on line 1. -/
def backwards : FileChange where
  path := "m.json"
  base := none
  head := some (Text.Utf8.encode ("\x7b\"structs\": [\x7b\"name\": \"T\", " ++
    "\"lines\": \x7b\"start\": 3, \"end\": 1\x7d, \"fields\": []\x7d]\x7d"))

theorem extract_backwards : ∃ m, Json.decodeText Manifest.ofNode (backwards.head.getD []) = .ok m ∧
    m.layouts .standard = .ok [⟨"T", ⟨3, 1⟩, []⟩] := by
  have h : ((Json.decodeText Manifest.ofNode (backwards.head.getD [])).toOption.bind fun m =>
      (m.layouts .standard).toOption) = some [⟨"T", ⟨3, 1⟩, []⟩] := by decide +kernel
  obtain ⟨m, hm, hlayouts⟩ := Option.bind_eq_some_iff.1 h
  exact ⟨m, eq_ok_of_toOption hm, eq_ok_of_toOption hlayouts⟩

/-- The loose fields without gaps between them. -/
def tightFields (name : String) (byte half : Alignment) : List Field :=
  [.leaf "b" "int64" 0 8 8 .word, .leaf "c" "int32" 8 4 4 half, .leaf name "bool" 12 1 1 byte,
    .padding 13 3]

def tightDescriptors (name : String) : List Descriptor :=
  [.leaf "b" "int64" 8 8, .leaf "c" "int32" 4 4, .leaf name "bool" 1 1]

theorem place_tight (name : String) : place .standard (tightDescriptors name) (0 : UInt64) =
    .ok (tightFields name ⟨⟨0, by decide⟩⟩ ⟨⟨2, by decide⟩⟩) := by
  have hlong : placeField .standard (0 : UInt64) (.leaf "b" "int64" 8 8) =
      .ok ([] ++ [.leaf "b" "int64" 0 8 8 .word]) := by decide +kernel
  have hint : placeField .standard (8 : UInt64) (.leaf "c" "int32" 4 4) =
      .ok ([] ++ [.leaf "c" "int32" 8 4 4 ⟨⟨2, by decide⟩⟩]) := by decide +kernel
  have hflag : placeField .standard (12 : UInt64) (.leaf name "bool" 1 1) =
      .ok ([] ++ [.leaf name "bool" 12 1 1 ⟨⟨0, by decide⟩⟩]) := by
    rw [placeField, Go.check_flag]
    rfl
  have hall : placeSiblings .standard (0 : UInt64) (tightDescriptors name) =
      .ok [.leaf "b" "int64" 0 8 8 .word, .leaf "c" "int32" 8 4 4 ⟨⟨2, by decide⟩⟩,
        .leaf name "bool" 12 1 1 ⟨⟨0, by decide⟩⟩] :=
    placeSiblings_cons hlong (placeSiblings_cons hint (placeSiblings_cons hflag rfl))
  have halign : RecordRule.standard.alignment (tightDescriptors name) = .ok .word := by
    rw [RecordRule.standard, RecordRule.alignment]
    decide +kernel
  have htrailing : trailing .word (0 : UInt64) 13 = [.padding 13 3] := by decide +kernel
  rw [place, hall]
  refine (closeRecord_eq_ok (List.cons_ne_nil _ _)).2 ⟨.word, halign, ?_⟩
  simp [tightFields, widenLast, Field.widen, endOf, Field.stop, Field.start, Field.size, htrailing]

theorem reorder_loose (name : String) (lines : LineRange) :
    Layout.reorder .standard
        ⟨"S", lines, Go.looseFields name ⟨⟨0, by decide⟩⟩ ⟨⟨2, by decide⟩⟩⟩ =
      .ok ⟨"S", lines, tightFields name ⟨⟨0, by decide⟩⟩ ⟨⟨2, by decide⟩⟩⟩ := by
  have hrearranged : Field.rearrangeAll .standard
      (Go.looseFields name ⟨⟨0, by decide⟩⟩ ⟨⟨2, by decide⟩⟩) =
      .ok ([.leaf name "bool" 0 1 1 ⟨⟨0, by decide⟩⟩] ++
        [.leaf "b" "int64" 8 8 8 .word, .leaf "c" "int32" 16 4 4 ⟨⟨2, by decide⟩⟩]) :=
    rfl
  have hstrict : List.Pairwise (fun f g => Field.order f g = .lt)
      [.leaf "b" "int64" 8 8 8 .word, .leaf "c" "int32" 16 4 4 ⟨⟨2, by decide⟩⟩,
        (.leaf name "bool" 0 1 1 ⟨⟨0, by decide⟩⟩ : Field)] :=
    .cons (List.forall_mem_cons.2 ⟨rfl, List.forall_mem_singleton.2 rfl⟩)
      (.cons (List.forall_mem_singleton.2 rfl) (List.pairwise_singleton _ _))
  exact reorder_eq_ok.2 ⟨_, reorderAll_of_strict _ hrearranged List.perm_append_comm hstrict rfl
    (place_tight name), rfl⟩

end Review

end StructPadding

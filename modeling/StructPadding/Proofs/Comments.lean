import StructPadding.Proofs.ChangedLines
import StructPadding.Proofs.Columns
import StructPadding.Proofs.Contiguous
import StructPadding.Proofs.Extracted
import StructPadding.Proofs.Savings
import StructPadding.Review.Comment

/-!
# Nothing is passed over

What is extracted from a file was placed, so it can be placed again in the proposed order, and it
passes the check unless it wrapped around. None of the structs of a file is therefore dropped on the
way to the comments: `comments_complete` says which structs get one, where it stands and what it
says. The base version of a file only adds the notes on grown padding.
-/

namespace StructPadding.Review

open Diff (changedLines)

/-! ## Advice on several declarations -/

theorem consultAll_cons_eq_ok {rule : RecordRule} {reported : Bool} {r : Revised}
    {rs : List Revised} {ss : List Suggestion} {proposal : Layout}
    (h : r.head.reorder rule = .ok proposal) :
    (consultAll rule reported (r :: rs)).value = .ok ss ↔
      ∃ advice rest, suggest? reported r proposal = .ok advice ∧
        (consultAll rule reported rs).value = .ok rest ∧ ss = advice.toList ++ rest := by
  rw [consultAll, Journal.value_bind, consult_value, advise_of_reorder h]
  rcases suggest? reported r proposal with e | advice
  · simp [Except.mapError]
  · rcases hrest : (consultAll rule reported rs).value with e | rest <;>
      simp [Except.mapError, Except.map, hrest, eq_comm]

/-- Declarations get their advice if each proposal with less padding can be shown. -/
theorem consultAll_eq_ok {rule : RecordRule} {reported : Bool} {propose : Layout → Layout}
    {rs : List Revised} {ss : List Suggestion}
    (h : ∀ r ∈ rs, r.head.reorder rule = .ok (propose r.head)) :
    (consultAll rule reported rs).value = .ok ss ↔
      (∀ r ∈ rs, (propose r.head).padding < r.head.padding →
        ∃ text, Go.render (propose r.head) = .ok text) ∧
      ss = (rs.filter fun r => (propose r.head).padding < r.head.padding).map fun r =>
        offer r.head (propose r.head) (regression? reported r) := by
  induction rs generalizing ss with
  | nil => simp [consultAll, eq_comm]
  | cons r rs ih =>
    have hrest := fun ss => @ih ss fun q hq => h q (List.mem_cons_of_mem _ hq)
    rw [consultAll_cons_eq_ok (h r List.mem_cons_self)]
    simp only [suggest?_eq_ok, hrest, List.forall_mem_cons, List.filter_cons]
    constructor
    · rintro ⟨advice, rest, ⟨hr, rfl⟩, ⟨hrs, rfl⟩, rfl⟩
      refine ⟨⟨hr, hrs⟩, ?_⟩
      by_cases hlt : (propose r.head).padding < r.head.padding <;> simp [hlt]
    · rintro ⟨⟨hr, hrs⟩, rfl⟩
      refine ⟨_, _, ⟨hr, rfl⟩, ⟨hrs, rfl⟩, ?_⟩
      by_cases hlt : (propose r.head).padding < r.head.padding <;> simp [hlt]

/-! ## The steps of a review -/

theorem soundLayouts_value (ls : List Layout) :
    (soundLayouts ls).value = ls.filter fun l => l.check = .ok () := by
  induction ls with
  | nil => rfl
  | cons l ls ih =>
    unfold soundLayouts
    rcases hl : l.check with e | u
    · simp only [Journal.value_bind, ih, List.filter_cons, hl]
      rfl
    · simp only [Journal.value_bind, ih, Journal.value_pure, List.filter_cons, hl]
      rfl

theorem commentsOf_value (path : String) (ss : List Suggestion) :
    (commentsOf path ss).value = ss.map fun s => ⟨path, s.line, s.comment Go.fence⟩ := by
  induction ss with
  | nil => rfl
  | cons s ss ih =>
    unfold commentsOf
    simp only [Journal.value_bind, ih, Journal.value_pure, List.map_cons]

theorem eq_any_of_touches {lines : List Nat} {l : Layout} {hit : Bool}
    (h : touches lines l = .ok hit) : hit = lines.any l.lines.contains := by
  unfold touches at h
  split_ifs at h with hempty hinverted
  · rw [List.isEmpty_iff] at hempty
    obtain rfl := Except.ok.inj h
    simp [hempty]
  · exact (Except.ok.inj h).symm

theorem eq_filter_of_touched {lines : List Nat} : ∀ {ls hits : List Layout},
    touched lines ls = .ok hits → hits = ls.filter fun l => lines.any l.lines.contains
  | [], hits, h => (Except.ok.inj h).symm
  | l :: ls, hits, h => by
    obtain ⟨hit, rest, hl, hrest, rfl⟩ := touched_cons_eq_ok h
    rw [List.filter_cons, ← eq_any_of_touches hl, ← eq_filter_of_touched hrest]

/-! ## Comments -/

/-- The comment on a declaration, given its proposed layout and how its padding grew. -/
def remark (path : String) (l proposal : Layout) (growth : Option Regression) : Comment where
  file := path
  line := l.lines.first
  text := (offer l proposal growth).comment Go.fence

/-- A note on grown padding stands between the same words that are there without it. -/
theorem remark_text_some (path : String) (l proposal : Layout) (r : Regression) :
    ∃ opening closing : String, (remark path l proposal none).text = opening ++ closing ∧
      (remark path l proposal (some r)).text = opening ++
        s!"\nThis change grows the padding of `{l.name}` from {r.before} to {r.after} bytes.\n" ++
          closing := by
  unfold remark offer Suggestion.comment
  dsimp only
  refine ⟨_, _, ?_, rfl⟩
  rw [String.append_empty]

/-! ## Reviews -/

theorem check_of_extract {target : Go.Target} {rule : RecordRule} {path : String}
    {source : List UInt8} {layouts : List Layout}
    (h : (extract target rule path source).value = .ok layouts) {l : Layout} (hl : l ∈ layouts)
    (hfits : l.Fits rule) : l.check = .ok () := by
  obtain ⟨ds, hds⟩ := extract_placed h l hl
  exact check_of_place hds (hfits.of_place hds)

theorem filter_check_of_extract {target : Go.Target} {rule : RecordRule} {path : String}
    {source : List UInt8} {layouts : List Layout}
    (h : (extract target rule path source).value = .ok layouts)
    (hfits : ∀ l ∈ layouts, l.Fits rule) :
    layouts.filter (fun l => l.check = .ok ()) = layouts :=
  List.filter_eq_self.2 fun l hl => decide_eq_true (check_of_extract h hl (hfits l hl))

theorem baseLayouts_value_of_ok {config : Config} {change : FileChange} {base : List UInt8}
    {ls : List Layout} (hbase : change.base = some base)
    (h : (extract config.target config.recordRule change.path base).value = .ok ls)
    (hfits : ∀ l ∈ ls, l.Fits config.recordRule) :
    (baseLayouts config change).value = ls := by
  unfold baseLayouts
  simp only [hbase, Journal.value_bind, h, soundLayouts_value, filter_check_of_extract h hfits]

/-- Without a base version, or with one that nothing can be extracted from, all structs are new. -/
theorem baseLayouts_value_of_not_ok {config : Config} {change : FileChange}
    (h : ∀ base ∈ change.base, ∃ e,
      (extract config.target config.recordRule change.path base).value = .error e) :
    (baseLayouts config change).value = [] := by
  unfold baseLayouts
  rcases hbase : change.base with _ | base
  · rfl
  · obtain ⟨e, he⟩ := h base hbase
    simp only [Journal.value_bind, he, Journal.value_pure]

theorem commentsOn_eq_ok {config : Config} {change : FileChange} {head : List UInt8}
    {ls : List Layout} {comments : List Comment} :
    (commentsOn config change head ls).value = .ok comments ↔
      ∃ hits ss, touched (changedLines (change.base.getD []) head) ls = .ok hits ∧
        (consultAll config.recordRule config.reportRegressions
          (hits.map (pair (baseLayouts config change).value))).value = .ok ss ∧
        comments = ss.map fun s => ⟨change.path, s.line, s.comment Go.fence⟩ := by
  unfold commentsOn revisions revised
  simp only [Journal.value_bind, Journal.value_pure]
  rcases touched (changedLines (change.base.getD []) head) ls with e | hits
  · simp [bind, Except.bind]
  simp only [bind, Except.bind, pure, Except.pure]
  rcases hss : (consultAll config.recordRule config.reportRegressions _).value with e | ss
  · simp [hss]
  · simp [hss, commentsOf_value, eq_comm]

section Touched

variable {rule : RecordRule} {ls : List Layout} {propose : Layout → Layout}
  (h : ∀ l ∈ ls, l.reorder rule = .ok (propose l))

include h

/-- Advice on the touched declarations. -/
theorem consultAll_touched {reported : Bool} {lines : List Nat} {before hits : List Layout}
    {ss : List Suggestion} (hhits : touched lines ls = .ok hits) :
    (consultAll rule reported (hits.map (pair before))).value = .ok ss ↔
      (∀ l ∈ ls, lines.any l.lines.contains → (propose l).padding < l.padding →
        ∃ text, Go.render (propose l) = .ok text) ∧
      ss = (ls.filter fun l => lines.any l.lines.contains &&
          (propose l).padding < l.padding).map fun l =>
        offer l (propose l) (regression? reported (pair before l)) := by
  obtain rfl := eq_filter_of_touched hhits
  have hreorder : ∀ r ∈ (ls.filter fun l => lines.any l.lines.contains).map (pair before),
      r.head.reorder rule = .ok (propose r.head) := by
    rw [List.forall_mem_map]
    exact fun l hl => h l (List.mem_of_mem_filter hl)
  have hboth : (ls.filter fun l => lines.any l.lines.contains).filter
      (fun l => (propose l).padding < l.padding) = ls.filter fun l =>
        lines.any l.lines.contains && (propose l).padding < l.padding := by
    rw [List.filter_filter]
    simp only [Bool.and_comm]
  rw [consultAll_eq_ok hreorder, List.forall_mem_map, List.filter_map, List.map_map, ← hboth]
  simp only [List.mem_filter, and_imp]
  exact Iff.rfl

end Touched

theorem commentsFor_value {config : Config} {change : FileChange} {head : List UInt8}
    {layouts : List Layout} (hhead : change.head = some head)
    (hkept : (config.excludeVendored && Path.isVendored change.path) = false)
    (hlayouts : (extract config.target config.recordRule change.path head).value = .ok layouts) :
    (commentsFor config change).value =
      (commentsOn config change head (layouts.filter fun l => l.check = .ok ())).value := by
  unfold commentsFor
  simp only [hhead, hkept, Bool.false_eq_true, ↓reduceIte, Journal.value_bind, hlayouts,
    soundLayouts_value]

/-- The proposed layout of a declaration, or the declaration itself if there is none. -/
def proposed (rule : RecordRule) (l : Layout) : Layout :=
  match l.reorder rule with
  | .ok proposal => proposal
  | .error _ => l

theorem reorder_eq_proposed {rule : RecordRule} {ds : List Descriptor} {l : Layout}
    (h : place rule ds (0 : UInt64) = .ok l.fields) :
    l.reorder rule = .ok (proposed rule l) := by
  obtain ⟨es, proposal, hproposal, -⟩ := reorder_places h
  unfold proposed
  rw [hproposal]

theorem reorder_of_extract {target : Go.Target} {rule : RecordRule} {path : String}
    {source : List UInt8} {layouts : List Layout}
    (h : (extract target rule path source).value = .ok layouts) :
    ∀ l ∈ layouts, l.reorder rule = .ok (proposed rule l) := fun l hl => by
  obtain ⟨ds, hds⟩ := extract_placed h l hl
  exact reorder_eq_proposed hds

/-- A file gets its comments unless a struct ends before it starts, or shows a name that is too long
in a proposal with less padding. -/
theorem exists_commentsFor_iff {config : Config} {change : FileChange} {head : List UInt8}
    {layouts : List Layout} (hhead : change.head = some head)
    (hkept : (config.excludeVendored && Path.isVendored change.path) = false)
    (hlayouts : (extract config.target config.recordRule change.path head).value = .ok layouts) :
    (∃ comments, (commentsFor config change).value = .ok comments) ↔
      (∃ hits, touched (changedLines (change.base.getD []) head)
        (layouts.filter fun l => l.check = .ok ()) = .ok hits) ∧
      ∀ l ∈ layouts, l.check = .ok () →
        (changedLines (change.base.getD []) head).any l.lines.contains →
          (proposed config.recordRule l).padding < l.padding →
            ∀ name ∈ Field.shownNamesAll l.fields, name.length ≤ Text.maxWidth := by
  have hreorder := reorder_of_extract hlayouts
  have hsound : ∀ l ∈ layouts.filter fun l => l.check = .ok (),
      l.reorder config.recordRule = .ok (proposed config.recordRule l) := fun l hl =>
    hreorder l (List.mem_of_mem_filter hl)
  have hshown : ∀ l ∈ layouts, (∃ text, Go.render (proposed config.recordRule l) = .ok text) ↔
      ∀ name ∈ Field.shownNamesAll l.fields, name.length ≤ Text.maxWidth := fun l hl => by
    obtain ⟨ds, hds⟩ := extract_placed hlayouts l hl
    exact Go.exists_render_reorder_iff hds (hreorder l hl)
  simp only [commentsFor_value hhead hkept hlayouts, commentsOn_eq_ok]
  constructor
  · rintro ⟨-, hits, ss, hhits, hss, -⟩
    have hall := ((consultAll_touched hsound hhits).1 hss).1
    exact ⟨⟨hits, hhits⟩, fun l hl hcheck htouched hlt => (hshown l hl).1
      (hall l (List.mem_filter.2 ⟨hl, decide_eq_true hcheck⟩) htouched hlt)⟩
  · rintro ⟨⟨hits, hhits⟩, hall⟩
    refine ⟨_, hits, _, hhits,
      (consultAll_touched hsound hhits).2 ⟨fun l hl htouched hlt => ?_, rfl⟩, rfl⟩
    obtain ⟨hl, hcheck⟩ := List.mem_filter.1 hl
    exact (hshown l hl).2 (hall l hl (of_decide_eq_true hcheck) htouched hlt)

/-- Every struct that is extracted from the head version without wrapping around passes the check
and can be laid out as proposed. The comments are one for each struct with a touched line in it
whose proposal has less padding, in order, on the line where the struct starts. The base version
only adds notes on grown padding. -/
theorem comments_complete {config : Config} {change : FileChange} {head : List UInt8}
    {layouts : List Layout} {comments : List Comment} (hhead : change.head = some head)
    (hkept : (config.excludeVendored && Path.isVendored change.path) = false)
    (hlayouts : (extract config.target config.recordRule change.path head).value = .ok layouts)
    (hfits : ∀ l ∈ layouts, l.Fits config.recordRule)
    (hcomments : (commentsFor config change).value = .ok comments) :
    (∀ l ∈ layouts, l.check = .ok ()) ∧
    ∃ (propose : Layout → Layout) (growth : Layout → Option Regression),
      (∀ l ∈ layouts, l.reorder config.recordRule = .ok (propose l) ∧
        ∀ base, advise config.recordRule config.reportRegressions ⟨l, base⟩ =
          (suggest? config.reportRegressions ⟨l, base⟩ (propose l)).mapError .column) ∧
      (∀ l ∈ layouts, (changedLines (change.base.getD []) head).any l.lines.contains →
        ∀ base, ∃ advice,
          advise config.recordRule config.reportRegressions ⟨l, base⟩ = .ok advice) ∧
      comments = (layouts.filter fun l =>
          (changedLines (change.base.getD []) head).any l.lines.contains &&
            (propose l).padding < l.padding).map
        (fun l => remark change.path l (propose l) (growth l)) ∧
      (∀ base ∈ change.base, ∀ ls,
        (extract config.target config.recordRule change.path base).value = .ok ls →
          (∀ l ∈ ls, l.Fits config.recordRule) →
            ∀ l, growth l = regression? config.reportRegressions (pair ls l)) ∧
      ((∀ base ∈ change.base, ∃ e,
        (extract config.target config.recordRule change.path base).value = .error e) →
          ∀ l, growth l = none) ∧
      ∀ l proposal r, ∃ opening closing : String,
        (remark change.path l proposal none).text = opening ++ closing ∧
        (remark change.path l proposal (some r)).text = opening ++
          s!"\nThis change grows the padding of `{l.name}` from {r.before} to {r.after} bytes.\n" ++
            closing := by
  have hreorder := reorder_of_extract hlayouts
  rw [commentsFor_value hhead hkept hlayouts, filter_check_of_extract hlayouts hfits,
    commentsOn_eq_ok] at hcomments
  obtain ⟨hits, ss, hhits, hss, rfl⟩ := hcomments
  obtain ⟨hshown, rfl⟩ := (consultAll_touched hreorder hhits).1 hss
  refine ⟨fun l hl => check_of_extract hlayouts hl (hfits l hl), proposed config.recordRule,
    fun l => regression? config.reportRegressions (pair (baseLayouts config change).value l),
    fun l hl => ⟨hreorder l hl, fun base => advise_of_reorder (hreorder l hl)⟩,
    fun l hl htouched base => ?_, List.map_map,
    fun base hbase ls hls hbases l => ?_, fun hfails l => ?_, remark_text_some change.path⟩
  · exact ⟨_, (advise_eq_ok (r := ⟨l, base⟩) (hreorder l hl)).2
      (suggest?_eq_ok.2 ⟨hshown l hl htouched, rfl⟩)⟩
  · rw [baseLayouts_value_of_ok hbase hls hbases]
  · rw [baseLayouts_value_of_not_ok hfails]
    rfl

/-- A word that gets a flag before it and one after it. -/
def grown : FileChange where
  path := "p.go"
  base := some (Text.Utf8.encode "type T struct \x7b\n\tn int64\n\x7d\n")
  head := some (Text.Utf8.encode "type T struct \x7b\n\ta bool\n\tn int64\n\tb bool\n\x7d\n")

def grownRow (byte : Alignment) : Layout where
  name := "T"
  lines := ⟨1, 5⟩
  fields :=
    [.leaf "a" "bool" 0 1 1 byte, .padding 1 7, .leaf "n" "int64" 8 8 8 .word,
      .leaf "b" "bool" 16 1 1 byte, .padding 17 7]

theorem extract_grown : (extract ⟨8⟩ .standard "p.go" (grown.head.getD [])).value =
    .ok [grownRow ⟨⟨0, by decide⟩⟩] :=
  eq_ok_of_toOption (by decide +kernel)

theorem extract_base_grown : (extract ⟨8⟩ .standard "p.go" (grown.base.getD [])).value =
    .ok [⟨"T", ⟨1, 3⟩, [.leaf "n" "int64" 0 8 8 .word]⟩] :=
  eq_ok_of_toOption (by decide +kernel)

/-- The word comes first in the proposal. -/
def grownProposal (byte : Alignment) : Layout where
  name := "T"
  lines := ⟨1, 5⟩
  fields :=
    [.leaf "n" "int64" 0 8 8 .word, .leaf "a" "bool" 8 1 1 byte, .leaf "b" "bool" 9 1 1 byte,
      .padding 10 6]

theorem reorder_grown : (grownRow ⟨⟨0, by decide⟩⟩).reorder .standard =
    .ok (grownProposal ⟨⟨0, by decide⟩⟩) :=
  reorder_eq_ok.2 ⟨_, (@reorderAll_of_names _ _ _ ["n", "a", "b"] _ (by decide +kernel)
    (by decide +kernel) (by decide +kernel)).trans (by decide +kernel), rfl⟩

theorem comments_complete_grown : ∃ head l proposal, grown.head = some head ∧
    (({} : Config).excludeVendored && Path.isVendored grown.path) = false ∧
    (extract ⟨8⟩ .standard "p.go" head).value = .ok [l] ∧ l.Fits .standard ∧
    l.check = .ok () ∧ l.reorder .standard = .ok proposal ∧
    (l.lines, l.padding, proposal.padding) = (⟨1, 5⟩, 14, 6) ∧
    (commentsFor {} grown).value = .ok [remark "p.go" l proposal (some ⟨0, 14⟩)] := by
  have hhead : grown.head = some (grown.head.getD []) := rfl
  have hkept : (({} : Config).excludeVendored && Path.isVendored grown.path) = false := by
    decide +kernel
  have hfits : ∀ l ∈ [grownRow ⟨⟨0, by decide⟩⟩], l.Fits .standard := by decide +kernel
  have hrange : ∀ l ∈ [grownRow ⟨⟨0, by decide⟩⟩], l.lines.first ≤ l.lines.last := by decide
  have hnames : ∀ l ∈ [grownRow ⟨⟨0, by decide⟩⟩], ∀ name ∈ Field.shownNamesAll l.fields,
      name.length ≤ Text.maxWidth := by decide +kernel
  obtain ⟨comments, hcomments⟩ : ∃ comments, (commentsFor {} grown).value = .ok comments :=
    (exists_commentsFor_iff hhead hkept extract_grown).2
      ⟨touched_ok fun l hl => hrange l (List.mem_of_mem_filter hl), fun l hl _ _ _ => hnames l hl⟩
  obtain ⟨hsound, propose, growth, hreorder, -, rfl, hgrowth, -⟩ :=
    comments_complete hhead hkept extract_grown hfits hcomments
  have hproposal : propose (grownRow ⟨⟨0, by decide⟩⟩) = grownProposal ⟨⟨0, by decide⟩⟩ :=
    Except.ok.inj ((hreorder _ (by simp)).1.symm.trans reorder_grown)
  have hnote : growth (grownRow ⟨⟨0, by decide⟩⟩) = some ⟨0, 14⟩ := by
    rw [hgrowth _ rfl _ extract_base_grown (by decide +kernel)]
    decide +kernel
  refine ⟨_, _, _, hhead, hkept, extract_grown, hfits _ (by simp), hsound _ (by simp),
    reorder_grown, by decide +kernel, ?_⟩
  have htouched : (changedLines (grown.base.getD []) (grown.head.getD [])).any
      (grownRow ⟨⟨0, by decide⟩⟩).lines.contains = true := by decide +kernel
  have hlt : (grownProposal ⟨⟨0, by decide⟩⟩).padding <
      (grownRow ⟨⟨0, by decide⟩⟩).padding := by decide +kernel
  rw [hcomments, List.filter_cons, htouched, hproposal, decide_eq_true hlt, Bool.and_self,
    if_pos rfl, List.filter_nil, List.map_singleton, hproposal, hnote]
  rfl

end StructPadding.Review

import StructPadding.Proofs.Replaced
import StructPadding.Proofs.Reread
import StructPadding.Proofs.Savings

/-!
# What a suggestion does to a declaration

A suggestion lists the fields of the declaration in another order. It writes each of them as a name
and a type, so an embedded field comes back with a name of its own; and it writes a channel of
channels without brackets, so that an arrow may go to the wrong one. A suggestion is a reordering of
the declaration and nothing else exactly if the declaration has neither (`suggestion_rearranges`).
-/

namespace StructPadding.Go

open TypeExpr (allPlain spreadBackAll)

namespace TypeExpr

mutual

def respreads : TypeExpr → Bool
  | struct fields => respreadsAll fields
  | t => t.rereads

/-- Whether no field is embedded, here and in the structs written out here, and every type is read
as it is written. -/
def respreadsAll : List (FieldDecl TypeExpr) → Bool
  | [] => true
  | ⟨_, type, embedded⟩ :: fields => !embedded && type.respreads && respreadsAll fields

end

theorem exists_struct_of_isListing {t : TypeExpr} (h : t.isListing = true) :
    ∃ fields, t = .struct fields := by
  cases t with
  | struct fields => exact ⟨fields, rfl⟩
  | _ => cases h

/-! ## Fields over lines -/

section NotStruct

variable {t : TypeExpr} (h : ∀ fields, t ≠ .struct fields)

include h

theorem respreads_of_not_struct : t.respreads = t.rereads := by
  cases t with
  | struct fields => exact absurd rfl (h fields)
  | _ => simp only [respreads]

theorem spreadBack_of_not_struct : t.spreadBack = t.readBack false := by
  cases t with
  | struct fields => exact absurd rfl (h fields)
  | _ => simp only [spreadBack]

theorem readBack_ne_struct (fields : List (FieldDecl TypeExpr)) :
    t.readBack false ≠ .struct fields := by
  cases t with
  | struct fields => exact absurd rfl (h fields)
  | chan dir elem =>
    obtain ⟨dir', inner, heq, -⟩ := readBack_true_eq_chan elem
    cases dir <;> simp [readBack, channel, heq]
  | _ => simp [readBack, channel]

theorem spreadBack_eq_self_of_not_struct (hr : t.respreads = true) : t.spreadBack = t := by
  rw [respreads_of_not_struct h] at hr
  rw [spreadBack_of_not_struct h, readBack_of_rereads hr]

theorem respreads_spreadBack_of_not_struct : t.spreadBack.respreads = true := by
  rw [spreadBack_of_not_struct h, respreads_of_not_struct (readBack_ne_struct h)]
  exact (rereads_readBack t).1

end NotStruct

mutual

theorem spreadBack_of_respreads : ∀ {t : TypeExpr}, t.respreads = true → t.spreadBack = t
  | struct _, h => by
    rw [respreads] at h
    rw [spreadBack, spreadBackAll_of_respreadsAll h]
  | named _, h | qualified _ _, h | instantiated _, h | func _, h | interface _, h | pointer _, h
  | slice _, h | array _ _, h | symbolicArray _ _, h | chan _ _, h | map _ _, h =>
    spreadBack_eq_self_of_not_struct nofun h

theorem spreadBackAll_of_respreadsAll : ∀ {fields : List (FieldDecl TypeExpr)},
    respreadsAll fields = true → spreadBackAll fields = fields
  | [], _ => by rw [spreadBackAll]
  | ⟨_, _, _⟩ :: _, h => by
    rw [respreadsAll, Bool.and_eq_true, Bool.and_eq_true] at h
    obtain ⟨⟨hembedded, htype⟩, hrest⟩ := h
    rw [Bool.not_eq_true'] at hembedded
    rw [spreadBackAll, spreadBack_of_respreads htype, spreadBackAll_of_respreadsAll hrest,
      hembedded]

end

mutual

theorem respreads_spreadBack : ∀ t : TypeExpr, t.spreadBack.respreads = true
  | struct fields => by
    rw [spreadBack, respreads]
    exact respreadsAll_spreadBackAll fields
  | named _ | qualified _ _ | instantiated _ | func _ | interface _ | pointer _ | slice _
  | array _ _ | symbolicArray _ _ | chan _ _ | map _ _ => respreads_spreadBack_of_not_struct nofun

theorem respreadsAll_spreadBackAll : ∀ fields : List (FieldDecl TypeExpr),
    respreadsAll (spreadBackAll fields) = true
  | [] => by rw [spreadBackAll, respreadsAll]
  | ⟨_, type, _⟩ :: fields => by
    rw [spreadBackAll, respreadsAll, respreads_spreadBack type, respreadsAll_spreadBackAll fields]
    rfl

end

end TypeExpr

open TypeExpr (respreadsAll)

namespace Rearranges

variable {ds es : List (FieldDecl TypeExpr)}

theorem respreadsAll (h : Rearranges ds es) : respreadsAll ds = respreadsAll es := by
  induction h with
  | nil => rfl
  | cons d _ ih => simp only [TypeExpr.respreadsAll, ih]
  | inner name embedded _ _ ihNested ihTail =>
    simp only [TypeExpr.respreadsAll, TypeExpr.respreads, ihNested, ihTail]
  | swap d e ds =>
    simp only [TypeExpr.respreadsAll]
    exact Bool.and_left_comm _ _ _
  | trans _ _ ihLeft ihRight => rw [ihLeft, ihRight]

theorem spreadBackAll (h : Rearranges ds es) :
    Rearranges (spreadBackAll ds) (spreadBackAll es) := by
  induction h with
  | nil => exact .refl _
  | cons d _ ih =>
    simp only [TypeExpr.spreadBackAll]
    exact .cons _ ih
  | inner name embedded _ _ ihNested ihTail =>
    simp only [TypeExpr.spreadBackAll, TypeExpr.spreadBack]
    exact .inner name false ihNested ihTail
  | swap d e ds =>
    simp only [TypeExpr.spreadBackAll]
    exact .swap _ _ _
  | trans _ _ ihLeft ihRight => exact ihLeft.trans ihRight

end Rearranges

/-- The proposed declaration lists what is read from the fields of the declaration, in another
order. These are the fields themselves if none of them is embedded and no arrow goes astray, and in
no other case. The types of the fields are made of names, pointers, slices, arrays, channels, maps
and structs (`hplain`): a func, an interface and an instantiated type are shown as the text they
were read from, with whatever comments and line ends it has, and not as a type is written out. -/
theorem suggestion_rearranges {target : Target} {rule : RecordRule} {path : String}
    {source : List UInt8} {decls : List TypeDecl} {layouts : List Layout}
    (hdecls : (sourceChars source >>= declarations) = .ok decls)
    (hlayouts : (extract target rule path source).value = .ok layouts) {l : Layout}
    (hl : l ∈ layouts) {d : TypeDecl} (hd : d ∈ decls) (hname : l.name = d.name)
    {fields : List (FieldDecl TypeExpr)} (htype : d.type = .struct fields)
    (hplain : allPlain fields = true) {base : Option Layout} {reported : Bool}
    {suggestion : Review.Suggestion}
    (hadvice : Review.advise rule reported ⟨l, base⟩ = .ok (some suggestion)) :
    ∃ after fields', declarations suggestion.proposed.toList = .ok [after] ∧
      after.name = d.name ∧ after.type = .struct fields' ∧
        Rearranges (spreadBackAll fields) fields' ∧
          (Rearranges fields fields' ↔ respreadsAll fields = true) := by
  obtain ⟨decl, found, memo, ds, h⟩ := Scope.exists_origin hdecls hlayouts hl
  obtain rfl := h.only d hd hname.symm
  obtain rfl : found = fields := by
    have hunder := h.underlying
    rw [htype] at hunder
    cases hunder
    rfl
  obtain ⟨proposal, moved, -, -, hproposal, hmoved, hread, -⟩ :=
    Scope.relisted h.isName h.written hplain h.described h.placed
  obtain ⟨hshown, hsome⟩ := Review.suggest?_eq_ok.1 ((Review.advise_eq_ok hproposal).1 hadvice)
  obtain ⟨hlt, ⟨⟩⟩ := Option.ite_none_right_eq_some.1 hsome.symm
  obtain ⟨text, htext⟩ := hshown hlt
  obtain rfl := (render_eq_ok.1 htext).2
  obtain ⟨lines, hread⟩ := hread _ htext
  refine ⟨_, spreadBackAll moved, hread, hname, rfl, hmoved.spreadBackAll, ?_⟩
  constructor
  · -- what is read over lines is read again as it is, and so is whatever it is a reordering of
    intro hsame
    rw [hsame.respreadsAll]
    exact TypeExpr.respreadsAll_spreadBackAll moved
  · intro hrespreads
    rw [hmoved.respreadsAll] at hrespreads
    rw [TypeExpr.spreadBackAll_of_respreadsAll hrespreads]
    exact hmoved

/-- A struct with an embedded pointer between two flags. -/
def embeddingRow : List UInt8 :=
  Text.Utf8.encode ("type Base struct \x7b n int64 \x7d\n" ++
    "type Row struct \x7b ok bool; *Base; done bool \x7d\n")

def spacedRow (byte : Alignment) : Layout where
  name := "Row"
  lines := ⟨2, 2⟩
  fields :=
    [.leaf "ok" "bool" 0 1 1 byte, .padding 1 7, .leaf "Base" "*Base" 8 8 8 .word,
      .leaf "done" "bool" 16 1 1 byte, .padding 17 7]

theorem spacedRow_mem : ∃ layouts,
    (extract ⟨8⟩ .standard "p.go" embeddingRow).value = .ok layouts ∧
      spacedRow ⟨⟨0, by decide⟩⟩ ∈ layouts := by
  have h : spacedRow ⟨⟨0, by decide⟩⟩ ∈
      (extract ⟨8⟩ .standard "p.go" embeddingRow).value.toOption.getD [] := by
    decide +kernel
  rcases hlayouts : (extract ⟨8⟩ .standard "p.go" embeddingRow).value with e | layouts <;>
    rw [hlayouts] at h
  · simp [Except.toOption] at h
  · exact ⟨layouts, rfl, h⟩

theorem reorder_spacedRow : (spacedRow ⟨⟨0, by decide⟩⟩).reorder .standard =
    .ok ⟨"Row", ⟨2, 2⟩, [.leaf "Base" "*Base" 0 8 8 .word,
      .leaf "done" "bool" 8 1 1 ⟨⟨0, by decide⟩⟩, .leaf "ok" "bool" 9 1 1 ⟨⟨0, by decide⟩⟩,
      .padding 10 6]⟩ :=
  reorder_eq_ok.2 ⟨_, (@reorderAll_of_names _ _ _ ["Base", "done", "ok"] _ (by decide +kernel)
    (by decide +kernel) (by decide +kernel)).trans (by decide +kernel), rfl⟩

theorem advise_spacedRow : ∃ suggestion,
    Review.advise .standard true ⟨spacedRow ⟨⟨0, by decide⟩⟩, none⟩ = .ok (some suggestion) :=
  Review.exists_advise_of_lt true reorder_spacedRow (by decide +kernel) ⟨_, rfl⟩

theorem suggestion_rearranges_embedded : ∃ l layouts decls d fields suggestion,
    (extract ⟨8⟩ .standard "p.go" embeddingRow).value = .ok layouts ∧ l ∈ layouts ∧
      (sourceChars embeddingRow >>= declarations) = .ok decls ∧ d ∈ decls ∧ l.name = d.name ∧
      d.type = .struct fields ∧ allPlain fields = true ∧
      Review.advise .standard true ⟨l, none⟩ = .ok (some suggestion) ∧
        ∃ after fields', declarations suggestion.proposed.toList = .ok [after] ∧
          after.name = d.name ∧ after.type = .struct fields' ∧
            Rearranges (spreadBackAll fields) fields' ∧ ¬Rearranges fields fields' := by
  obtain ⟨layouts, hlayouts, hl⟩ := spacedRow_mem
  obtain ⟨suggestion, hadvice⟩ := advise_spacedRow
  have hparsed : ((sourceChars embeddingRow >>= declarations).toOption.map fun ds =>
      ds.map fun d => (d.name, d.type.isListing, d.type.isPlain, d.type.respreads)) =
      some [("Base", true, true, true), ("Row", true, true, false)] := by
    decide +kernel
  rcases hdecls : (sourceChars embeddingRow >>= declarations) with e | decls <;>
    rw [hdecls] at hparsed
  · cases hparsed
  simp only [Except.toOption, Option.map_some, Option.some.injEq] at hparsed
  have hmem : ("Row", true, true, false) ∈ decls.map fun d =>
      (d.name, d.type.isListing, d.type.isPlain, d.type.respreads) := by
    rw [hparsed]
    simp
  obtain ⟨d, hd, hrow⟩ := List.mem_map.1 hmem
  simp only [Prod.mk.injEq] at hrow
  obtain ⟨hname, hlisting, hplain, hembedded⟩ := hrow
  obtain ⟨fields, htype⟩ := TypeExpr.exists_struct_of_isListing hlisting
  rw [htype, TypeExpr.isPlain] at hplain
  rw [htype, TypeExpr.respreads] at hembedded
  obtain ⟨after, fields', hread, hafter, hstruct, hrearranges, hiff⟩ :=
    suggestion_rearranges hdecls hlayouts hl hd hname.symm htype hplain hadvice
  rw [hembedded] at hiff
  exact ⟨_, layouts, decls, d, fields, suggestion, hlayouts, hl, rfl, hd, hname.symm, htype,
    hplain, hadvice, after, fields', hread, hafter, hstruct, hrearranges,
    fun h => Bool.noConfusion (hiff.1 h)⟩

end StructPadding.Go

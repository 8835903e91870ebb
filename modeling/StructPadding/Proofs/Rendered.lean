import StructPadding.Go.Rendering
import StructPadding.Proofs.ReadBack

/-!
# Rendered declarations read back

The text of a layout is read as one declaration (`declarations_declarationText`). Its fields are
those that the layout shows (`Shows`), each with a name of its own, with the types that their texts
are read as; an inline record is written out over lines, and its fields are read in the same way.
-/

namespace StructPadding.Go

namespace TypeExpr

mutual

/-- The type that is read from a type whose structs are written out over lines. -/
def spreadBack : TypeExpr → TypeExpr
  | struct fields => struct (spreadBackAll fields)
  | t => t.readBack false

/-- The fields that are read from lines; none of them is embedded. -/
def spreadBackAll : List (FieldDecl TypeExpr) → List (FieldDecl TypeExpr)
  | [] => []
  | ⟨name, type, _⟩ :: fields => ⟨name, type.spreadBack, false⟩ :: spreadBackAll fields

end

/-- A struct that has fields. -/
def isListing : TypeExpr → Bool
  | struct fields => !fields.isEmpty
  | _ => false

theorem spreadBack_of_not_listing {t : TypeExpr} (h : t.isListing = false) :
    t.spreadBack = t.readBack false := by
  cases t with
  | struct fields =>
    obtain rfl : fields = [] := by simpa [isListing] using h
    simp [spreadBack, spreadBackAll, readBack, readBackAll, channel]
  | _ => simp only [spreadBack]

theorem isName_of_embeddedName? : ∀ {t : TypeExpr} {name : String}, t.Written →
    t.isPlain = true → t.embeddedName? = some name → isName name = true
  | named n, name, hw, _, h => by
    rw [Written] at hw
    obtain rfl := Option.some.inj h
    exact hw.1
  | qualified p n, name, hw, _, h => by
    rw [Written] at hw
    obtain rfl := Option.some.inj h
    exact hw.2.2
  | pointer elem, name, hw, hp, h => by
    rw [Written] at hw
    rw [isPlain] at hp
    rw [embeddedName?] at h
    exact isName_of_embeddedName? hw hp h
  | instantiated _, _, _, hp, _ => by
    rw [isPlain] at hp
    cases hp

end TypeExpr

open TypeExpr (WrittenAll allPlain spreadBackAll Parses ParsesFields)

/-- Fields that are shown as fields of these declarations. -/
inductive Shows : List Field → List (FieldDecl TypeExpr) → Prop
  | nil : Shows [] []
  | padding {fs : List Field} {ds : List (FieldDecl TypeExpr)} (start size : UInt64)
    (tail : Shows fs ds) : Shows (.padding start size :: fs) ds
  | text {f : Field} {fs : List Field} {t : TypeExpr} {ds : List (FieldDecl TypeExpr)}
    (embedded : Bool) (hf : f.isPadding = false) (hinline : f.isInlineRecord = false)
    (htext : f.typeName = t.text) (ht : t.isListing = false) (tail : Shows fs ds) :
    Shows (f :: fs) (⟨f.name, t, embedded⟩ :: ds)
  | inline {f : Field} {fs : List Field} {inner ds : List (FieldDecl TypeExpr)} (embedded : Bool)
    (hinline : f.isInlineRecord = true) (hne : inner ≠ []) (nested : Shows f.children inner)
    (tail : Shows fs ds) : Shows (f :: fs) (⟨f.name, .struct inner, embedded⟩ :: ds)

namespace Shows

variable {fs : List Field} {ds : List (FieldDecl TypeExpr)}

theorem fieldLines_eq_nil_iff (h : Shows fs ds) (depth width : Nat) :
    fieldLines depth width fs = [] ↔ ds = [] := by
  induction h with
  | nil => simp [fieldLines]
  | padding start size _ ih => simpa [fieldLines, Field.isPadding] using ih
  | text embedded hf => simp [fieldLines, hf]
  | @inline f _ _ _ embedded hinline =>
    cases f with
    | record => simp [fieldLines, Field.isPadding]
    | _ => simp [Field.isInlineRecord, Field.children] at hinline

theorem all_isPadding_iff (h : Shows fs ds) : fs.all Field.isPadding = true ↔ ds = [] := by
  induction h with
  | nil => simp
  | padding start size _ ih => simpa [Field.isPadding] using ih
  | text embedded hf => simp [hf]
  | @inline f _ _ _ embedded hinline =>
    cases f with
    | record => simp [Field.isPadding]
    | _ => simp [Field.isInlineRecord, Field.children] at hinline

end Shows

theorem typeText_of_not_inline {f : Field} (hf : f.isPadding = false)
    (h : f.isInlineRecord = false) (depth : Nat) : typeText depth f = f.typeName := by
  cases f with
  | padding => cases hf
  | leaf => simp [typeText, Field.typeName]
  | record => simp [typeText, Field.typeName, h]

theorem typeText_of_inline {f : Field} (h : f.isInlineRecord = true) (depth : Nat) :
    typeText depth f = "struct \x7b\n" ++
      "\n".intercalate (fieldLines (depth + 1) (nameWidth f.children) f.children) ++ "\n" ++
        tabs depth ++ "\x7d" := by
  cases f with
  | record => simp [typeText, h, Field.children]
  | _ => simp [Field.isInlineRecord, Field.children] at h

/-- Lines with a break after each of them. -/
def spread (lines : List String) : List Char :=
  lines.flatMap fun line => line.toList ++ ['\n']

theorem intercalate_newline : ∀ {lines : List String}, lines ≠ [] → ∀ cs : List Char,
    ("\n".intercalate lines).toList ++ '\n' :: cs = spread lines ++ cs
  | [line], _, cs => by simp [spread, String.intercalate_singleton]
  | line :: line' :: lines, _, cs => by
    have ih := intercalate_newline (List.cons_ne_nil line' lines) cs
    rw [String.intercalate_cons_cons]
    simp only [spread, List.flatMap_cons, String.toList_append, List.append_assoc] at ih ⊢
    rw [ih]
    simp

/-- A line is cut into the name of its field and what its type is cut into. -/
theorem reads_line {name type : String} (hname : isName name = true) {cs : List Char}
    {us : List TokenKind} (h : Reads (type.toList ++ cs) us) (depth width : Nat) :
    Reads ((tabs depth ++ Text.padRight width name ++ " " ++ type).toList ++ cs)
      (.ident name :: us) := by
  have htext : (tabs depth ++ Text.padRight width name ++ " " ++ type).toList ++ cs =
      List.replicate depth '\t' ++ (name.toList ++
        (List.replicate (width - name.length) ' ' ++ ' ' :: (type.toList ++ cs))) := by
    simp [tabs, Text.padRight]
  rw [htext]
  refine .blanks (.inr rfl) depth (.name hname ?_ (.blanks (.inl rfl) _ (.blank (.inl rfl) h)))
  rcases width - name.length with _ | n <;> exact stops_cons (by simp) _

/-- An inline record is cut into what its lines are cut into, between braces. -/
theorem reads_inline {f : Field} (hinline : f.isInlineRecord = true) {depth : Nat}
    (hlines : fieldLines (depth + 1) (nameWidth f.children) f.children ≠ []) {ks : List TokenKind}
    (hinner : ∀ {cs us}, Reads cs us →
      Reads (spread (fieldLines (depth + 1) (nameWidth f.children) f.children) ++ cs) (ks ++ us))
    {cs : List Char} {us : List TokenKind} (h : Reads cs us) :
    Reads ((typeText depth f).toList ++ cs)
      (.ident "struct" :: .punct '\x7b' :: .newline :: (ks ++ .punct '\x7d' :: us)) := by
  have hclose : Reads (List.replicate depth '\t' ++ '\x7d' :: cs) (.punct '\x7d' :: us) :=
    .blanks (.inr rfl) depth (h.punct (by simp))
  have hbody := hinner hclose
  rw [← intercalate_newline hlines] at hbody
  have htext : (typeText depth f).toList ++ cs = "struct".toList ++ ' ' :: '\x7b' :: '\n' ::
      (("\n".intercalate (fieldLines (depth + 1) (nameWidth f.children) f.children)).toList ++
        '\n' :: (List.replicate depth '\t' ++ '\x7d' :: cs)) := by
    rw [typeText_of_inline hinline]
    simp [tabs]
  rw [htext]
  exact .name (by decide +kernel) (stops_cons (by simp) _)
    (.blank (.inl rfl) (.punct (by simp) hbody.newline))

theorem isPadding_of_isInlineRecord {f : Field} (h : f.isInlineRecord = true) :
    f.isPadding = false := by
  cases f with
  | padding => simp [Field.isInlineRecord, Field.children] at h
  | _ => rfl

theorem isName_of_written {name : String} {t : TypeExpr} {embedded : Bool}
    (hname : if embedded then t.embeddedName? = some name else isName name = true)
    (hw : t.Written) (hp : t.isPlain = true) : isName name = true := by
  cases embedded with
  | true => exact TypeExpr.isName_of_embeddedName? hw hp hname
  | false => exact hname

/-- The lines of shown fields are read as those fields. -/
theorem Shows.lines {fs : List Field} {ds : List (FieldDecl TypeExpr)} (h : Shows fs ds) :
    WrittenAll ds → allPlain ds = true → ∃ ks,
      (∀ source, ParsesFields source ks (spreadBackAll ds)) ∧
      ∀ {cs us} (depth width : Nat), Reads cs us →
        Reads (spread (fieldLines depth width fs) ++ cs) (ks ++ us) := by
  induction h with
  | nil =>
    intro _ _
    refine ⟨[], fun source => ?_, fun depth width h => ?_⟩
    · rw [spreadBackAll]
      exact TypeExpr.parsesFields_nil
    · rw [fieldLines]
      exact h
  | padding start size _ ih =>
    intro hw hp
    obtain ⟨ks, hparse, hread⟩ := ih hw hp
    refine ⟨ks, hparse, fun depth width h => ?_⟩
    rw [fieldLines, if_pos (by rw [Field.isPadding])]
    exact hread depth width h
  | @text f fs t ds embedded hf hinline htext ht _ ih =>
    intro hw hp
    rw [WrittenAll] at hw
    rw [allPlain, Bool.and_eq_true] at hp
    obtain ⟨hname, hwt, hw⟩ := hw
    obtain ⟨ks, hparse, hread⟩ := ih hw hp.2
    obtain ⟨k, us, hkinds, hopens, -⟩ := TypeExpr.kinds_eq_cons hp.1
    refine ⟨.ident f.name :: (t.kinds ++ .newline :: ks), fun source => ?_, fun depth width h => ?_⟩
    · rw [spreadBackAll, TypeExpr.spreadBack_of_not_listing ht]
      exact ((hparse source).separator rfl).named f.name (TypeExpr.parses_kinds hwt hp.1).1
        ⟨k, by simp [hkinds], hopens⟩ (by rintro k ⟨⟩; rfl)
    · have htype := TypeExpr.reads_text (stops_cons (by simp) _) (hread depth width h).newline hwt
        hp.1
      rw [← htext, ← typeText_of_not_inline hf hinline depth] at htype
      have hline := reads_line (isName_of_written hname hwt hp.1) htype depth width
      rw [fieldLines, if_neg (by simp [hf])]
      simpa [spread] using hline
  | @inline f fs inner ds embedded hinline hne nested _ ihNested ihTail =>
    intro hw hp
    rw [WrittenAll] at hw
    rw [allPlain, Bool.and_eq_true] at hp
    obtain ⟨hname, hwt, hw⟩ := hw
    have hstruct := isName_of_written hname hwt hp.1
    rw [TypeExpr.Written] at hwt
    rw [TypeExpr.isPlain] at hp
    obtain ⟨us, hparseInner, hreadInner⟩ := ihNested hwt hp.1
    obtain ⟨ks, hparse, hread⟩ := ihTail hw hp.2
    refine ⟨.ident f.name :: ((.ident "struct" :: .punct '\x7b' :: ((.newline :: us) ++
      [.punct '\x7d'])) ++ .newline :: ks), fun source => ?_, fun {cs vs} depth width h => ?_⟩
    · rw [spreadBackAll, TypeExpr.spreadBack]
      exact ((hparse source).separator rfl).named f.name ((hparseInner source).separator rfl).struct
        ⟨_, rfl, rfl⟩ (by rintro k ⟨⟩; rfl)
    · have hlines : fieldLines (depth + 1) (nameWidth f.children) f.children ≠ [] :=
        fun hnil => hne ((nested.fieldLines_eq_nil_iff _ _).1 hnil)
      have htype := reads_inline hinline hlines (fun hcs => hreadInner (depth + 1) _ hcs)
        (hread depth width h).newline
      have hline := reads_line hstruct htype depth width
      rw [fieldLines, if_neg (by simp [isPadding_of_isInlineRecord hinline])]
      simpa [spread] using hline

/-! ## The declaration -/

/-- A name and a type behind it are read as a declaration. -/
theorem parse_of_ahead {source : List Char} {name : String} {k : TokenKind} {ks : List TokenKind}
    {t : TypeExpr} {c : Cursor} (hk : k ≠ .punct '[' ∧ k ≠ .punct '=')
    (hahead : c.ahead = .ident name :: k :: ks) (ht : Parses source (k :: ks) t) :
    ∃ lines c', TypeDecl.parse source c = .ok (⟨name, t, false, lines⟩, c') ∧ c'.ahead = [] := by
  have hafter : c.advance.ahead = k :: ks := by simp [hahead]
  have hgeneric : (c.advance.atPunct '[' && TypeDecl.startsParams c.advance) = false := by
    simp [Cursor.atPunct_eq, hafter, hk.1]
  have hequals : c.advance.skipPunct '=' = c.advance := by
    rw [Cursor.skipPunct, if_neg]
    simp [Cursor.atPunct_eq, hafter, hk.2]
  have hlength : c.advance.rest.length = (k :: ks).length := by
    rw [← hafter, Cursor.ahead, List.length_map]
  have hle : 3 * (k :: ks).length ≤ TypeExpr.enough c.advance := by
    rw [TypeExpr.enough, hlength]
    omega
  obtain ⟨c', hparse, hc'⟩ := ht hle (hafter.trans (List.append_nil _).symm)
    (by simp [TypeExpr.Ends])
  have hparse : TypeExpr.parse source c.advance = .ok (t, c') := hparse
  refine ⟨⟨c.line, c'.lastLine⟩, c', ?_, hc'⟩
  rw [TypeDecl.parse, Cursor.expectName_of_ahead hahead]
  simp only [bind, Except.bind, hgeneric, hequals, hparse]
  rfl

/-- Tokens of one declaration of a type that is not generic. -/
theorem declarations_of_reads {cs : List Char} {name : String} {k : TokenKind}
    {ks : List TokenKind} {t : TypeExpr} (hk : k ≠ .punct '[' ∧ k ≠ .punct '=')
    (h : Reads cs (.ident "type" :: .ident name :: k :: ks)) (ht : Parses cs (k :: ks) t) :
    ∃ lines, declarations cs = .ok [⟨name, t, false, lines⟩] := by
  obtain ⟨ts, hts, hkinds⟩ := h 1 0
  have hstart : (Cursor.start ts).ahead = .ident "type" :: .ident name :: k :: ks := hkinds
  have hname : (Cursor.start ts).advance.ahead = .ident name :: k :: ks := by simp [hstart]
  obtain ⟨lines, c', hparse, hc'⟩ := parse_of_ahead hk hname ht
  have hgroup : (Cursor.start ts).advance.atPunct '(' = false := by
    simp [Cursor.atPunct_eq, hname]
  have hdone : TypeDecl.parseFrom cs ts.length 0 c' = .ok [] := by
    rcases ts.length with _ | n
    · rw [TypeDecl.parseFrom]
    · rw [TypeDecl.parseFrom, Cursor.peek_eq, hc']
      rfl
  refine ⟨lines, ?_⟩
  have hall : TypeDecl.parseAll cs ts = .ok [⟨name, t, false, lines⟩] := by
    rw [TypeDecl.parseAll, TypeDecl.parseFrom, Cursor.peek_eq, hstart]
    simp only [List.head?_cons, and_self, if_pos, TypeDecl.parseDecls, hgroup, hparse, bind,
      Except.bind]
    simp only [Bool.false_eq_true, if_false, pure, Except.pure, hdone]
    rfl
  rw [declarations, tokens, hts]
  simp only [hall]

/-- The text of a layout is read as one declaration, with the fields that it shows. -/
theorem declarations_declarationText {l : Layout} {ds : List (FieldDecl TypeExpr)}
    (hname : isName l.name = true) (h : Shows l.fields ds) (hw : WrittenAll ds)
    (hp : allPlain ds = true) : ∃ lines, declarations (declarationText l).toList =
      .ok [⟨l.name, .struct (spreadBackAll ds), false, lines⟩] := by
  -- the two words in front of the type, whatever the type is
  have hfront : ∀ {cs us}, Reads ("struct".toList ++ cs) us →
      Reads ("type".toList ++ ' ' :: (l.name.toList ++ ' ' :: ("struct".toList ++ cs)))
        (.ident "type" :: .ident l.name :: us) := fun h =>
    .name (by decide +kernel) (stops_cons (by simp) _) (.blank (.inl rfl)
      (.name hname (stops_cons (by simp) _) (.blank (.inl rfl) h)))
  by_cases hpadding : l.fields.all Field.isPadding = true
  · obtain rfl := h.all_isPadding_iff.1 hpadding
    have htext : (declarationText l).toList = "type".toList ++ ' ' :: (l.name.toList ++ ' ' ::
        ("struct".toList ++ ['\x7b', '\x7d'])) := by
      rw [declarationText, if_pos hpadding]
      simp
    have hread : Reads (declarationText l).toList
        (.ident "type" :: .ident l.name :: .ident "struct" :: [.punct '\x7b', .punct '\x7d']) := by
      rw [htext]
      exact hfront (.name (by decide +kernel) (stops_cons (by simp) _)
        (.punct (by simp) (.punct (by simp) .nil)))
    rw [spreadBackAll]
    exact declarations_of_reads (by simp) hread TypeExpr.parsesFields_nil.struct
  · obtain ⟨ks, hparse, hread⟩ := h.lines hw hp
    have hlines : fieldLines 1 (nameWidth l.fields) l.fields ≠ [] := fun hnil =>
      hpadding (h.all_isPadding_iff.2 ((h.fieldLines_eq_nil_iff _ _).1 hnil))
    have htext : (declarationText l).toList = "type".toList ++ ' ' :: (l.name.toList ++ ' ' ::
        ("struct".toList ++ ' ' :: '\x7b' :: '\n' ::
          (spread (fieldLines 1 (nameWidth l.fields) l.fields) ++ ['\x7d']))) := by
      rw [declarationText, if_neg hpadding, ← intercalate_newline hlines]
      simp
    have hread : Reads (declarationText l).toList
        (.ident "type" :: .ident l.name :: .ident "struct" :: .punct '\x7b' ::
          ((.newline :: ks) ++ [.punct '\x7d'])) := by
      rw [htext]
      exact hfront (.name (by decide +kernel) (stops_cons (by simp) _) (.blank (.inl rfl)
        (.punct (by simp) (hread 1 _ (.punct (by simp) .nil)).newline)))
    exact declarations_of_reads (by simp) hread ((hparse _).separator rfl).struct

end StructPadding.Go

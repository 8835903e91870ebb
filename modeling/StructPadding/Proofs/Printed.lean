import StructPadding.Proofs.Parsed

/-!
# Texts of types

What the text of a type is cut into again. A type without signatures, interfaces and instances in it
(`isPlain`) is a tree all the way down, and the tokens of its text follow that tree (`kinds`,
`reads_text`).
-/

namespace StructPadding.Go

namespace TypeExpr

mutual

/-- Whether a type has no signature, no interface and no instance of a generic type in it. -/
def isPlain : TypeExpr → Bool
  | named _ => true
  | qualified _ _ => true
  | instantiated _ => false
  | pointer elem => elem.isPlain
  | slice elem => elem.isPlain
  | array _ elem => elem.isPlain
  | symbolicArray _ elem => elem.isPlain
  | map key value => key.isPlain && value.isPlain
  | chan _ elem => elem.isPlain
  | func _ => false
  | interface _ => false
  | struct fields => allPlain fields

def allPlain : List (FieldDecl TypeExpr) → Bool
  | [] => true
  | ⟨_, type, _⟩ :: fields => type.isPlain && allPlain fields

end

mutual

/-- The tokens of the text of a plain type. -/
def kinds : TypeExpr → List TokenKind
  | named name => [.ident name]
  | qualified package name => [.ident package, .punct '.', .ident name]
  | instantiated _ => []
  | pointer elem => .punct '*' :: elem.kinds
  | slice elem => .punct '[' :: .punct ']' :: elem.kinds
  | array length elem => .punct '[' :: .number (some length) :: .punct ']' :: elem.kinds
  | symbolicArray length elem => .punct '[' :: .ident length :: .punct ']' :: elem.kinds
  | map key value => .ident "map" :: .punct '[' :: (key.kinds ++ .punct ']' :: value.kinds)
  | chan .both elem => .ident "chan" :: elem.kinds
  | chan .send elem => .ident "chan" :: .arrow :: elem.kinds
  | chan .recv elem => .arrow :: .ident "chan" :: elem.kinds
  | func _ => []
  | interface _ => []
  | struct fields => .ident "struct" :: .punct '\x7b' :: (fieldKinds fields ++ [.punct '\x7d'])

def fieldKinds : List (FieldDecl TypeExpr) → List TokenKind
  | [] => []
  | ⟨name, type, embedded⟩ :: fields =>
    (if embedded then type.kinds else .ident name :: type.kinds) ++
      ((if fields.isEmpty then [] else [.punct ';']) ++ fieldKinds fields)

end

end TypeExpr

/-- A text that does not go on with the name before it. -/
def Stops (cs : List Char) : Prop :=
  ∀ c ∈ cs.head?, continuesName c = false

theorem stops_cons {c : Char} (h : c ∈ [' ', '.', ';', '[', ']', '<', '\n', '\x7b', '\x7d'])
    (cs : List Char) : Stops (c :: cs) := by
  have hnone : ([' ', '.', ';', '[', ']', '<', '\n', '\x7b', '\x7d'].all fun c =>
      !continuesName c) = true := by decide +kernel
  rintro d ⟨⟩
  simpa using List.all_eq_true.1 hnone c h

theorem head?_toList_append {name : String} (h : isName name = true) (cs : List Char) :
    (name.toList ++ cs).head? ≠ some '.' := by
  have hdot : '.' ∉ name.toList := notMem_of_isName h (by decide +kernel)
  unfold isName at h
  rcases hname : name.toList with _ | ⟨c, ds⟩ <;> rw [hname] at h hdot
  · cases h
  · rintro ⟨⟩
    exact hdot List.mem_cons_self

namespace TypeExpr

mutual

/-- The text of a type in front of another is cut into its own tokens. -/
theorem reads_text {cs : List Char} {ks : List TokenKind} (hcs : Stops cs) (h : Reads cs ks) :
    ∀ {t : TypeExpr}, t.Written → t.isPlain → Reads (t.text.toList ++ cs) (t.kinds ++ ks)
  | named name, hw, _ => by
    rw [Written] at hw
    rw [text, kinds]
    exact h.name hw.1 hcs
  | qualified package name, hw, _ => by
    rw [Written] at hw
    obtain ⟨hpackage, -, hname⟩ := hw
    have htext : (qualified package name).text.toList ++ cs =
        package.toList ++ '.' :: (name.toList ++ cs) := by simp [text]
    rw [htext, kinds]
    exact .name hpackage (stops_cons (by simp) _)
      (.dot (head?_toList_append hname cs) (h.name hname hcs))
  | pointer elem, hw, hp => by
    rw [Written] at hw
    rw [isPlain] at hp
    have htext : (pointer elem).text.toList ++ cs = '*' :: (elem.text.toList ++ cs) := by
      simp [text]
    rw [htext, kinds]
    exact (reads_text hcs h hw hp).punct (by simp)
  | slice elem, hw, hp => by
    rw [Written] at hw
    rw [isPlain] at hp
    have htext : (slice elem).text.toList ++ cs = '[' :: ']' :: (elem.text.toList ++ cs) := by
      simp [text]
    rw [htext, kinds]
    exact .punct (by simp) (.punct (by simp) (reads_text hcs h hw hp))
  | array length elem, hw, hp => by
    rw [Written] at hw
    rw [isPlain] at hp
    have htext : (array length elem).text.toList ++ cs =
        '[' :: ((toString length).toList ++ ']' :: (elem.text.toList ++ cs)) := by
      simp [text]
    rw [htext, kinds]
    refine .punct (by simp) (.number hw.1 ?_ (.punct (by simp) (reads_text hcs h hw.2 hp)))
    rintro c ⟨⟩
    decide
  | symbolicArray length elem, hw, hp => by
    rw [Written] at hw
    rw [isPlain] at hp
    have htext : (symbolicArray length elem).text.toList ++ cs =
        '[' :: (length.toList ++ ']' :: (elem.text.toList ++ cs)) := by
      simp [text]
    rw [htext, kinds]
    exact .punct (by simp) (.name hw.1 (stops_cons (by simp) _)
      (.punct (by simp) (reads_text hcs h hw.2 hp)))
  | map key value, hw, hp => by
    rw [Written] at hw
    rw [isPlain, Bool.and_eq_true] at hp
    have htext : (map key value).text.toList ++ cs =
        "map".toList ++ '[' :: (key.text.toList ++ ']' :: (value.text.toList ++ cs)) := by
      simp [text]
    have hvalue := reads_text hcs h hw.2 hp.2
    have hkey := reads_text (stops_cons (by simp) _) (hvalue.punct (c := ']') (by simp)) hw.1 hp.1
    rw [htext, kinds]
    simp only [List.cons_append, List.append_assoc]
    exact .name (by decide +kernel) (stops_cons (by simp) _) (.punct (by simp) hkey)
  | chan .both elem, hw, hp => by
    rw [Written] at hw
    rw [isPlain] at hp
    have htext : (chan .both elem).text.toList ++ cs =
        "chan".toList ++ ' ' :: (elem.text.toList ++ cs) := by
      simp [text]
    rw [htext, kinds]
    exact .name (by decide +kernel) (stops_cons (by simp) _)
      (.blank (by simp) (reads_text hcs h hw hp))
  | chan .send elem, hw, hp => by
    rw [Written] at hw
    rw [isPlain] at hp
    have htext : (chan .send elem).text.toList ++ cs =
        "chan".toList ++ '<' :: '-' :: ' ' :: (elem.text.toList ++ cs) := by
      simp [text]
    rw [htext, kinds]
    exact .name (by decide +kernel) (stops_cons (by simp) _)
      (.arrow (.blank (by simp) (reads_text hcs h hw hp)))
  | chan .recv elem, hw, hp => by
    rw [Written] at hw
    rw [isPlain] at hp
    have htext : (chan .recv elem).text.toList ++ cs =
        '<' :: '-' :: ("chan".toList ++ ' ' :: (elem.text.toList ++ cs)) := by
      simp [text]
    rw [htext, kinds]
    exact .arrow (.name (by decide +kernel) (stops_cons (by simp) _)
      (.blank (by simp) (reads_text hcs h hw hp)))
  | struct fields, hw, hp => by
    rw [Written] at hw
    rw [isPlain] at hp
    have htext : (struct fields).text.toList ++ cs = "struct".toList ++
        '\x7b' :: (("; ".intercalate (fieldTexts fields)).toList ++ '\x7d' :: cs) := by
      simp [text]
    have hinner := reads_fieldTexts (stops_cons (by simp) _) (h.punct (c := '\x7d') (by simp)) hw hp
    rw [htext, kinds]
    simp only [List.cons_append, List.append_assoc, List.nil_append]
    exact .name (by decide +kernel) (stops_cons (by simp) _) (.punct (by simp) hinner)
  | instantiated _, _, hp | func _, _, hp | interface _, _, hp => by
    rw [isPlain] at hp
    cases hp

theorem reads_fieldTexts {cs : List Char} {ks : List TokenKind} (hcs : Stops cs)
    (h : Reads cs ks) : ∀ {fields : List (FieldDecl TypeExpr)}, WrittenAll fields →
      allPlain fields →
        Reads (("; ".intercalate (fieldTexts fields)).toList ++ cs) (fieldKinds fields ++ ks)
  | [], _, _ => by
    rw [fieldTexts, fieldKinds]
    exact h
  | ⟨name, type, embedded⟩ :: fields, hw, hp => by
    rw [WrittenAll] at hw
    rw [allPlain, Bool.and_eq_true] at hp
    obtain ⟨hname, htype, hrest⟩ := hw
    have hfield : ∀ {ds us}, Stops ds → Reads ds us →
        Reads ((if embedded then type.text else name ++ " " ++ type.text).toList ++ ds)
          ((if embedded then type.kinds else .ident name :: type.kinds) ++ us) := by
      intro ds us hds hus
      have hread := reads_text hds hus htype hp.1
      cases embedded with
      | true => exact hread
      | false =>
        have htext : (name ++ " " ++ type.text).toList ++ ds =
            name.toList ++ ' ' :: (type.text.toList ++ ds) := by simp
        rw [if_neg (by decide), if_neg (by decide), htext]
        exact .name hname (stops_cons (by simp) _) (.blank (by simp) hread)
    rw [fieldTexts, fieldKinds]
    cases fields with
    | nil =>
      rw [fieldTexts, fieldKinds, String.intercalate_singleton]
      simpa using hfield hcs h
    | cons field fields =>
      have hmore := reads_fieldTexts hcs h hrest hp.2
      have hne : fieldTexts (field :: fields) ≠ [] := by
        rw [fieldTexts]
        exact List.cons_ne_nil _ _
      have hread := hfield (stops_cons (by simp) _)
        (.punct (c := ';') (by simp) (.blank (c := ' ') (by simp) hmore))
      rw [String.intercalate_cons_of_ne_nil hne]
      simpa using hread

end

end TypeExpr

end StructPadding.Go

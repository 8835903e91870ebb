import StructPadding.Proofs.ReadBack

/-!
# Types read again

The text of a plain type that was read from a source can be read in its turn, to its end. The same
type comes back exactly if no channel in it, at whatever depth, carries channels to receive from
(`text_rereads_iff`): what is read from a text never has such a channel in it.
-/

namespace StructPadding.Go

namespace TypeExpr

def isRecv : TypeExpr → Bool
  | chan .recv _ => true
  | _ => false

theorem exists_of_isRecv {t : TypeExpr} (h : t.isRecv = true) : ∃ elem, t = chan .recv elem := by
  unfold isRecv at h
  split at h
  · exact ⟨_, rfl⟩
  · cases h

mutual

/-- Whether a type has no channel of channels to receive from in it, which is written like a channel
to send channels to. -/
def rereads : TypeExpr → Bool
  | pointer elem => elem.rereads
  | slice elem => elem.rereads
  | array _ elem => elem.rereads
  | symbolicArray _ elem => elem.rereads
  | map key value => key.rereads && value.rereads
  | chan .both elem => !elem.isRecv && elem.rereads
  | chan .send elem => elem.rereads
  | chan .recv elem => elem.rereads
  | struct fields => rereadsAll fields
  | _ => true

def rereadsAll : List (FieldDecl TypeExpr) → Bool
  | [] => true
  | ⟨_, type, _⟩ :: fields => type.rereads && rereadsAll fields

end

/-! ## Types that are read as they are written -/

/-- Behind the word `chan` stands a channel, and none to receive from. -/
theorem readBack_true_eq_chan (t : TypeExpr) :
    ∃ dir elem, t.readBack true = .chan dir elem ∧ dir ≠ .recv := by
  by_cases h : ∃ elem, t = .chan .recv elem
  · obtain ⟨elem, rfl⟩ := h
    exact ⟨.send, elem.readBack true, by simp [readBack], nofun⟩
  · exact ⟨.both, t.readBack false, readBack_true fun elem helem => h ⟨elem, helem⟩, nofun⟩

theorem isRecv_readBack_false : ∀ {t : TypeExpr}, t.isRecv = false →
    (t.readBack false).isRecv = false
  | chan .both elem, _ => by
    obtain ⟨dir, inner, heq, hdir⟩ := readBack_true_eq_chan elem
    rw [readBack, channel, heq]
    cases dir with
    | recv => exact absurd rfl hdir
    | _ => rfl
  | chan .recv elem, h => by simp [isRecv] at h
  | chan .send elem, _ => by simp [readBack, channel, isRecv]
  | named _, _ | qualified _ _, _ | instantiated _, _ | pointer _, _ | slice _, _ | array _ _, _
  | symbolicArray _ _, _ | map _ _, _ | func _, _ | interface _, _ | struct _, _ => by
    simp [readBack, channel, isRecv]

mutual

theorem readBack_of_rereads : ∀ {t : TypeExpr}, t.rereads = true → t.readBack false = t
  | named _, _ | qualified _ _, _ | instantiated _, _ | func _, _ | interface _, _ => by
    simp only [readBack, channel]
  | pointer _, h | slice _, h | array _ _, h | symbolicArray _ _, h | chan .send _, h
  | chan .recv _, h => by
    rw [rereads] at h
    simp [readBack, channel, readBack_of_rereads h]
  | map _ _, h => by
    rw [rereads, Bool.and_eq_true] at h
    rw [readBack, channel, readBack_of_rereads h.1, readBack_of_rereads h.2]
  | chan .both elem, h => by
    rw [rereads, Bool.and_eq_true] at h
    have hrecv : ∀ inner, elem ≠ .chan .recv inner := by
      rintro inner rfl
      simp [isRecv] at h
    rw [readBack, channel, readBack_true hrecv, readBack_of_rereads h.2]
  | struct _, h => by
    rw [rereads] at h
    rw [readBack, channel, readBackAll_of_rereadsAll h]

theorem readBackAll_of_rereadsAll : ∀ {fields : List (FieldDecl TypeExpr)},
    rereadsAll fields = true → readBackAll fields = fields
  | [], _ => by rw [readBackAll]
  | ⟨_, _, _⟩ :: _, h => by
    rw [rereadsAll, Bool.and_eq_true] at h
    rw [readBackAll, readBack_of_rereads h.1, readBackAll_of_rereadsAll h.2]

end

theorem rereads_behind {t : TypeExpr} (ht : t.isRecv = false)
    (h : (t.readBack false).rereads = true) :
    (t.readBack false).rereads = true ∧ (t.readBack true).rereads = true := by
  have hrecv : ∀ inner, t ≠ .chan .recv inner := by
    rintro inner rfl
    simp [isRecv] at ht
  refine ⟨h, ?_⟩
  rw [readBack_true hrecv, rereads, isRecv_readBack_false ht, h]
  rfl

mutual

/-- What was read is read again as it is. -/
theorem rereads_readBack : ∀ t : TypeExpr,
    (t.readBack false).rereads = true ∧ (t.readBack true).rereads = true
  | named _ | qualified _ _ | instantiated _ | func _ | interface _ =>
    rereads_behind rfl (by simp [readBack, channel, rereads])
  | pointer elem | slice elem | array _ elem | symbolicArray _ elem | chan .send elem =>
    rereads_behind rfl (by simp [readBack, channel, rereads, (rereads_readBack elem).1])
  | map key value => rereads_behind rfl (by
      simp [readBack, channel, rereads, (rereads_readBack key).1, (rereads_readBack value).1])
  | chan .both elem => rereads_behind rfl (by
      rw [readBack, channel]
      exact (rereads_readBack elem).2)
  | chan .recv elem => by
    simp [readBack, rereads, rereads_readBack elem]
  | struct fields => rereads_behind rfl (by
      rw [readBack, channel, rereads]
      exact rereadsAll_readBackAll fields)

theorem rereadsAll_readBackAll : ∀ fields : List (FieldDecl TypeExpr),
    rereadsAll (readBackAll fields) = true
  | [] => by rw [readBackAll, rereadsAll]
  | ⟨_, type, _⟩ :: fields => by
    rw [readBackAll, rereadsAll, (rereads_readBack type).1, rereadsAll_readBackAll fields]
    rfl

end

/-! ## Channels of channels -/

/-- The types that a type is put together from. -/
def parts : TypeExpr → List TypeExpr
  | pointer elem => [elem]
  | slice elem => [elem]
  | array _ elem => [elem]
  | symbolicArray _ elem => [elem]
  | map key value => [key, value]
  | chan _ elem => [elem]
  | struct fields => fields.map FieldDecl.type
  | _ => []

/-- A type is another one or occurs in a part of it. -/
inductive OccursIn (t : TypeExpr) : TypeExpr → Prop
  | self : OccursIn t t
  | part {u v : TypeExpr} (hv : v ∈ u.parts) (h : OccursIn t v) : OccursIn t u

theorem rereadsAll_iff {fields : List (FieldDecl TypeExpr)} :
    rereadsAll fields = true ↔ ∀ t ∈ fields.map FieldDecl.type, t.rereads = true := by
  induction fields with
  | nil => simp [rereadsAll]
  | cons field fields ih => simp [rereadsAll, ih]

theorem rereads_of_mem_parts {t u : TypeExpr} (h : u.rereads = true) (ht : t ∈ u.parts) :
    t.rereads = true := by
  cases u with
  | struct fields =>
    rw [rereads] at h
    exact rereadsAll_iff.1 h t ht
  | map key value =>
    rw [rereads, Bool.and_eq_true] at h
    simp only [parts, List.mem_cons, List.not_mem_nil, or_false] at ht
    rcases ht with rfl | rfl
    · exact h.1
    · exact h.2
  | chan dir elem =>
    obtain rfl := List.mem_singleton.1 ht
    cases dir <;> simp_all [rereads]
  | pointer _ | slice _ | array _ _ | symbolicArray _ _ =>
    obtain rfl := List.mem_singleton.1 ht
    rwa [rereads] at h
  | named _ | qualified _ _ | instantiated _ | func _ | interface _ => cases ht

theorem rereads_of_occursIn {t u : TypeExpr} (h : t.OccursIn u) (hu : u.rereads = true) :
    t.rereads = true := by
  induction h with
  | self => exact hu
  | part hv _ ih => exact ih (rereads_of_mem_parts hu hv)

mutual

theorem rereads_of_not_occursIn : ∀ {t : TypeExpr},
    (∀ elem, ¬(chan .both (chan .recv elem)).OccursIn t) → t.rereads = true
  | named _, _ | qualified _ _, _ | instantiated _, _ | func _, _ | interface _, _ => by
    simp only [rereads]
  | pointer _, h | slice _, h | array _ _, h | symbolicArray _ _, h | chan .send _, h
  | chan .recv _, h => by
    rw [rereads]
    exact rereads_of_not_occursIn fun inner hinner => h inner (.part List.mem_cons_self hinner)
  | chan .both elem, h => by
    have helem : elem.rereads = true :=
      rereads_of_not_occursIn fun inner hinner => h inner (.part List.mem_cons_self hinner)
    have hrecv : elem.isRecv = false := by
      by_contra hrecv
      obtain ⟨inner, rfl⟩ := exists_of_isRecv (by simpa using hrecv)
      exact h inner .self
    rw [rereads, hrecv, helem]
    rfl
  | map key value, h => by
    rw [rereads, Bool.and_eq_true]
    exact ⟨rereads_of_not_occursIn fun inner hinner => h inner (.part (by simp [parts]) hinner),
      rereads_of_not_occursIn fun inner hinner => h inner (.part (by simp [parts]) hinner)⟩
  | struct _, h => by
    rw [rereads]
    exact rereadsAll_of_not_occursIn fun type htype inner hinner => h inner (.part htype hinner)

theorem rereadsAll_of_not_occursIn : ∀ {fields : List (FieldDecl TypeExpr)},
    (∀ t ∈ fields.map FieldDecl.type, ∀ elem, ¬(chan .both (chan .recv elem)).OccursIn t) →
      rereadsAll fields = true
  | [], _ => by rw [rereadsAll]
  | ⟨_, _, _⟩ :: _, h => by
    rw [rereadsAll, Bool.and_eq_true]
    exact ⟨rereads_of_not_occursIn (h _ List.mem_cons_self),
      rereadsAll_of_not_occursIn fun t ht => h t (List.mem_cons_of_mem _ ht)⟩

end

theorem rereads_iff {t : TypeExpr} :
    t.rereads = true ↔ ∀ elem, ¬(chan .both (chan .recv elem)).OccursIn t := by
  refine ⟨fun h elem hoccurs => ?_, rereads_of_not_occursIn⟩
  have := rereads_of_occursIn hoccurs h
  simp [rereads, isRecv] at this

/-! ## Texts -/

/-- A text is read as a type, and nothing is left of it. -/
def ReadsAs (text : String) (t : TypeExpr) : Prop :=
  ∃ ts stop, tokens text.toList = .ok ts ∧ parse text.toList (.start ts) = .ok (t, stop) ∧
    stop.rest = []

theorem ReadsAs.unique {text : String} {t u : TypeExpr} (ht : ReadsAs text t)
    (hu : ReadsAs text u) : t = u := by
  obtain ⟨ts, stop, hts, hparse, -⟩ := ht
  obtain ⟨us, stop', hus, hparse', -⟩ := hu
  obtain rfl := Except.ok.inj (hts.symm.trans hus)
  exact (Prod.mk.inj (Except.ok.inj (hparse.symm.trans hparse'))).1

theorem readsAs_readBack {t : TypeExpr} (hw : t.Written) (hp : t.isPlain = true) :
    ReadsAs t.text (t.readBack false) := by
  have hreads : Reads (t.text.toList ++ []) (t.kinds ++ []) :=
    reads_text (by simp [Stops]) .nil hw hp
  simp only [List.append_nil] at hreads
  obtain ⟨ts, hts, hkinds⟩ := hreads 1 0
  have hahead : (Cursor.start ts).ahead = t.kinds ++ [] := by
    rw [List.append_nil]
    exact hkinds
  have hsteps : 3 * t.kinds.length ≤ enough (.start ts) := by
    simp [← hkinds, enough, Cursor.start]
  obtain ⟨stop, hparse, hstop⟩ := (parses_kinds hw hp).1 hsteps hahead (by simp [Ends])
  exact ⟨ts, stop, hts, hparse, List.map_eq_nil_iff.1 hstop⟩

/-- A plain type that stands anywhere in a source is read again from its text exactly if no channel
in it carries channels to receive from. -/
theorem text_rereads_iff {source : List Char} {ts : List Token} (hts : tokens source = .ok ts)
    {c c' : Cursor} (hc : c.rest <:+ ts) {t : TypeExpr} (ht : parse source c = .ok (t, c'))
    (hplain : t.isPlain = true) :
    ReadsAs t.text t ↔ ∀ elem, ¬(chan .both (chan .recv elem)).OccursIn t := by
  have hproper : c.Proper := fun token htoken => tokens_proper hts token (hc.subset htoken)
  have hread := readsAs_readBack ((reliable source _).type hproper ht).1 hplain
  rw [← rereads_iff]
  constructor
  · intro hself
    rw [hself.unique hread]
    exact (rereads_readBack t).1
  · intro hrereads
    rwa [readBack_of_rereads hrereads] at hread

/-- The tokens of `chan (<-chan T)`. -/
def bracketed : List Token :=
  [⟨.ident "chan", 1, 0, 4⟩, ⟨.punct '(', 1, 5, 6⟩, ⟨.arrow, 1, 6, 8⟩, ⟨.ident "chan", 1, 8, 12⟩,
    ⟨.ident "T", 1, 13, 14⟩, ⟨.punct ')', 1, 14, 15⟩]

theorem text_rereads_iff_bracketed :
    tokens "chan (<-chan T)".toList = .ok bracketed ∧ bracketed.drop 2 <:+ bracketed ∧
      (∃ stop, parse "chan (<-chan T)".toList ⟨none, bracketed⟩ =
        .ok (chan .both (chan .recv (named "T")), stop)) ∧
      (∃ stop, parse "chan (<-chan T)".toList ⟨none, bracketed.drop 2⟩ =
        .ok (chan .recv (named "T"), stop)) ∧
      ¬ReadsAs "chan <-chan T" (chan .both (chan .recv (named "T"))) ∧
      ReadsAs "<-chan T" (chan .recv (named "T")) := by
  have hts : tokens "chan (<-chan T)".toList = .ok bracketed := by decide +kernel
  have hdrop : bracketed.drop 2 <:+ bracketed := List.drop_suffix 2 bracketed
  refine ⟨hts, hdrop, ⟨_, rfl⟩, ⟨_, rfl⟩, ?_, ?_⟩
  · intro h
    exact (text_rereads_iff hts (c := ⟨none, bracketed⟩) List.suffix_rfl rfl
      (by simp [isPlain])).1 h _ .self
  · refine (text_rereads_iff hts (c := ⟨none, bracketed.drop 2⟩) hdrop rfl (by simp [isPlain])).2 ?_
    rw [← rereads_iff]
    simp [rereads]

end TypeExpr

end StructPadding.Go

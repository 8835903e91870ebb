import StructPadding.Descriptor.Json
import StructPadding.Proofs.Placed

/-!
# Descriptors as they are written

A descriptor is read from an object with its fields in any order and any other members between
them. What such an object says is a draft: a descriptor whose size may be left out, like those of
the objects in its list. It is accepted exactly if nothing that it says, at any depth, has neither
a size nor fields (`ofNode_eq_ok_iff`). What is written of a descriptor says all of it, so it is
read back as it was.
-/

namespace StructPadding

/-- A descriptor whose size may be left out. -/
inductive Draft where
  | leaf (name typeName : String) (size : Option Int64) (align : Int64)
  | record (name typeName : String) (size : Option Int64) (align : Int64) (children : List Draft)

namespace Draft

mutual

/-- Every descriptor has a size, or is a record with fields. -/
def Complete : Draft → Prop
  | leaf _ _ size _ => size ≠ none
  | record _ _ size _ children => (size ≠ none ∨ children ≠ []) ∧ CompleteAll children

def CompleteAll : List Draft → Prop
  | [] => True
  | w :: ws => w.Complete ∧ CompleteAll ws

end

mutual

/-- The descriptor of a draft, where a size that is left out counts as zero. -/
def descriptor : Draft → Descriptor
  | leaf name typeName size align => .leaf name typeName (size.getD 0) align
  | record name typeName size align children =>
    .record name typeName (size.getD 0) align (descriptors children)

def descriptors : List Draft → List Descriptor
  | [] => []
  | w :: ws => w.descriptor :: descriptors ws

end

theorem descriptors_ne_nil_iff {ws : List Draft} : descriptors ws ≠ [] ↔ ws ≠ [] := by
  cases ws <;> simp [descriptors]

end Draft

namespace Json

/-- The value of a member of an object. Null counts as no value. -/
def member? (members : List (String × Json)) (key : String) : Option Json :=
  match members.lookup key with
  | some null => none
  | value => value

/-- What the members of an object say of a descriptor, but for its fields. -/
structure Heads (members : List (String × Json)) (name typeName : String) (size : Option Int64)
    (align : Int64) : Prop where
  keys : (members.map Prod.fst).Nodup
  name : member? members "name" = some (string name)
  typeName : member? members "type" = some (string typeName)
  size : member? members "size" = size.map fun s => int s.toInt
  align : member? members "align" = some (int align.toInt)

mutual

/-- What an object says of a descriptor. -/
inductive Says : Json → Draft → Prop
  | leaf {members : List (String × Json)} {name typeName : String} {size : Option Int64}
    {align : Int64} (h : Heads members name typeName size align)
    (hnested : member? members "nested" = none) :
    Says (object members) (.leaf name typeName size align)
  | record {members : List (String × Json)} {name typeName : String} {size : Option Int64}
    {align : Int64} {items : List Json} {children : List Draft}
    (h : Heads members name typeName size align)
    (hnested : member? members "nested" = some (array items)) (hitems : SaysAll items children) :
    Says (object members) (.record name typeName size align children)

inductive SaysAll : List Json → List Draft → Prop
  | nil : SaysAll [] []
  | cons {j : Json} {w : Draft} {js : List Json} {ws : List Draft} (h : Says j w)
    (hs : SaysAll js ws) : SaysAll (j :: js) (w :: ws)

end

/-! ## Objects -/

mutual

/-- A value that was written has no fault. -/
theorem skipFault?_toNode : ∀ j : Json, j.toNode.skipFault? = none
  | null | bool _ | int _ | string _ => by simp [toNode, Node.skipFault?]
  | array items => by
    simp [toNode, Node.skipFault?, skipItems_itemNodes items, Ending.skippedListFault?]
  | object members => by
    simp [toNode, Node.skipFault?, skipMembers_memberNodes members, Ending.skippedObjectFault?]

theorem skipItems_itemNodes : ∀ js : List Json, Node.skipItems (itemNodes js) = none
  | [] => by simp [itemNodes, Node.skipItems]
  | j :: js => by simp [itemNodes, Node.skipItems, skipFault?_toNode j, skipItems_itemNodes js]

theorem skipMembers_memberNodes : ∀ members : List (String × Json),
    Node.skipMembers (memberNodes members) = none
  | [] => by simp [memberNodes, Node.skipMembers]
  | (key, j) :: members => by
    simp [memberNodes, Node.skipMembers, Node.skippedKeyFault?, skipFault?_toNode j,
      skipMembers_memberNodes members]

end

/-- The fields of a record among the members of an object. -/
def known (shape : RecordShape) : List (String × Json) → List (String × Node)
  | [] => []
  | (key, j) :: members =>
    if shape.fields.contains key then (key, j.toNode) :: known shape members
    else known shape members

theorem objectEntries_memberNodes (shape : RecordShape) :
    ∀ (members : List (String × Json)) (seen : List String), (members.map Prod.fst).Nodup →
      (∀ key ∈ seen, key ∉ members.map Prod.fst) →
      shape.objectEntries seen .closed (memberNodes members) = ⟨known shape members, .ok ()⟩ := by
  intro members
  induction members with
  | nil => intros; rfl
  | cons m members ih =>
    obtain ⟨key, j⟩ := m
    intro seen hkeys hseen
    rw [List.map_cons, List.nodup_cons] at hkeys
    have hfresh : key ∉ seen := fun hmem => hseen key hmem (by simp)
    have hlater : ∀ k ∈ seen, k ∉ members.map Prod.fst := fun k hk hmem =>
      hseen k hk (List.mem_cons_of_mem _ hmem)
    simp only [memberNodes, RecordShape.objectEntries, known, skipFault?_toNode]
    by_cases hknown : shape.fields.contains key = true
    · rw [if_pos hknown, if_pos hknown, if_neg (by simpa using hfresh),
        ih (key :: seen) hkeys.2 (List.forall_mem_cons.2 ⟨hkeys.1, hlater⟩)]
    · rw [if_neg hknown, if_neg hknown, ih seen hkeys.2 hlater]

theorem entries_object (shape : RecordShape) {members : List (String × Json)}
    (hkeys : (members.map Prod.fst).Nodup) :
    shape.entries (object members).toNode = .ok ⟨known shape members, .ok ()⟩ := by
  rw [toNode, RecordShape.entries, objectEntries_memberNodes shape members [] hkeys (by simp)]

/-- A part of a record after a member was looked up: as before if there is no such member, and what
the member is read as otherwise. -/
def Given {β : Type} (decode : Node → Decoded (Option β)) :
    Option Json → Option β → Option β → Prop
  | none, before, after => after = before
  | some j, _, after => decode j.toNode = .ok after

theorem given_some {β : Type} {decode : Node → Decoded (Option β)} {j : Json}
    {before after : Option β} : Given decode (some j) before after ↔ decode j.toNode = .ok after :=
  .rfl

theorem given_array_iff {β : Type} {f : Node → Decoded β} {items : List Json}
    {before after : Option β} :
    Given (·.asOption f) (some (array items)) before after ↔
      ∃ x, f (array items).toNode = .ok x ∧ after = some x := by
  simp only [given_some, toNode, Node.asOption]
  rcases f (.list (itemNodes items) .closed) with e | x <;> simp [Except.map, eq_comm]

theorem lookup_eq_none {β : Type} {key : String} {members : List (String × β)}
    (h : key ∉ members.map Prod.fst) : members.lookup key = none := by
  rw [List.lookup_eq_none_iff]
  intro m hm
  simp only [bne_iff_ne, ne_eq]
  rintro rfl
  exact h (List.mem_map_of_mem hm)

theorem given_cons_of_ne {β : Type} {decode : Node → Decoded (Option β)} {key k : String}
    (h : key ≠ k) (j : Json) (members : List (String × Json)) :
    Given decode (((key, j) :: members).lookup k) = Given decode (members.lookup k) := by
  rw [List.lookup_cons, beq_eq_false_iff_ne.2 h.symm]

/-- The first member is looked up, and then those behind it. -/
theorem given_cons_iff {β : Type} {decode : Node → Decoded (Option β)} {key k : String} {j : Json}
    {members : List (String × Json)} {before after : Option β}
    (hkey : key ∉ members.map Prod.fst) :
    Given decode (((key, j) :: members).lookup k) before after ↔
      ∃ x, (if key = k then decode j.toNode = .ok x else x = before) ∧
        Given decode (members.lookup k) x after := by
  by_cases hk : key = k
  · subst hk
    simp [lookup_eq_none hkey, Given]
  · simp [given_cons_of_ne hk, hk]

end Json

namespace Descriptor

open Json

/-- Reading a field sets the part of its name and no other. -/
theorem readField_eq_ok_iff {children : Node → Decoded (List Descriptor)} {p q : Parts}
    {key : String} {n : Node} (hkey : key ∈ shape.fields) :
    readField children p (key, n) = .ok q ↔
      (if key = "name" then n.asString.map some = .ok q.name else q.name = p.name) ∧
      (if key = "type" then n.asString.map some = .ok q.typeName else q.typeName = p.typeName) ∧
      (if key = "size" then n.asOption Node.asInt64 = .ok q.size else q.size = p.size) ∧
      (if key = "align" then n.asInt64.map some = .ok q.align else q.align = p.align) ∧
      (if key = "nested" then n.asOption children = .ok q.nested else q.nested = p.nested) := by
  obtain ⟨name, typeName, size, align, nested⟩ := p
  obtain ⟨name', typeName', size', align', nested'⟩ := q
  simp only [shape, List.mem_cons, List.not_mem_nil, or_false] at hkey
  rcases hkey with rfl | rfl | rfl | rfl | rfl
  · rcases hn : n.asString with e | s <;> simp [readField, hn, Except.map, eq_comm]
  · rcases hn : n.asString with e | s <;> simp [readField, hn, Except.map, eq_comm, and_left_comm]
  · rcases hn : n.asOption Node.asInt64 with e | s <;>
      simp [readField, hn, Except.map, eq_comm, and_left_comm]
  · rcases hn : n.asInt64 with e | s <;>
      simp [readField, hn, Except.map, eq_comm, and_left_comm]
  · rcases hn : n.asOption children with e | s <;>
      simp [readField, hn, Except.map, eq_comm, and_left_comm]

/-- Each part of a descriptor is read from the member of its name. -/
theorem foldlM_readField {children : Node → Decoded (List Descriptor)} {q : Parts} :
    ∀ (members : List (String × Json)) (p : Parts), (members.map Prod.fst).Nodup →
      ((known shape members).foldlM (readField children) p = .ok q ↔
        Given (·.asString.map some) (members.lookup "name") p.name q.name ∧
        Given (·.asString.map some) (members.lookup "type") p.typeName q.typeName ∧
        Given (·.asOption Node.asInt64) (members.lookup "size") p.size q.size ∧
        Given (·.asInt64.map some) (members.lookup "align") p.align q.align ∧
        Given (·.asOption children) (members.lookup "nested") p.nested q.nested) := by
  intro members
  induction members with
  | nil =>
    intro p _
    obtain ⟨name, typeName, size, align, nested⟩ := p
    obtain ⟨name', typeName', size', align', nested'⟩ := q
    simp [known, Given, pure, Except.pure, eq_comm]
  | cons m members ih =>
    obtain ⟨key, j⟩ := m
    intro p hkeys
    rw [List.map_cons, List.nodup_cons] at hkeys
    obtain ⟨hfresh, hkeys⟩ := hkeys
    unfold known
    by_cases hkey : key ∈ shape.fields
    · rw [if_pos (by simpa using hkey), List.foldlM_cons, bind_eq_ok]
      simp only [readField_eq_ok_iff hkey, ih _ hkeys, given_cons_iff hfresh]
      constructor
      · rintro ⟨x, ⟨h1, h2, h3, h4, h5⟩, g1, g2, g3, g4, g5⟩
        exact ⟨⟨_, h1, g1⟩, ⟨_, h2, g2⟩, ⟨_, h3, g3⟩, ⟨_, h4, g4⟩, _, h5, g5⟩
      · rintro ⟨⟨x1, h1, g1⟩, ⟨x2, h2, g2⟩, ⟨x3, h3, g3⟩, ⟨x4, h4, g4⟩, x5, h5, g5⟩
        exact ⟨⟨x1, x2, x3, x4, x5⟩, ⟨h1, h2, h3, h4, h5⟩, g1, g2, g3, g4, g5⟩
    · rw [if_neg (by simpa using hkey), ih p hkeys]
      simp only [shape, List.mem_cons, List.not_mem_nil, or_false, not_or] at hkey
      obtain ⟨h1, h2, h3, h4, h5⟩ := hkey
      rw [given_cons_of_ne h1, given_cons_of_ne h2, given_cons_of_ne h3, given_cons_of_ne h4,
        given_cons_of_ne h5]

theorem lookup_of_member? {members : List (String × Json)} {key : String} {j : Json}
    (h : member? members key = some j) : members.lookup key = some j := by
  unfold member? at h
  split at h
  · cases h
  · exact h

theorem given_none_iff {β : Type} {f : Node → Decoded β} {members : List (String × Json)}
    {key : String} {after : Option β} (h : member? members key = none) :
    Given (·.asOption f) (members.lookup key) none after ↔ after = none := by
  unfold member? at h
  split at h
  · next hnull => simp [hnull, Given, toNode, Node.asOption, eq_comm]
  · simp [h, Given]

theorem asInt64_toInt (i : Int64) : (Node.int i.toInt).asInt64 = .ok i := by
  have hrange : -0x8000000000000000 ≤ i.toInt ∧ i.toInt < 0x8000000000000000 :=
    ⟨i.le_toInt, i.toInt_lt⟩
  simp only [Node.asInt64, Node.asInteger, if_pos hrange, Except.map, Int64.ofInt_toInt]

theorem ofParts_leaf_iff {name typeName : String} {size : Option Int64} {align : Int64}
    {d : Descriptor} :
    ofParts ⟨some name, some typeName, size, some align, none⟩ = .ok d ↔
      size ≠ none ∧ leaf name typeName (size.getD 0) align = d := by
  rcases size with _ | size <;>
    simp [ofParts, require, bind, Except.bind, pure, Except.pure, throw, throwThe,
      MonadExceptOf.throw]

theorem ofParts_record_iff {name typeName : String} {size : Option Int64} {align : Int64}
    {children : List Descriptor} {d : Descriptor} :
    ofParts ⟨some name, some typeName, size, some align, some children⟩ = .ok d ↔
      (size ≠ none ∨ children ≠ []) ∧ record name typeName (size.getD 0) align children = d := by
  rcases size with _ | size <;> rcases children with _ | ⟨c, cs⟩ <;>
    simp [ofParts, require, bind, Except.bind, pure, Except.pure, throw, throwThe,
      MonadExceptOf.throw]

theorem ofNode_object_iff {members : List (String × Json)} {name typeName : String}
    {size : Option Int64} {align : Int64} (h : Heads members name typeName size align)
    {limit : Nat} {d : Descriptor} :
    ofNode (limit + 1) (object members).toNode = .ok d ↔
      ∃ nested, Given (·.asOption (ofNodes limit)) (members.lookup "nested") none nested ∧
        ofParts ⟨some name, some typeName, size, some align, nested⟩ = .ok d := by
  have hsize : ∀ after, Given (·.asOption Node.asInt64) (members.lookup "size") none after ↔
      after = size := by
    intro after
    have hsize := h.size
    rcases size with _ | size
    · exact given_none_iff hsize
    · rw [lookup_of_member? hsize]
      simp [given_some, toNode, Node.asOption, asInt64_toInt, Except.map, eq_comm]
  have hdecode : ofNode (limit + 1) (object members).toNode =
      (known shape members).foldlM (readField (ofNodes limit)) {} >>= ofParts := by
    simp [ofNode, entries_object shape h.keys, bind, Except.bind]
  rw [hdecode, bind_eq_ok]
  simp only [foldlM_readField members {} h.keys, lookup_of_member? h.name,
    lookup_of_member? h.typeName, lookup_of_member? h.align, hsize, given_some, toNode,
    Node.asString, Node.asText, asInt64_toInt, Except.map, Except.ok.injEq]
  constructor
  · rintro ⟨⟨n, t, s, a, nested⟩, ⟨rfl, rfl, rfl, rfl, hnested⟩, hd⟩
    exact ⟨nested, hnested, hd⟩
  · rintro ⟨nested, hnested, hd⟩
    exact ⟨⟨_, _, _, _, nested⟩, ⟨rfl, rfl, rfl, rfl, hnested⟩, hd⟩

theorem depth_le_of_lookup {members : List (String × Json)} {key : String} {j : Json}
    (h : members.lookup key = some j) :
    j.toNode.depth ≤ Node.depthMembers (memberNodes members) := by
  induction members with
  | nil => cases h
  | cons m members ih =>
    obtain ⟨k, v⟩ := m
    rw [memberNodes, Node.depthMembers]
    rw [List.lookup_cons] at h
    split at h
    · obtain rfl := Option.some.inj h
      exact Nat.le_max_left _ _
    · exact (ih h).trans (Nat.le_max_right _ _)

theorem ofNodes_array (limit : Nat) (items : List Json) :
    ofNodes (limit + 1) (array items).toNode = (itemNodes items).mapM (ofNode limit) := by
  rw [toNode, ofNodes]
  exact bind_pure ((itemNodes items).mapM (ofNode limit))

mutual

/-- An object is read as what it says, if that is complete. -/
theorem ofNode_eq_ok_iff : ∀ (w : Draft) {j : Json} {limit : Nat} {d : Descriptor}, Says j w →
    j.toNode.depth ≤ limit → (ofNode limit j.toNode = .ok d ↔ w.Complete ∧ w.descriptor = d)
  | .leaf name typeName size align, _, limit, d, .leaf h hnested, hdepth => by
    rcases limit with _ | limit
    · simp [toNode, Node.depth] at hdepth
    rw [ofNode_object_iff h]
    simp only [given_none_iff hnested, exists_eq_left, ofParts_leaf_iff, Draft.Complete,
      Draft.descriptor]
  | .record name typeName size align children, _, limit, d, .record h hnested hitems, hdepth => by
    have hlookup := lookup_of_member? hnested
    have hinner := depth_le_of_lookup hlookup
    simp only [toNode, Node.depth] at hdepth hinner
    obtain ⟨limit, rfl⟩ := Nat.exists_eq_add_of_le' (show 2 ≤ limit by omega)
    have ih : ∀ ds, (itemNodes _).mapM (ofNode limit) = .ok ds ↔
        Draft.CompleteAll children ∧ Draft.descriptors children = ds := fun _ =>
      mapM_ofNode_eq_ok_iff children hitems (by omega)
    rw [ofNode_object_iff h, hlookup]
    simp only [given_array_iff, ofNodes_array, ih, Draft.Complete, Draft.descriptor]
    constructor
    · rintro ⟨nested, ⟨ds, ⟨hall, rfl⟩, rfl⟩, hparts⟩
      obtain ⟨hsized, hd⟩ := ofParts_record_iff.1 hparts
      rw [Draft.descriptors_ne_nil_iff] at hsized
      exact ⟨⟨hsized, hall⟩, hd⟩
    · rintro ⟨⟨hsized, hall⟩, hd⟩
      rw [← Draft.descriptors_ne_nil_iff] at hsized
      exact ⟨_, ⟨_, ⟨hall, rfl⟩, rfl⟩, ofParts_record_iff.2 ⟨hsized, hd⟩⟩

theorem mapM_ofNode_eq_ok_iff : ∀ (ws : List Draft) {js : List Json} {limit : Nat}
    {ds : List Descriptor}, SaysAll js ws → Node.depthItems (itemNodes js) ≤ limit →
    ((itemNodes js).mapM (ofNode limit) = .ok ds ↔ Draft.CompleteAll ws ∧ Draft.descriptors ws = ds)
  | [], _, limit, ds, .nil, _ => by
    simp [itemNodes, Draft.CompleteAll, Draft.descriptors, pure, Except.pure]
  | w :: ws, _, limit, ds, .cons h hs, hdepth => by
    simp only [itemNodes, Node.depthItems] at hdepth
    have hhead : ∀ d, ofNode limit _ = .ok d ↔ w.Complete ∧ w.descriptor = d := fun _ =>
      ofNode_eq_ok_iff w h (by omega)
    have htail : ∀ ds, (itemNodes _).mapM (ofNode limit) = .ok ds ↔
        Draft.CompleteAll ws ∧ Draft.descriptors ws = ds := fun _ =>
      mapM_ofNode_eq_ok_iff ws hs (by omega)
    simp only [itemNodes, List.mapM_cons, bind_eq_ok, hhead, htail, pure, Except.pure,
      Except.ok.injEq, Draft.CompleteAll, Draft.descriptors]
    constructor
    · rintro ⟨d, ⟨hw, rfl⟩, ds', ⟨hws, rfl⟩, rfl⟩
      exact ⟨⟨hw, hws⟩, rfl⟩
    · rintro ⟨⟨hw, hws⟩, rfl⟩
      exact ⟨_, ⟨hw, rfl⟩, _, ⟨hws, rfl⟩, rfl⟩

end

/-! ## Written descriptors -/

mutual

/-- What is written of a descriptor says all of it. -/
theorem exists_says : ∀ d : Descriptor,
    ∃ w : Draft, Says d.toJson w ∧ w.Complete ∧ w.descriptor = d
  | leaf name typeName size align => by
    refine ⟨.leaf name typeName (some size) align, ?_, by simp [Draft.Complete], rfl⟩
    rw [toJson]
    exact .leaf ⟨by simp, rfl, rfl, rfl, rfl⟩ rfl
  | record name typeName size align children => by
    obtain ⟨ws, hws, hcomplete, hchildren⟩ := exists_saysAll children
    refine ⟨.record name typeName (some size) align ws, ?_, ⟨by simp, hcomplete⟩, ?_⟩
    · rw [toJson]
      exact .record ⟨by simp, rfl, rfl, rfl, rfl⟩ rfl hws
    · rw [Draft.descriptor, hchildren]
      rfl

theorem exists_saysAll : ∀ ds : List Descriptor,
    ∃ ws : List Draft, SaysAll (toJsons ds) ws ∧ Draft.CompleteAll ws ∧ Draft.descriptors ws = ds
  | [] => ⟨[], .nil, trivial, rfl⟩
  | d :: ds => by
    obtain ⟨w, hw, hcomplete, hd⟩ := exists_says d
    obtain ⟨ws, hws, hall, hds⟩ := exists_saysAll ds
    exact ⟨w :: ws, .cons hw hws, ⟨hcomplete, hall⟩, by rw [Draft.descriptors, hd, hds]⟩

end

theorem ofNode_toJson (d : Descriptor) {limit : Nat} (h : d.toJson.toNode.depth ≤ limit) :
    ofNode limit d.toJson.toNode = .ok d := by
  obtain ⟨w, hw, hcomplete, hd⟩ := exists_says d
  exact (ofNode_eq_ok_iff w hw h).2 ⟨hcomplete, hd⟩

theorem ofNodes_toJsons (ds : List Descriptor) {limit : Nat}
    (h : (array (toJsons ds)).toNode.depth ≤ limit) :
    ofNodes limit (array (toJsons ds)).toNode = .ok ds := by
  obtain ⟨ws, hws, hall, hds⟩ := exists_saysAll ds
  rw [toNode, Node.depth] at h
  obtain ⟨limit, rfl⟩ := Nat.exists_eq_add_of_le' (show 1 ≤ limit by omega)
  rw [ofNodes_array]
  exact (mapM_ofNode_eq_ok_iff ws hws (by omega)).2 ⟨hall, hds⟩

end Descriptor

end StructPadding

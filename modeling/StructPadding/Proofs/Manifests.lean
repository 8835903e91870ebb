import StructPadding.Extraction
import StructPadding.Proofs.CompactText
import StructPadding.Proofs.Drafts

/-!
# Manifests read back

A manifest is decoded from what is written of it as it was (`ofNode_toJson`), and its text is read
back within the limit of what a text may nest (`readsAs_compact`). So the structs that are extracted
from the text of a manifest are those of the manifest, laid out.
-/

namespace StructPadding

open Json

theorem Json.asCount_natCast {n : Nat} (h : n < UInt64.size) :
    (int n).toNode.asCount = .ok n := by
  have hrange : 0 ≤ (n : Int) ∧ (n : Int) < (UInt64.size : Nat) :=
    ⟨Int.natCast_nonneg n, Int.ofNat_lt.2 h⟩
  rw [toNode]
  unfold Node.asCount Node.asInteger
  simp only []
  rw [if_pos hrange]
  simp only [Except.map, Int.toNat_natCast]

/-- A record is read from the members that are its fields. -/
theorem Json.decode_object {σ α : Type} (shape : RecordShape) (start : σ)
    (step : Nat → σ → String × Node → Decoded σ) (finish : σ → Decoded α) (limit : Nat)
    {members : List (String × Json)} (hkeys : (members.map Prod.fst).Nodup) :
    shape.decode start step finish (limit + 1) (object members).toNode =
      (known shape members).foldlM (step limit) start >>= finish := by
  simp [RecordShape.decode, entries_object shape hkeys, bind, Except.bind]

theorem Json.asList_closed {α : Type} (decode : Nat → Node → Decoded α) (limit : Nat)
    (items : List Node) :
    Node.asList decode (limit + 1) (.list items .closed) = items.mapM (decode limit) := by
  rw [Node.asList]
  exact bind_pure (items.mapM (decode limit))

namespace LineRange

/-- Both lines are 64-bit words. -/
def Fits (r : LineRange) : Prop :=
  r.first < UInt64.size ∧ r.last < UInt64.size

-- for any two values and not for numbers, since a word's bound must not be unfolded here
theorem ofNode_object {x y : Json} {first last : Nat} (hx : x.toNode.asCount = .ok first)
    (hy : y.toNode.asCount = .ok last) (limit : Nat) :
    ofNode (limit + 1) (object [("start", x), ("end", y)]).toNode = .ok ⟨first, last⟩ := by
  rw [ofNode, decode_object _ _ _ _ _ (by simp)]
  simp [known, hx, hy, require, Except.map, bind, Except.bind, pure, Except.pure]

theorem ofNode_toJson {r : LineRange} (h : r.Fits) (limit : Nat) :
    ofNode (limit + 1) r.toJson.toNode = .ok r :=
  ofNode_object (asCount_natCast h.1) (asCount_natCast h.2) limit

end LineRange

namespace Manifest

namespace Struct

theorem ofNode_object {x y : Json} {name : String} {lines : LineRange} {fields : List Descriptor}
    {limit : Nat} (hx : LineRange.ofNode limit x.toNode = .ok lines)
    (hy : Descriptor.ofNodes limit y.toNode = .ok fields) :
    ofNode (limit + 1) (object [("name", string name), ("lines", x), ("fields", y)]).toNode =
      .ok ⟨name, lines, fields⟩ := by
  have hname : (string name).toNode.asString = .ok name := rfl
  rw [ofNode, decode_object _ _ _ _ _ (by simp)]
  simp [known, hname, hx, hy, require, Except.map, bind, Except.bind, pure, Except.pure]

theorem ofNode_toJson {s : Struct} (h : s.lines.Fits) {limit : Nat}
    (hdepth : s.toJson.toNode.depth ≤ limit) : ofNode limit s.toJson.toNode = .ok s := by
  simp only [toJson, LineRange.toJson, toNode, memberNodes, Node.depth, Node.depthMembers] at hdepth
  obtain ⟨limit, rfl⟩ := Nat.exists_eq_add_of_le' (show 2 ≤ limit by omega)
  exact ofNode_object (LineRange.ofNode_toJson h limit)
    (Descriptor.ofNodes_toJsons s.fields (by simp only [toNode, Node.depth]; omega))

end Struct

/-- All lines are 64-bit words. -/
def Fits (m : Manifest) : Prop :=
  ∀ s ∈ m.structs, s.lines.Fits

theorem mapM_ofNode_toJson {limit : Nat} {ss : List Struct} (h : ∀ s ∈ ss, s.lines.Fits)
    (hdepth : Node.depthItems (itemNodes (ss.map Struct.toJson)) ≤ limit) :
    (itemNodes (ss.map Struct.toJson)).mapM (Struct.ofNode limit) = .ok ss := by
  induction ss with
  | nil => rfl
  | cons s ss ih =>
    rw [List.forall_mem_cons] at h
    simp only [List.map_cons, itemNodes, Node.depthItems] at hdepth
    have hhead := Struct.ofNode_toJson h.1 (show _ ≤ limit by omega)
    simp only [List.map_cons, itemNodes, List.mapM_cons, hhead, ih h.2 (by omega)]
    rfl

theorem ofNode_object {x : Json} {ss : List Struct} {limit : Nat}
    (hx : Node.asList Struct.ofNode limit x.toNode = .ok ss) :
    ofNode (limit + 1) (object [("structs", x)]).toNode = .ok ⟨ss⟩ := by
  rw [ofNode, decode_object _ _ _ _ _ (by simp)]
  simp [known, hx, require, Except.map, bind, Except.bind, pure, Except.pure]

theorem ofNode_toJson {m : Manifest} (h : m.Fits) {limit : Nat}
    (hdepth : m.toJson.toNode.depth ≤ limit) : ofNode limit m.toJson.toNode = .ok m := by
  simp only [toJson, toNode, memberNodes, Node.depth, Node.depthMembers] at hdepth
  obtain ⟨limit, rfl⟩ := Nat.exists_eq_add_of_le' (show 2 ≤ limit by omega)
  refine ofNode_object ?_
  rw [toNode, asList_closed]
  exact mapM_ofNode_toJson h (by omega)

end Manifest

namespace Json

/-- A text is read as a value, within the limit of what a text may nest. -/
structure ReadsAs (source : List UInt8) (j : Json) : Prop where
  document : read source = ⟨j.toNode, false⟩
  depth : j.toNode.depth ≤ textLimit

theorem ReadsAs.decodeText {α : Type} {source : List UInt8} {j : Json} (h : ReadsAs source j)
    (decode : Nat → Node → Decoded α) :
    decodeText decode source = decode textLimit j.toNode := by
  unfold Json.decodeText
  rw [h.document]
  exact bind_pure (decode textLimit j.toNode)

end Json

/-! ## Text -/

theorem Json.fits_toInt (i : Int64) : (int i.toInt).Fits := by
  have hlow := i.le_toInt
  have hhigh := i.toInt_lt
  have hsize : (0x8000000000000000 : Int) ≤ UInt64.size := by decide
  exact ⟨by omega, by omega⟩

theorem Json.fits_natCast {n : Nat} (h : n < UInt64.size) : (int n).Fits :=
  ⟨by omega, by omega⟩

namespace Descriptor

mutual

theorem fits_toJson : ∀ d : Descriptor, d.toJson.Fits
  | leaf name typeName size align => by
    rw [toJson]
    exact ⟨trivial, trivial, fits_toInt size, fits_toInt align, trivial⟩
  | record name typeName size align children => by
    rw [toJson]
    exact ⟨trivial, trivial, fits_toInt size, fits_toInt align, fits_toJsons children, trivial⟩

theorem fits_toJsons : ∀ ds : List Descriptor, FitsItems (toJsons ds)
  | [] => trivial
  | d :: ds => ⟨fits_toJson d, fits_toJsons ds⟩

end

end Descriptor

namespace Manifest

theorem fits_toJson {m : Manifest} (h : m.Fits) : m.toJson.Fits := by
  have hlines : ∀ s ∈ m.structs, s.lines.toJson.Fits := fun s hs =>
    ⟨fits_natCast (h s hs).1, fits_natCast (h s hs).2, trivial⟩
  have hstructs : FitsItems (m.structs.map Struct.toJson) :=
    fitsItems_of_forall <| List.forall_mem_map.2 fun s hs =>
      ⟨trivial, hlines s hs, Descriptor.fits_toJsons s.fields, trivial⟩
  exact ⟨hstructs, trivial⟩

theorem readsAs_compact {m : Manifest} (h : m.Fits) (hdepth : m.toJson.toNode.depth ≤ textLimit) :
    ReadsAs (Text.Utf8.encode m.toJson.compact) m.toJson :=
  ⟨read_compact (fits_toJson h), hdepth⟩

theorem extract_of_readsAs {m : Manifest} (h : m.Fits) {source : List UInt8}
    (hread : ReadsAs source m.toJson) (rule : RecordRule) (path : String) :
    extract rule path source =
      ⟨(m.layouts rule).mapError .layout,
        [⟨.debug, s!"{path}: {m.structs.length} structs in manifest"⟩]⟩ := by
  simp only [extract, hread.decodeText, ofNode_toJson h hread.depth]
  rfl

end Manifest

/-- A descriptor is read back as it was written, however deep it is nested. An object that says what
a descriptor needs is accepted exactly if every descriptor in it, at any depth, has a size or fields
of its own. So the structs of a manifest, laid out, are extracted from every text that is read as
the manifest. What is written of it is such a text, unless it is nested too deep for any text. -/
theorem descriptors_read_back :
    (∀ d : Descriptor, decodeNode Descriptor.ofNode d.toJson.toNode = .ok d) ∧
    (∀ (j : Json) (w : Draft), Says j w → ∀ d : Descriptor,
      decodeNode Descriptor.ofNode j.toNode = .ok d ↔ w.Complete ∧ w.descriptor = d) ∧
    ∀ m : Manifest, m.Fits →
      (∀ source : List UInt8, ReadsAs source m.toJson → ∀ (rule : RecordRule) (path : String),
        Manifest.extract rule path source =
          ⟨(m.layouts rule).mapError .layout,
            [⟨.debug, s!"{path}: {m.structs.length} structs in manifest"⟩]⟩) ∧
      (m.toJson.toNode.depth ≤ textLimit →
        ReadsAs (Text.Utf8.encode m.toJson.compact) m.toJson) :=
  ⟨fun d => Descriptor.ofNode_toJson d le_rfl,
    fun _ w hsaid _ => Descriptor.ofNode_eq_ok_iff w hsaid le_rfl,
    fun _ hfits => ⟨fun _ hread => Manifest.extract_of_readsAs hfits hread,
      Manifest.readsAs_compact hfits⟩⟩

/-- A record that says its size by its fields, among members of no meaning. -/
def unsized : Json :=
  .object [("align", .int 8), ("note", .array [.null]), ("name", .string "r"), ("size", .null),
    ("type", .string "R"),
    ("nested", .array [.object [("name", .string "n"), ("type", .string "int64"),
      ("size", .int 8), ("align", .int 8)]])]

/-- A struct with a record inside, in which there is an empty one of a negative size. -/
def nestedManifest : Manifest :=
  ⟨[⟨"S", ⟨1, 4⟩, [.record "r" "R" 0 8 [.leaf "n" "a\t\"b\"" 8 8, .record "e" "é" (-1) 1 []]]⟩]⟩

theorem descriptors_read_back_nested :
    Says unsized (.record "r" "R" none 8 [.leaf "n" "int64" (some 8) 8]) ∧
    decodeNode Descriptor.ofNode unsized.toNode =
      .ok (.record "r" "R" 0 8 [.leaf "n" "int64" 8 8]) ∧
    nestedManifest.Fits ∧
    ReadsAs (Text.Utf8.encode nestedManifest.toJson.compact) nestedManifest.toJson ∧
    Manifest.extract .natural "s.json" (Text.Utf8.encode nestedManifest.toJson.compact) =
      ⟨(nestedManifest.layouts .natural).mapError .layout,
        [⟨.debug, "s.json: 1 structs in manifest"⟩]⟩ := by
  have hsaid : Says unsized (.record "r" "R" none 8 [.leaf "n" "int64" (some 8) 8]) :=
    .record ⟨by decide, rfl, rfl, rfl, rfl⟩ rfl
      (.cons (.leaf ⟨by decide, rfl, rfl, rfl, rfl⟩ rfl) .nil)
  have hfits : nestedManifest.Fits := by
    intro s hs
    obtain rfl := List.mem_singleton.1 hs
    exact ⟨by decide, by decide⟩
  obtain ⟨-, haccepted, hmanifests⟩ := descriptors_read_back
  obtain ⟨hextract, htext⟩ := hmanifests nestedManifest hfits
  have hread := htext (by decide)
  exact ⟨hsaid, (haccepted _ _ hsaid _).2 ⟨by simp [Draft.Complete, Draft.CompleteAll], rfl⟩, hfits,
    hread, hextract _ hread .natural "s.json"⟩

end StructPadding

import Whiteboard.Board
import Whiteboard.Proofs.Document.Equality
import Whiteboard.Proofs.Scalar.Lawful

/-!
# The numbers of a document

A property of all numbers in a document is told by its writing, which has all of them. Documents
whose numbers are finite stay as they are when they are kept, and equal themselves.
-/

namespace Whiteboard

namespace Json

variable {α β : Type} (P : α → Prop)

/-- All numbers of a value have a property. -/
def All (v : Json α) : Prop := ∀ x ∈ v.numbers, P x

/-- All numbers of some members have a property. -/
def AllMembers (ms : Entries (Json α)) : Prop := ∀ x ∈ memberNumbers ms, P x

@[simp]
theorem all_null : All P null := List.forall_mem_nil P

@[simp]
theorem all_bool (b : Bool) : All P (bool b) := List.forall_mem_nil P

@[simp]
theorem all_int (i : Int) : All P (int i) := List.forall_mem_nil P

@[simp]
theorem all_str (s : String) : All P (str s) := List.forall_mem_nil P

@[simp]
theorem all_num (x : α) : All P (num x) ↔ P x := List.forall_mem_singleton

@[simp]
theorem all_obj (ms : Entries (Json α)) : All P (obj ms) ↔ AllMembers P ms := Iff.rfl

@[simp]
theorem all_arr (vs : List (Json α)) : All P (arr vs) ↔ ∀ v ∈ vs, All P v := by
  change (∀ x ∈ itemNumbers vs, P x) ↔ ∀ v ∈ vs, All P v
  induction vs with
  | nil => exact iff_of_true (List.forall_mem_nil P) (List.forall_mem_nil _)
  | cons v vs ih =>
    rw [List.forall_mem_cons, ← ih]
    exact List.forall_mem_append

@[simp]
theorem allMembers_nil : AllMembers P [] := List.forall_mem_nil P

@[simp]
theorem allMembers_cons (k : String) (v : Json α) (ms : Entries (Json α)) :
    AllMembers P ((k, v) :: ms) ↔ All P v ∧ AllMembers P ms := List.forall_mem_append

@[simp]
theorem allMembers_append (ms ms' : Entries (Json α)) :
    AllMembers P (ms ++ ms') ↔ AllMembers P ms ∧ AllMembers P ms' := by
  induction ms with
  | nil => simp
  | cons m ms ih =>
    obtain ⟨k, v⟩ := m
    simp [ih, and_assoc]

@[simp]
theorem all_ofOption (write : β → Json α) (o : Option β) :
    All P (ofOption write o) ↔ ∀ v ∈ o, All P (write v) := by
  cases o <;> simp [ofOption]

@[simp]
theorem all_ofStrings (ss : List String) : All P (ofStrings ss) := by simp [ofStrings]

end Json

variable {α β : Type}

/-- All numbers of an element are finite. -/
def Element.Finite [Scalar α] (e : Element α) : Prop :=
  e.toJson.All fun x => Scalar.isFinite x = true

/-- All numbers of a document are finite. -/
def Document.Finite [Scalar α] (d : Document α) : Prop :=
  d.toJson.All fun x => Scalar.isFinite x = true

theorem Element.mapAll_eq_map (f : α → β) (es : List (Element α)) :
    mapAll f es = es.map (map f) := by
  induction es with
  | nil => rfl
  | cons e es ih => rw [mapAll, ih, List.map_cons]

theorem Element.mem_mapAll {f : α → β} {es : List (Element α)} {e : Element β} :
    e ∈ mapAll f es ↔ ∃ e', e' ∈ es ∧ e'.map f = e := by
  rw [mapAll_eq_map, List.mem_map]

theorem Element.toJsons_eq_map (es : List (Element α)) : toJsons es = es.map toJson := by
  induction es with
  | nil => rfl
  | cons e es ih => rw [toJsons, ih, List.map_cons]

instance [Scalar α] (d : Document α) : Decidable d.Finite :=
  inferInstanceAs (Decidable (∀ x ∈ d.toJson.numbers, Scalar.isFinite x = true))

theorem Document.finite_iff [Scalar α] {d : Document α} :
    d.Finite ↔ (∀ e ∈ d.elements, e.Finite) ∧ Scalar.isFinite d.viewport.x = true ∧
      Scalar.isFinite d.viewport.y = true ∧ Scalar.isFinite d.viewport.scale = true := by
  simp [Finite, Element.Finite, toJson, toMembers, Viewport.toJson, Viewport.toMembers,
    Element.toJsons_eq_map]

theorem Element.finite_group [Scalar α] {f : Frame α} {cs : List (Element α)}
    (h : (group f cs).Finite) : ∀ c ∈ cs, c.Finite := by
  simp [Finite, toJson, toJsons_eq_map] at h
  exact h.2.2

theorem Element.all_frame {P : α → Prop} {e : Element α} (h : e.toJson.All P) :
    Json.AllMembers P e.frame.toMembers := by
  cases e <;> simp_all [Element.toJson, Element.frame]

/-! ## Changed numbers -/

section Map

variable {f : α → α} {P : α → Prop}

theorem Frame.all_map {r : Frame α} :
    Json.AllMembers P (r.map f).toMembers ↔ Json.AllMembers (fun x => P (f x)) r.toMembers := by
  simp [Frame.toMembers, Frame.map]

theorem Point.all_map {p : Point α} :
    (p.map f).toJson.All P ↔ p.toJson.All fun x => P (f x) := by
  simp [Point.toJson, Point.map]

theorem TextStyle.all_map {s : TextStyle α} :
    (s.map f).toJson.All P ↔ s.toJson.All fun x => P (f x) := by
  simp [TextStyle.toJson, TextStyle.toMembers, TextStyle.map]

theorem RangeStyle.all_map {r : RangeStyle α} :
    (r.map f).toJson.All P ↔ r.toJson.All fun x => P (f x) := by
  simp [RangeStyle.toJson, RangeStyle.map]

theorem Shape.all_map {s : Shape α} :
    Json.AllMembers P (s.map f).toMembers ↔ Json.AllMembers (fun x => P (f x)) s.toMembers := by
  simp [Shape.toMembers, Shape.map, TextStyle.all_map, RangeStyle.all_map, Point.all_map,
    Binding.toJson]

theorem TextBlock.all_map {t : TextBlock α} :
    Json.AllMembers P (t.map f).toMembers ↔ Json.AllMembers (fun x => P (f x)) t.toMembers := by
  simp [TextBlock.toMembers, TextBlock.map, TextStyle.all_map, RangeStyle.all_map]

namespace Element

mutual

theorem all_map (e : Element α) : (e.map f).toJson.All P ↔ e.toJson.All fun x => P (f x) := by
  cases e with
  | shape r k s => simp [map, toJson, kindMember, Frame.all_map, Shape.all_map]
  | image r i => simp [map, toJson, kindMember, Frame.all_map, Image.toMembers]
  | text r t => simp [map, toJson, kindMember, Frame.all_map, TextBlock.all_map]
  | group r cs => simp [map, toJson, kindMember, Frame.all_map, all_mapAll cs]

theorem all_mapAll (es : List (Element α)) :
    (∀ v ∈ toJsons (mapAll f es), v.All P) ↔ ∀ v ∈ toJsons es, v.All fun x => P (f x) := by
  cases es with
  | nil => simp [mapAll, toJsons]
  | cons e es => simp [mapAll, toJsons, all_map e, all_mapAll es]

end

end Element

theorem Document.all_map {d : Document α} :
    (d.map f).toJson.All P ↔ d.toJson.All fun x => P (f x) := by
  simp [Document.toJson, Document.toMembers, Document.map, Viewport.toJson, Viewport.toMembers,
    Viewport.map, Element.all_mapAll]

theorem Frame.map_eq_self {r : Frame α} (h : Json.AllMembers (fun x => f x = x) r.toMembers) :
    r.map f = r := by
  simp [Frame.toMembers] at h
  simp [Frame.map, h]

theorem Point.map_eq_self {p : Point α} (h : p.toJson.All fun x => f x = x) : p.map f = p := by
  simp [Point.toJson] at h
  simp [Point.map, h]

theorem TextStyle.map_eq_self {s : TextStyle α} (h : s.toJson.All fun x => f x = x) :
    s.map f = s := by
  simp [TextStyle.toJson, TextStyle.toMembers] at h
  simp [TextStyle.map, h]

theorem RangeStyle.map_eq_self {r : RangeStyle α} (h : r.toJson.All fun x => f x = x) :
    r.map f = r := by
  have hsize : r.size.map f = r.size := by
    simp [RangeStyle.toJson] at h
    cases hs : r.size <;> simp_all
  simp [RangeStyle.map, hsize]

theorem option_map_eq_self {β : Type} {g : β → β} {o : Option β} (h : ∀ v ∈ o, g v = v) :
    o.map g = o := by
  cases o with
  | none => rfl
  | some v => rw [Option.map_some, h v rfl]

theorem list_map_eq_self {β : Type} {g : β → β} {vs : List β} (h : ∀ v ∈ vs, g v = v) :
    vs.map g = vs := by
  rw [List.map_congr_left h, List.map_id']

theorem Shape.map_eq_self {s : Shape α} (h : Json.AllMembers (fun x => f x = x) s.toMembers) :
    s.map f = s := by
  simp [Shape.toMembers] at h
  obtain ⟨hborder, hradius, hstyle, hranges, hstart, hfinish, hhead, htail, hcurve, -⟩ := h
  simp only [Shape.map, hborder, option_map_eq_self hradius, option_map_eq_self hhead,
    option_map_eq_self htail, option_map_eq_self hcurve,
    option_map_eq_self fun t ht => TextStyle.map_eq_self (hstyle t ht),
    list_map_eq_self fun r hr => RangeStyle.map_eq_self (hranges r hr),
    option_map_eq_self fun p hp => Point.map_eq_self (hstart p hp),
    option_map_eq_self fun p hp => Point.map_eq_self (hfinish p hp)]

theorem TextBlock.map_eq_self {t : TextBlock α}
    (h : Json.AllMembers (fun x => f x = x) t.toMembers) : t.map f = t := by
  simp [TextBlock.toMembers] at h
  simp only [TextBlock.map, TextStyle.map_eq_self h.1,
    list_map_eq_self fun r hr => RangeStyle.map_eq_self (h.2 r hr)]

namespace Element

mutual

theorem map_eq_self (e : Element α) (h : e.toJson.All fun x => f x = x) : e.map f = e := by
  cases e with
  | shape r k s =>
    simp [toJson] at h
    rw [map, Frame.map_eq_self h.1, Shape.map_eq_self h.2.2]
  | image r i =>
    simp [toJson] at h
    rw [map, Frame.map_eq_self h.1]
  | text r t =>
    simp [toJson] at h
    rw [map, Frame.map_eq_self h.1, TextBlock.map_eq_self h.2.2]
  | group r cs =>
    simp [toJson] at h
    rw [map, Frame.map_eq_self h.1, mapAll_eq_self cs h.2.2]

theorem mapAll_eq_self (es : List (Element α))
    (h : ∀ v ∈ toJsons es, v.All fun x => f x = x) : mapAll f es = es := by
  cases es with
  | nil => rfl
  | cons e es =>
    simp [toJsons] at h
    rw [mapAll, map_eq_self e h.1, mapAll_eq_self es h.2]

end

/-- What is done to all numbers may be done again, if that holds for each number. -/
theorem map_map_self (hf : ∀ x, f (f x) = f x) (e : Element α) : (e.map f).map f = e.map f :=
  map_eq_self _ ((all_map e).mpr fun x _ => hf x)

end Element

theorem Document.map_eq_self {d : Document α} (h : d.toJson.All fun x => f x = x) :
    d.map f = d := by
  simp [Document.toJson, Document.toMembers, Viewport.toJson, Viewport.toMembers] at h
  simp [Document.map, Viewport.map, Element.mapAll_eq_self d.elements h.1, h.2]

end Map

/-! ## Equality to itself -/

section Beq

variable [BEq α]

theorem Frame.beq_self {r : Frame α} (h : Json.AllMembers (fun x => (x == x) = true) r.toMembers) :
    (r == r) = true := by
  simp [Frame.toMembers] at h
  change (r.id == r.id && (r.x == r.x && (r.y == r.y && (r.width == r.width &&
    (r.height == r.height && (r.rotation == r.rotation && r.zIndex == r.zIndex)))))) = true
  simp [h]

theorem Point.beq_self {p : Point α} (h : p.toJson.All fun x => (x == x) = true) :
    (p == p) = true := by
  simp [Point.toJson] at h
  change (p.x == p.x && p.y == p.y) = true
  simp [h]

theorem TextStyle.beq_self {s : TextStyle α} (h : s.toJson.All fun x => (x == x) = true) :
    (s == s) = true := by
  simp [TextStyle.toJson, TextStyle.toMembers] at h
  change (s.family == s.family && (s.size == s.size && (s.color == s.color &&
    (s.background == s.background && (s.bold == s.bold && (s.italic == s.italic &&
    (s.underline == s.underline && s.strikethrough == s.strikethrough))))))) = true
  simp [h]

theorem option_beq_self {β : Type} [BEq β] {o : Option β} (h : ∀ v ∈ o, (v == v) = true) :
    (o == o) = true := by
  cases o with
  | none => rfl
  | some v => exact h v rfl

theorem list_beq_self {β : Type} [BEq β] {vs : List β} (h : ∀ v ∈ vs, (v == v) = true) :
    (vs == vs) = true := by
  induction vs with
  | nil => rfl
  | cons v vs ih =>
    rw [List.forall_mem_cons] at h
    rw [List.cons_beq_cons, h.1, ih h.2]
    rfl

theorem RangeStyle.beq_self {r : RangeStyle α} (h : r.toJson.All fun x => (x == x) = true) :
    (r == r) = true := by
  simp [RangeStyle.toJson] at h
  change (r.start == r.start && (r.stop == r.stop && (r.bold == r.bold && (r.italic == r.italic &&
    (r.underline == r.underline && (r.strikethrough == r.strikethrough && (r.color == r.color &&
    (r.background == r.background && (r.size == r.size && r.family == r.family))))))))) = true
  simp [option_beq_self h]

theorem Shape.beq_self {s : Shape α} (h : Json.AllMembers (fun x => (x == x) = true) s.toMembers) :
    (s == s) = true := by
  simp [Shape.toMembers] at h
  obtain ⟨hborder, hradius, hstyle, hranges, hstart, hfinish, hhead, htail, hcurve, -⟩ := h
  change (s.fill == s.fill && (s.borderWidth == s.borderWidth && (s.border == s.border &&
    (s.cornerRadius == s.cornerRadius && (s.content == s.content && (s.textStyle == s.textStyle &&
    (s.ranges == s.ranges && (s.start == s.start && (s.finish == s.finish &&
    (s.headSize == s.headSize && (s.tailWidth == s.tailWidth && (s.curve == s.curve &&
    (s.startBinding == s.startBinding && s.finishBinding == s.finishBinding))))))))))))) = true
  simp [hborder, option_beq_self hradius, option_beq_self hhead, option_beq_self htail,
    option_beq_self hcurve, option_beq_self fun t ht => TextStyle.beq_self (hstyle t ht),
    list_beq_self fun r hr => RangeStyle.beq_self (hranges r hr),
    option_beq_self fun p hp => Point.beq_self (hstart p hp),
    option_beq_self fun p hp => Point.beq_self (hfinish p hp)]

theorem TextBlock.beq_self {t : TextBlock α}
    (h : Json.AllMembers (fun x => (x == x) = true) t.toMembers) : (t == t) = true := by
  simp [TextBlock.toMembers] at h
  change (t.content == t.content && (t.style == t.style && t.ranges == t.ranges)) = true
  simp [TextStyle.beq_self h.1, list_beq_self fun r hr => RangeStyle.beq_self (h.2 r hr)]

namespace Element

mutual

theorem same_self (e : Element α) (h : e.toJson.All fun x => (x == x) = true) :
    same e e = true := by
  cases e with
  | shape r k s =>
    simp [toJson] at h
    simp [same, Frame.beq_self h.1, Shape.beq_self h.2.2]
  | image r i =>
    simp [toJson] at h
    simp [same, Frame.beq_self h.1]
  | text r t =>
    simp [toJson] at h
    simp [same, Frame.beq_self h.1, TextBlock.beq_self h.2.2]
  | group r cs =>
    simp [toJson] at h
    simp [same, Frame.beq_self h.1, sameList_self cs h.2.2]

theorem sameList_self (es : List (Element α))
    (h : ∀ v ∈ toJsons es, v.All fun x => (x == x) = true) : sameList es es = true := by
  cases es with
  | nil => rfl
  | cons e es =>
    simp [toJsons] at h
    simp [sameList, same_self e h.1, sameList_self es h.2]

end

end Element

theorem Document.beq_self {d : Document α} (h : d.toJson.All fun x => (x == x) = true) :
    (d == d) = true := by
  simp [Document.toJson, Document.toMembers, Viewport.toJson, Viewport.toMembers] at h
  have hview : (d.viewport == d.viewport) = true := by
    change (d.viewport.x == d.viewport.x && (d.viewport.y == d.viewport.y &&
      d.viewport.scale == d.viewport.scale)) = true
    simp [h.2]
  have helements : (d.elements == d.elements) = true := by
    rw [← Element.sameList_eq_beq]
    exact Element.sameList_self d.elements h.1
  exact Document.beq_iff.mpr ⟨helements, rfl, hview⟩

end Beq

namespace Document.Finite

variable [Scalar α] {d : Document α}

theorem element (h : d.Finite) {e : Element α} (he : e ∈ d.elements) : e.Finite :=
  (Document.finite_iff.mp h).1 e he

variable [LawfulScalar α]

/-- Keeping a document leaves its finite numbers as they are. -/
theorem settled_eq (h : d.Finite) : d.settled = d :=
  Document.map_eq_self fun x hx => LawfulScalar.settle_eq (h x hx)

theorem of_settled (h : d.settled.Finite) : d.Finite := fun x hx =>
  LawfulScalar.isFinite_settle.symm.trans (Document.all_map.mp h x hx)

theorem beq_self (h : d.Finite) : (d == d) = true :=
  Document.beq_self fun x hx => Scalar.beq_self (h x hx)

end Document.Finite

end Whiteboard

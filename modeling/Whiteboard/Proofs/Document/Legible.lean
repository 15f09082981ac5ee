import Whiteboard.Proofs.Document.RoundTrip
import Whiteboard.Proofs.Json.RoundTrip

/-!
# The texts of documents

A document with finite numbers is read back from its text (`Document.read_write`): its writing
repeats no key, and where readers of documents follow its groups, readers of texts do.
-/

namespace Whiteboard

namespace Json

variable {α : Type}

mutual

/-- The integers of a value, in order. -/
def integers : Json α → List Int
  | int i => [i]
  | arr items => itemIntegers items
  | obj members => memberIntegers members
  | _ => []

def itemIntegers : List (Json α) → List Int
  | [] => []
  | v :: rest => integers v ++ itemIntegers rest

def memberIntegers : List (String × Json α) → List Int
  | [] => []
  | (_, v) :: rest => integers v ++ memberIntegers rest

end

/-- No integer has more digits than readers take. -/
def Short (v : Json α) : Prop :=
  ∀ i ∈ v.integers, (Nat.toDigits 10 i.natAbs).length ≤ Decimal.maxIntegerDigits

instance (v : Json α) : Decidable v.Short :=
  inferInstanceAs (Decidable (∀ i ∈ v.integers, _))

theorem short_arr {vs : List (Json α)} : (arr vs).Short ↔ ∀ v ∈ vs, v.Short := by
  simp only [Short, integers]
  induction vs with
  | nil => simp [itemIntegers]
  | cons v vs ih => simp [itemIntegers, or_imp, forall_and, ih]

theorem short_obj {ms : Entries (Json α)} : (obj ms).Short ↔ ∀ m ∈ ms, m.2.Short := by
  simp only [Short, integers]
  induction ms with
  | nil => simp [memberIntegers]
  | cons m ms ih => simp [memberIntegers, or_imp, forall_and, ih]

theorem allMembers_iff {P : α → Prop} {ms : Entries (Json α)} :
    AllMembers P ms ↔ ∀ m ∈ ms, m.2.All P := by
  induction ms with
  | nil => simp
  | cons m ms ih =>
    obtain ⟨k, v⟩ := m
    rw [allMembers_cons, ih, List.forall_mem_cons]

/-- No object repeats a key, and arrays and objects are nested no deeper than there is room. -/
inductive Regular : Nat → Json α → Prop where
  | null {room : Nat} : Regular room null
  | bool {room : Nat} {b : Bool} : Regular room (bool b)
  | int {room : Nat} {i : Int} : Regular room (int i)
  | num {room : Nat} {x : α} : Regular room (num x)
  | str {room : Nat} {s : String} : Regular room (str s)
  | arr {room : Nat} {vs : List (Json α)} :
      (∀ v ∈ vs, Regular room v) → Regular (room + 1) (arr vs)
  | obj {room : Nat} {ms : Entries (Json α)} :
      ms.keys.Nodup → (∀ m ∈ ms, Regular room m.2) → Regular (room + 1) (obj ms)

attribute [simp] Regular.null Regular.bool Regular.int Regular.num Regular.str

@[simp]
theorem regular_arr {room : Nat} {vs : List (Json α)} :
    Regular (room + 1) (arr vs) ↔ ∀ v ∈ vs, Regular room v := by
  refine ⟨fun h => ?_, .arr⟩
  cases h
  assumption

@[simp]
theorem regular_obj {room : Nat} {ms : Entries (Json α)} :
    Regular (room + 1) (obj ms) ↔ ms.keys.Nodup ∧ ∀ m ∈ ms, Regular room m.2 := by
  refine ⟨fun h => ?_, fun h => .obj h.1 h.2⟩
  cases h with
  | obj hkeys hms => exact ⟨hkeys, hms⟩

@[simp]
theorem regular_ofOption {β : Type} {room : Nat} {write : β → Json α} {o : Option β} :
    Regular room (ofOption write o) ↔ ∀ x ∈ o, Regular room (write x) := by
  cases o <;> simp [ofOption]

theorem Regular.mono {room : Nat} {v : Json α} (h : Regular room v) {room' : Nat}
    (hle : room ≤ room') : Regular room' v := by
  induction h generalizing room' with
  | null => exact .null
  | bool => exact .bool
  | int => exact .int
  | num => exact .num
  | str => exact .str
  | arr _ ih =>
    obtain ⟨room', rfl⟩ := Nat.exists_eq_add_of_le' (Nat.le_of_add_left_le hle)
    exact .arr fun v hv => ih v hv (Nat.le_of_succ_le_succ hle)
  | obj hkeys _ ih =>
    obtain ⟨room', rfl⟩ := Nat.exists_eq_add_of_le' (Nat.le_of_add_left_le hle)
    exact .obj hkeys fun m hm => ih m hm (Nat.le_of_succ_le_succ hle)

/-- What is regular is legible if its numbers are. -/
theorem legible_of_regular {room : Nat} {v : Json Double} (h : Regular room v)
    (hfin : v.All fun x => Scalar.isFinite x = true) (hshort : v.Short) : Legible room v := by
  induction h with
  | null => exact .null
  | bool => exact .bool
  | int => exact .int (hshort _ (List.mem_singleton.mpr rfl))
  | num =>
    rw [all_num] at hfin
    exact .num fun rest hrest => readNumber_literal hfin hrest
  | str => exact .str
  | arr _ ih =>
    rw [all_arr] at hfin
    rw [short_arr] at hshort
    exact .arr fun v hv => ih v hv (hfin v hv) (hshort v hv)
  | obj hkeys _ ih =>
    rw [all_obj, allMembers_iff] at hfin
    rw [short_obj] at hshort
    exact .obj hkeys fun m hm => ih m hm (hfin m hm) (hshort m hm)

end Json

open Json

variable {α : Type}

/-! ## The form of documents -/

theorem Point.regular_toJson (p : Point α) : Regular 1 p.toJson := by
  simp [toJson, Entries.keys]

theorem Binding.regular_toJson (b : Binding) : Regular 1 (b.toJson : Json α) := by
  simp [toJson, Entries.keys]

theorem TextStyle.regular_toJson (s : TextStyle α) : Regular 1 s.toJson := by
  simp [toJson, toMembers, Entries.keys]

theorem RangeStyle.regular_toJson (r : RangeStyle α) : Regular 1 r.toJson := by
  simp [toJson, Entries.keys]

theorem Frame.regular_toMembers (f : Frame α) (room : Nat) :
    ∀ m ∈ f.toMembers, Regular room m.2 := by
  simp [toMembers]

theorem Shape.regular_toMembers (s : Shape α) : ∀ m ∈ s.toMembers, Regular 2 m.2 := by
  have hstyle (t : TextStyle α) := t.regular_toJson.mono (Nat.le_succ 1)
  have hpoint (p : Point α) := p.regular_toJson.mono (Nat.le_succ 1)
  have hbinding (b : Binding) := (b.regular_toJson (α := α)).mono (Nat.le_succ 1)
  simp [toMembers, hstyle, hpoint, hbinding, RangeStyle.regular_toJson]

theorem TextBlock.regular_toMembers (t : TextBlock α) : ∀ m ∈ t.toMembers, Regular 2 m.2 := by
  have hstyle := t.style.regular_toJson.mono (Nat.le_succ 1)
  simp [toMembers, hstyle, RangeStyle.regular_toJson]

namespace Element

/-- The members of an element repeat no key if those of its kind do not. -/
theorem regular_obj_append {room : Nat} {f : Frame α} {k : ElementKind} {ms : Entries (Json α)}
    (hkeys : (f.toMembers ++ kindMember k ++ ms).keys.Nodup)
    (hms : ∀ m ∈ ms, Regular room m.2) :
    Regular (room + 1) (.obj (f.toMembers ++ kindMember k ++ ms)) := by
  refine .obj hkeys fun m hm => ?_
  rcases List.mem_append.mp hm with hm | hm
  · rcases List.mem_append.mp hm with hm | hm
    · exact f.regular_toMembers room m hm
    · obtain rfl := List.mem_singleton.mp hm
      exact .str
  · exact hms m hm

mutual

/-- Each group on the way to an element adds an array and an object. -/
theorem regular_toJson (e : Element α) : Regular (2 * nesting e + 3) e.toJson := by
  cases e with
  | shape f k s =>
    exact regular_obj_append (by simp [Frame.toMembers, kindMember, Shape.toMembers, Entries.keys])
      s.regular_toMembers
  | image f i =>
    exact regular_obj_append (by simp [Frame.toMembers, kindMember, Image.toMembers, Entries.keys])
      (by simp [Image.toMembers])
  | text f t =>
    exact regular_obj_append
      (by simp [Frame.toMembers, kindMember, TextBlock.toMembers, Entries.keys])
      t.regular_toMembers
  | group f cs =>
    refine regular_obj_append (by simp [Frame.toMembers, kindMember, Entries.keys]) fun m hm => ?_
    obtain rfl := List.mem_singleton.mp hm
    exact .arr (regular_toJsons cs)

theorem regular_toJsons (es : List (Element α)) :
    ∀ v ∈ toJsons es, Regular (2 * nestingOf es + 3) v := by
  cases es with
  | nil => nofun
  | cons e es =>
    rw [toJsons, nestingOf, List.forall_mem_cons]
    exact ⟨(regular_toJson e).mono (by omega),
      fun v hv => (regular_toJsons es v hv).mono (by omega)⟩

end

end Element

namespace Document

theorem regular_toJson (d : Document α) :
    Regular (2 * Element.nestingOf d.elements + 5) d.toJson := by
  have hviewport : Regular (2 * Element.nestingOf d.elements + 4) d.viewport.toJson := by
    simp [Viewport.toJson, Viewport.toMembers, Entries.keys]
  simpa [toJson, toMembers, Entries.keys, ofStrings, hviewport]
    using Element.regular_toJsons d.elements

/-- The integers of a document are ones that writers of texts take. -/
def Short (d : Document α) : Prop := d.toJson.Short

instance (d : Document α) : Decidable d.Short := inferInstanceAs (Decidable d.toJson.Short)

/-- A document is read back from its text, on one line and over several. -/
theorem read_write {d : Document Double} (hw : d.Writable) (hfin : d.Finite) (hshort : d.Short) :
    Json.read (Json.write d.toJson) = .ok d.toJson ∧
      Json.read (Json.writeIndented d.toJson) = .ok d.toJson := by
  have hdepth : 2 * Element.nestingOf d.elements + 5 ≤ Json.maxNesting := by
    change Element.nestingOf d.elements ≤ 254 at hw
    change _ ≤ 960
    omega
  exact Json.read_write (legible_of_regular (d.regular_toJson.mono hdepth) hfin hshort)

end Document

end Whiteboard

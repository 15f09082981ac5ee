import Mathlib
import Whiteboard.Proofs.Document.Attachment
import Whiteboard.Proofs.Document.Laid

/-!
# Groups that are dissolved at once

The box around elements keeps its size when they move together
(`Element.size_uprightBox_shifted`). So a group that is dissolved right after it was made does not
scale its children, and with exact numbers they come back as they were, but for their place in the
stack (`Element.released_grouped`).
-/

namespace Whiteboard

/-- What is folded to a bound of two numbers is folded to a bound of all. -/
theorem foldl_bound {α : Type} {r : α → α → Prop} {op : α → α → α} (hrefl : ∀ a, r a a)
    (htrans : ∀ {a b c}, r a b → r b c → r a c) (hleft : ∀ a b, r (op a b) a)
    (hright : ∀ a b, r (op a b) b) (a : α) (xs : List α) :
    ∀ x ∈ a :: xs, r (xs.foldl op a) x := by
  induction xs generalizing a with
  | nil => exact List.forall_mem_singleton.mpr (hrefl a)
  | cons y ys ih =>
    obtain ⟨hhead, htail⟩ := List.forall_mem_cons.mp (ih (op a y))
    exact List.forall_mem_cons.mpr ⟨htrans hhead (hleft a y),
      List.forall_mem_cons.mpr ⟨htrans hhead (hright a y), htail⟩⟩

theorem Element.of_groupOf {α : Type} [Scalar α] {id : String} {members : List (Element α)}
    {g : Element α} (h : groupOf id members = .ok g) :
    g.id = id ∧ g.isGroup = true ∧ g.isArrow = false := by
  obtain ⟨f, hf, rfl⟩ := Checked.map_eq_ok_iff.mp h
  exact ⟨Frame.id_of_checked hf, rfl, rfl⟩

variable {α : Type} [Field α] [LinearOrder α] [FloorRing α] [Trigonometry α]

/-! ## What numbers span -/

namespace Scalar

theorem lesser_eq_min (a b : α) : lesser a b = min a b := by
  rw [lesser, min_def]
  split <;> split <;> order

theorem greater_eq_max (a b : α) : greater a b = max a b := by
  rw [greater, max_def]
  split <;> split <;> order

theorem least_le (a : α) (xs : List α) : ∀ x ∈ a :: xs, least a xs ≤ x :=
  foldl_bound le_refl le_trans (fun a b => (lesser_eq_min a b).trans_le (min_le_left a b))
    (fun a b => (lesser_eq_min a b).trans_le (min_le_right a b)) a xs

theorem le_greatest (a : α) (xs : List α) : ∀ x ∈ a :: xs, x ≤ greatest a xs :=
  foldl_bound (r := (· ≥ ·)) le_refl ge_trans
    (fun a b => (le_max_left a b).trans_eq (greater_eq_max a b).symm)
    (fun a b => (le_max_right a b).trans_eq (greater_eq_max a b).symm) a xs

variable [IsStrictOrderedRing α]

theorem least_sub (c a : α) (xs : List α) :
    least (a - c) (xs.map (· - c)) = least a xs - c := by
  rw [least, List.foldl_map]
  refine List.foldl_hom (· - c) fun x y => ?_
  rw [lesser_eq_min, lesser_eq_min]
  exact min_sub_sub_right x y c

theorem greatest_sub (c a : α) (xs : List α) :
    greatest (a - c) (xs.map (· - c)) = greatest a xs - c := by
  rw [greatest, List.foldl_map]
  refine List.foldl_hom (· - c) fun x y => ?_
  rw [greater_eq_max, greater_eq_max]
  exact max_sub_sub_right x y c

/-- What moves by a distance spans as much as before. -/
theorem span_map {β : Type} (low high : β → α) {move : β → β} {c : α}
    (hlow : ∀ e, low (move e) = low e - c) (hhigh : ∀ e, high (move e) = high e - c) (first : β)
    (rest : List β) : greatest (high (move first)) ((rest.map move).map high)
        - least (low (move first)) ((rest.map move).map low)
      = greatest (high first) (rest.map high) - least (low first) (rest.map low) := by
  have hmap {f : β → α} (hf : ∀ e, f (move e) = f e - c) :
      (rest.map move).map f = (rest.map f).map (· - c) := by
    rw [List.map_map, List.map_map]
    exact List.map_congr_left fun e _ => hf e
  rw [hmap hlow, hmap hhigh, hlow, hhigh, least_sub, greatest_sub]
  exact sub_sub_sub_cancel_right ..

end Scalar

namespace Element

variable {es : List (Element α)}

theorem Valid.sides_nonneg {e : Element α} (h : e.Valid) : 0 ≤ e.width ∧ 0 ≤ e.height := by
  have hw := h.frame.width_nonneg
  have hh := h.frame.height_nonneg
  rw [Scalar.instOfNat_eq, Nat.cast_zero] at hw hh
  exact ⟨hw, hh⟩

/-! ## Members and children -/

/-- The element as it lies relative to a corner. -/
def shifted (dx dy : α) (e : Element α) : Element α := e.moveTo (e.x - dx) (e.y - dy)

theorem frame_shifted (dx dy : α) (e : Element α) :
    (e.shifted dx dy).frame = { e.frame with x := e.x - dx, y := e.y - dy } := frame_withFrame e _

/-- A length that is zero if a side is zero is kept by the ratio of the side to itself. Sides
between 0 and 1 are left out: what lies in them shrinks. -/
theorem mul_ratio {v w one : α} (hone : one = 1) (hw : w = 0 ∨ 1 ≤ w) (hv : w = 0 → v = 0) :
    v * (w / Scalar.greater w one) = v := by
  rcases hw with hzero | hle
  · rw [hv hzero]
    exact zero_mul _
  · have hpos : w ≠ 0 := (zero_lt_one.trans_le hle).ne'
    have hmax : max w 1 = w := max_eq_left hle
    have hself : v * (w / w) = v := by rw [div_self hpos, mul_one]
    rw [hone, Scalar.greater_eq_max, hmax]
    exact hself

section Turns

variable (hcos : Scalar.cosDeg (0 : α) = 1) (hsin : Scalar.sinDeg (0 : α) = 0)

include hcos hsin

theorem rotate_zero (p c : Point α) : Point.rotate p c 0 = p := by
  have hx (a b d : α) : a + (b - a) * 1 - d * 0 = b := by ring
  have hy (a b d : α) : a + d * 0 + (b - a) * 1 = b := by ring
  unfold Point.rotate
  rw [hcos, hsin]
  exact congrArg₂ Point.mk (hx ..) (hy ..)

variable {g f : Frame α} {e : Element α} {sx sy : α} (hg : g.rotation = 0)

include hg

/-- A child of a group that neither scales nor turns it lies on the board as in the group. -/
theorem releasedFrame_eq (hangle : Scalar.normalizeAngle f.rotation = f.rotation)
    (hx : f.x * sx = f.x) (hwidth : f.width * sx = f.width)
    (hy : f.y * sy = f.y) (hheight : f.height * sy = f.height) : releasedFrame g sx sy f
      = { f with x := f.x + g.x, y := f.y + g.y, zIndex := g.zIndex } := by
  have hback (a b c : α) : a + b + c - b = a + c := by ring
  have hzero (a : α) : a + 0 = a := add_zero a
  rw [releasedFrame, hg, rotate_zero hcos hsin, hx, hwidth, hy, hheight]
  simp only [hback, hzero, hangle]

/-- A member that its group neither scales nor turns comes back to its place on the board. -/
theorem rescaled_shifted (he : e.Valid)
    (hx : (e.x - g.x) * sx = e.x - g.x) (hwidth : e.width * sx = e.width)
    (hy : (e.y - g.y) * sy = e.y - g.y) (hheight : e.height * sy = e.height)
    (hends : ∀ s ∈ e.arrow?, ∀ p, p ∈ s.start ∨ p ∈ s.finish → scaledEnd sx sy p = p) :
    (e.shifted g.x g.y).rescaled sx sy (releasedFrame g sx sy (e.shifted g.x g.y).frame)
      = e.withZIndex g.zIndex := by
  have hback (a b : α) : a - b + b = a := sub_add_cancel a b
  have harrow : (e.shifted g.x g.y).arrow? = e.arrow? := arrow?_withFrame e _
  have hframe := releasedFrame_eq (f := { e.frame with x := e.x - g.x, y := e.y - g.y }) hcos hsin
    hg he.frame.normal hx hwidth hy hheight
  simp only [hback] at hframe
  rw [rescaled_of_ends (harrow ▸ hends), frame_shifted, hframe]
  cases e <;> rfl

end Turns

/-! ## Boxes around elements -/

theorem uprightBox_cons (first : Element α) (rest : List (Element α)) :
    uprightBox (first :: rest) =
      ⟨Scalar.least first.x (rest.map x), Scalar.least first.y (rest.map y),
        Scalar.greatest first.frame.right (rest.map fun e => e.frame.right)
          - Scalar.least first.x (rest.map x),
        Scalar.greatest first.frame.bottom (rest.map fun e => e.frame.bottom)
          - Scalar.least first.y (rest.map y)⟩ := by
  simp only [uprightBox, List.map_cons, List.map_map]
  rfl

/-- The box around elements holds each of them. -/
theorem mem_uprightBox : ∀ e ∈ es, ((uprightBox es).x ≤ e.x ∧ (uprightBox es).y ≤ e.y) ∧
    e.frame.right ≤ (uprightBox es).right ∧ e.frame.bottom ≤ (uprightBox es).bottom := by
  cases es with
  | nil => nofun
  | cons first rest =>
    intro e he
    have hmem (f : Element α → α) : f e ∈ f first :: rest.map f := List.mem_map_of_mem he
    have hback (a b : α) : a + (b - a) = b := add_sub_cancel a b
    rw [uprightBox_cons, Box.right, Box.bottom, hback, hback]
    exact ⟨⟨Scalar.least_le _ _ _ (hmem x), Scalar.least_le _ _ _ (hmem y)⟩,
      Scalar.le_greatest _ _ _ (hmem fun e => e.frame.right),
      Scalar.le_greatest _ _ _ (hmem fun e => e.frame.bottom)⟩

variable [IsStrictOrderedRing α]

/-- Elements that move together span a box of the same size. -/
theorem size_uprightBox_shifted (es : List (Element α)) (dx dy : α) :
    (uprightBox (es.map (shifted dx dy))).width = (uprightBox es).width ∧
      (uprightBox (es.map (shifted dx dy))).height = (uprightBox es).height := by
  cases es with
  | nil => exact ⟨rfl, rfl⟩
  | cons first rest =>
    have hx (e : Element α) : (e.shifted dx dy).x = e.x - dx := by rw [x, frame_shifted]
    have hy (e : Element α) : (e.shifted dx dy).y = e.y - dy := by rw [y, frame_shifted]
    have hright (e : Element α) : (e.shifted dx dy).frame.right = e.frame.right - dx := by
      rw [frame_shifted]
      exact sub_add_eq_add_sub e.x dx e.width
    have hbottom (e : Element α) : (e.shifted dx dy).frame.bottom = e.frame.bottom - dy := by
      rw [frame_shifted]
      exact sub_add_eq_add_sub e.y dy e.height
    rw [List.map_cons, uprightBox_cons, uprightBox_cons]
    exact ⟨Scalar.span_map x (fun e => e.frame.right) hx hright first rest,
      Scalar.span_map y (fun e => e.frame.bottom) hy hbottom first rest⟩

theorem size_uprightBox_nonneg (h : ∀ e ∈ es, e.Valid) :
    0 ≤ (uprightBox es).width ∧ 0 ≤ (uprightBox es).height := by
  rcases hes : es with _ | ⟨first, rest⟩
  · simp [uprightBox, Box.empty, Scalar.instOfNat_eq]
  · have hmem : first ∈ es := hes ▸ List.mem_cons_self
    obtain ⟨⟨hx, hy⟩, hright, hbottom⟩ := mem_uprightBox first hmem
    obtain ⟨hw, hh⟩ := (h first hmem).sides_nonneg
    have hspan {low x side whole : α} (hside : 0 ≤ side) (hlow : low ≤ x)
        (hhigh : x + side ≤ low + whole) : 0 ≤ whole := by linarith
    rw [← hes]
    exact ⟨hspan hw hx hright, hspan hh hy hbottom⟩

/-- Elements in a box without extent lie at its corner and have none either. -/
theorem flat_of_uprightBox (h : ∀ e ∈ es, e.Valid) : ∀ e ∈ es,
    ((uprightBox es).width = 0 → e.x - (uprightBox es).x = 0 ∧ e.width = 0) ∧
      ((uprightBox es).height = 0 → e.y - (uprightBox es).y = 0 ∧ e.height = 0) := by
  intro e he
  obtain ⟨⟨hx, hy⟩, hright, hbottom⟩ := mem_uprightBox e he
  obtain ⟨hw, hh⟩ := (h e he).sides_nonneg
  have hspan {low x side whole : α} (hside : 0 ≤ side) (hlow : low ≤ x)
      (hhigh : x + side ≤ low + whole) (hzero : whole = 0) : x - low = 0 ∧ side = 0 := by
    constructor <;> linarith
  exact ⟨hspan hw hx hright, hspan hh hy hbottom⟩

/-! ## Groups -/

/-- The frame of the group of some elements. -/
def groupFrame (id : String) (es : List (Element α)) : Frame α :=
  ⟨id, (uprightBox es).x, (uprightBox es).y, (uprightBox es).width, (uprightBox es).height,
    Scalar.ofInt 0, topIndex es⟩

/-- Valid elements can be grouped. -/
theorem groupOf_eq (h : ∀ e ∈ es, e.Valid) (id : String) : groupOf id es = .ok
    (.group (groupFrame id es) (es.map (shifted (uprightBox es).x (uprightBox es).y))) := by
  obtain ⟨hw, hh⟩ := size_uprightBox_nonneg h
  rw [groupOf]
  refine Checked.map_eq_ok_iff.mpr ⟨_, Frame.checked_eq_ok_iff.mpr ⟨rfl, ?_, ?_⟩, rfl⟩
  · rwa [Scalar.instOfNat_eq, Nat.cast_zero]
  · rwa [Scalar.instOfNat_eq, Nat.cast_zero]

/-- Elements that span nothing or at least a unit on each axis; where they span nothing, ends of
arrows lie at their corners. -/
structure Roomy (es : List (Element α)) : Prop where
  width : (uprightBox es).width = 0 ∨ 1 ≤ (uprightBox es).width
  height : (uprightBox es).height = 0 ∨ 1 ≤ (uprightBox es).height
  ends : ∀ e ∈ es, ∀ s ∈ e.arrow?, ∀ p, p ∈ s.start ∨ p ∈ s.finish →
    ((uprightBox es).width = 0 → p.x = 0) ∧ ((uprightBox es).height = 0 → p.y = 0)

/-- A group that is dissolved right after it was made leaves its members as they were, all at its
place in the stack. -/
theorem released_grouped (hcos : Scalar.cosDeg (0 : α) = 1) (hsin : Scalar.sinDeg (0 : α) = 0)
    (hvalid : ∀ e ∈ es, e.Valid) (h : Roomy es) {id : String} {g : Element α}
    (hg : groupOf id es = .ok g) : g.released = es.map (withZIndex · (topIndex es)) := by
  rw [groupOf_eq hvalid, Checked.ok.injEq] at hg
  subst hg
  have hone : (Scalar.ofInt 1 : α) = 1 := Int.cast_one
  have hzero : (Scalar.ofInt 0 : α) = 0 := Int.cast_zero
  obtain ⟨hw, hh⟩ := size_uprightBox_shifted es (uprightBox es).x (uprightBox es).y
  rw [released]
  simp only [children, hw, hh, List.map_map]
  refine List.map_congr_left fun e he => ?_
  obtain ⟨hflat, hflat'⟩ := flat_of_uprightBox hvalid e he
  have hscale {v : α} := mul_ratio (v := v) hone h.width
  have hscale' {v : α} := mul_ratio (v := v) hone h.height
  refine rescaled_shifted (g := groupFrame id es) hcos hsin hzero (hvalid e he)
    (hscale fun h₀ => (hflat h₀).1) (hscale fun h₀ => (hflat h₀).2)
    (hscale' fun h₀ => (hflat' h₀).1) (hscale' fun h₀ => (hflat' h₀).2) fun s hs p hp => ?_
  obtain ⟨hend, hend'⟩ := h.ends e he s hs p hp
  exact congrArg₂ Point.mk (hscale hend) (hscale' hend')

end Element

end Whiteboard

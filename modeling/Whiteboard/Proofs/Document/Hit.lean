import Mathlib
import Whiteboard.Element.Default
import Whiteboard.Proofs.Document.BoundAnew

/-!
# Hit testing and bounding boxes

Hit testing turns a point back to the upright frame; a bounding box is put around corners that were
turned. A point that hits an element lies in the bounding box all the same
(`Element.holds_of_isHit`): its coordinates depend on its place on the upright frame in a linear
way, so that they do not exceed those of all corners.
-/

namespace Whiteboard

/-- A point lies in a box or on its border. -/
structure Box.Holds {α : Type} [Scalar α] (b : Box α) (p : Point α) : Prop where
  left : b.x ≤ p.x
  right : p.x ≤ b.right
  top : b.y ≤ p.y
  bottom : p.y ≤ b.bottom

variable {α : Type} [Field α] [LinearOrder α] [FloorRing α] [Trigonometry α]
  [IsStrictOrderedRing α]

/-! ## Corners -/

theorem exists_mul_le {u a : α} (hu : |u| ≤ a) (c : α) : ∃ i, |i| = a ∧ u * c ≤ i * c := by
  obtain ⟨hlow, hhigh⟩ := abs_le.mp hu
  have ha : |a| = a := abs_of_nonneg ((abs_nonneg u).trans hu)
  rcases le_total 0 c with hc | hc
  · exact ⟨a, ha, mul_le_mul_of_nonneg_right hhigh hc⟩
  · exact ⟨-a, (abs_neg a).trans ha, mul_le_mul_of_nonpos_right hlow hc⟩

/-- What a linear function is below at the corners of a rectangle it is below everywhere. -/
theorem linear_le {a b c s m o : α} (h : ∀ i j, |i| = a → |j| = b → o + (i * c + j * s) ≤ m)
    {u v : α} (hu : |u| ≤ a) (hv : |v| ≤ b) : o + (u * c + v * s) ≤ m := by
  obtain ⟨i, hi, hle⟩ := exists_mul_le hu c
  obtain ⟨j, hj, hle'⟩ := exists_mul_le hv s
  exact (add_le_add_right (add_le_add hle hle') o).trans (h i j hi hj)

/-- What a linear function is above at the corners of a rectangle it is above everywhere. -/
theorem le_linear {a b c s m o : α} (h : ∀ i j, |i| = a → |j| = b → m ≤ o + (i * c + j * s))
    {u v : α} (hu : |u| ≤ a) (hv : |v| ≤ b) : m ≤ o + (u * c + v * s) := by
  have hneg (i j : α) : -o + (i * -c + j * -s) = -(o + (i * c + j * s)) := by ring
  have hle : -o + (u * -c + v * -s) ≤ -m := by
    refine linear_le (fun i j hi hj => ?_) hu hv
    rw [hneg]
    exact neg_le_neg (h i j hi hj)
  rw [hneg] at hle
  exact neg_le_neg_iff.mp hle

namespace Frame

variable {f : Frame α} {p : Point α} {b : Box α}

/-- Where a place is drawn that is given from the middle of the upright frame. -/
def drawn (f : Frame α) (u v : α) : Point α :=
  Point.rotate ⟨f.center.x + u, f.center.y + v⟩ f.center f.rotation

omit [IsStrictOrderedRing α] in
theorem drawn_eq (f : Frame α) (u v : α) :
    f.drawn u v =
      ⟨f.center.x + (u * Scalar.cosDeg f.rotation + v * -Scalar.sinDeg f.rotation),
        f.center.y + (u * Scalar.sinDeg f.rotation + v * Scalar.cosDeg f.rotation)⟩ := by
  have hx (o o' a b c s : α) : o + (o + a - o) * c - (o' + b - o') * s = o + (a * c + b * -s) := by
    ring
  have hy (o o' a b c s : α) : o' + (o + a - o) * s + (o' + b - o') * c = o' + (a * s + b * c) := by
    ring
  exact congrArg₂ Point.mk (hx ..) (hy ..)

omit [IsStrictOrderedRing α] in
theorem drawn_mem_corners (hrotation : f.rotation ≠ 0) {u v : α} (hu : |u| = f.width / 2)
    (hv : |v| = f.height / 2) : f.drawn u v ∈ f.corners := by
  have hfar (a w : α) : a + w / 2 + w / 2 = a + w := by
    rw [Scalar.instOfNat_eq, Nat.cast_two]
    ring
  have hnear (a w : α) : a + w / 2 + -(w / 2) = a := add_neg_cancel_right a _
  have hx : f.center.x + u = f.right ∨ f.center.x + u = f.x := by
    rcases eq_or_eq_neg_of_abs_eq hu with rfl | rfl
    · exact .inl (hfar ..)
    · exact .inr (hnear ..)
  have hy : f.center.y + v = f.bottom ∨ f.center.y + v = f.y := by
    rcases eq_or_eq_neg_of_abs_eq hv with rfl | rfl
    · exact .inl (hfar ..)
    · exact .inr (hnear ..)
  rw [corners, if_neg fun h => hrotation (Element.isZero_iff.mp h)]
  refine List.mem_map_of_mem (f := fun p => Point.rotate p f.center f.rotation) ?_
  rcases hx with hx | hx <;> rcases hy with hy | hy <;> simp [hx, hy]

/-- What hits a rotated frame is drawn from within the upright one. -/
theorem exists_drawn (hrotation : f.rotation ≠ 0)
    (hunit : Scalar.cosDeg f.rotation ^ 2 + Scalar.sinDeg f.rotation ^ 2 = 1)
    (hcos : Scalar.cosDeg (-f.rotation) = Scalar.cosDeg f.rotation)
    (hsin : Scalar.sinDeg (-f.rotation) = -Scalar.sinDeg f.rotation) (hp : f.isHit p = true) :
    ∃ u v, |u| ≤ f.width / 2 ∧ |v| ≤ f.height / 2 ∧ f.drawn u v = p := by
  rw [isHit, if_neg fun h => hrotation (Element.isZero_iff.mp h), Bool.and_eq_true,
    decide_eq_true_iff, decide_eq_true_iff, Scalar.abs_eq_abs, Scalar.abs_eq_abs] at hp
  refine ⟨_, _, hp.1, hp.2, ?_⟩
  rw [drawn_eq, Point.rotate, hcos, hsin]
  have hx (o o' a b c s : α) (h : c ^ 2 + s ^ 2 = 1) :
      o + ((o + (a - o) * c - (b - o') * -s - o) * c
        + (o' + (a - o) * -s + (b - o') * c - o') * -s) = a := by
    linear_combination (a - o) * h
  have hy (o o' a b c s : α) (h : c ^ 2 + s ^ 2 = 1) :
      o' + ((o + (a - o) * c - (b - o') * -s - o) * s
        + (o' + (a - o) * -s + (b - o') * c - o') * c) = b := by
    linear_combination (b - o') * h
  exact congrArg₂ Point.mk (hx _ _ _ _ _ _ hunit) (hy _ _ _ _ _ _ hunit)

/-- What hits a frame lies in each box that holds its corners. -/
theorem holds_of_corners
    (hunit : Scalar.cosDeg f.rotation ^ 2 + Scalar.sinDeg f.rotation ^ 2 = 1)
    (hcos : Scalar.cosDeg (-f.rotation) = Scalar.cosDeg f.rotation)
    (hsin : Scalar.sinDeg (-f.rotation) = -Scalar.sinDeg f.rotation)
    (hb : ∀ q ∈ f.corners, b.Holds q) (hp : f.isHit p = true) : b.Holds p := by
  by_cases hrotation : f.rotation = 0
  · have hzero : Scalar.isZero f.rotation = true := Element.isZero_iff.mpr hrotation
    rw [isHit, if_pos hzero] at hp
    simp only [Bool.and_eq_true, decide_eq_true_eq] at hp
    obtain ⟨⟨hleft, hright⟩, htop, hbottom⟩ := hp
    have hfirst : b.Holds ⟨f.x, f.y⟩ := hb _ (by simp [corners, hzero])
    have hlast : b.Holds ⟨f.right, f.bottom⟩ := hb _ (by simp [corners, hzero])
    exact ⟨hfirst.left.trans hleft, hright.trans hlast.right, hfirst.top.trans htop,
      hbottom.trans hlast.bottom⟩
  · obtain ⟨u, v, hu, hv, rfl⟩ := exists_drawn hrotation hunit hcos hsin hp
    have hcorner (i j : α) (hi : |i| = f.width / 2) (hj : |j| = f.height / 2) :
        b.Holds (f.drawn i j) := hb _ (drawn_mem_corners hrotation hi hj)
    simp only [drawn_eq] at hcorner ⊢
    exact ⟨le_linear (fun i j hi hj => (hcorner i j hi hj).left) hu hv,
      linear_le (fun i j hi hj => (hcorner i j hi hj).right) hu hv,
      le_linear (fun i j hi hj => (hcorner i j hi hj).top) hu hv,
      linear_le (fun i j hi hj => (hcorner i j hi hj).bottom) hu hv⟩

end Frame

/-! ## Boxes -/

omit [IsStrictOrderedRing α] in
theorem Box.holds_around {ps : List (Point α)} {p : Point α} (hp : p ∈ ps) :
    (Box.around ps).Holds p := by
  cases ps with
  | nil => contradiction
  | cons q ps =>
    have hx : p.x ∈ q.x :: ps.map Point.x := List.mem_map_of_mem (f := Point.x) hp
    have hy : p.y ∈ q.y :: ps.map Point.y := List.mem_map_of_mem (f := Point.y) hp
    refine ⟨Scalar.least_le _ _ _ hx, ?_, Scalar.least_le _ _ _ hy, ?_⟩
    · exact (Scalar.le_greatest _ _ _ hx).trans_eq (add_sub_cancel _ _).symm
    · exact (Scalar.le_greatest _ _ _ hy).trans_eq (add_sub_cancel _ _).symm

namespace Element

variable {e : Element α} {p : Point α}

/-- What hits an element lies in the bounding box of all elements among which it is, and a marquee
that covers the element holds it. -/
theorem holds_of_isHit
    (hunit : Scalar.cosDeg e.rotation ^ 2 + Scalar.sinDeg e.rotation ^ 2 = 1)
    (hcos : Scalar.cosDeg (-e.rotation) = Scalar.cosDeg e.rotation)
    (hsin : Scalar.sinDeg (-e.rotation) = -Scalar.sinDeg e.rotation) (hp : e.isHit p = true) :
    (∀ es, e ∈ es → (boundingBox es).Holds p) ∧
      ∀ a b, e.isInside a b = true →
        (min a.x b.x ≤ p.x ∧ p.x ≤ max a.x b.x) ∧ min a.y b.y ≤ p.y ∧ p.y ≤ max a.y b.y := by
  have hbox : ∀ es, e ∈ es → (boundingBox es).Holds p := by
    intro es he
    refine Frame.holds_of_corners hunit hcos hsin (fun q hq => ?_) hp
    exact Box.holds_around (List.mem_flatMap_of_mem he hq)
  refine ⟨hbox, fun a b h => ?_⟩
  have hmarquee := hbox [e] (List.mem_singleton_self e)
  simp only [isInside, Bool.and_eq_true, decide_eq_true_eq, Scalar.lesser_eq_min,
    Scalar.greater_eq_max] at h
  obtain ⟨⟨hleft, hright⟩, htop, hbottom⟩ := h
  exact ⟨⟨hleft.trans hmarquee.left, hmarquee.right.trans hright⟩,
    htop.trans hmarquee.top, hmarquee.bottom.trans hbottom⟩

/-- A flat rectangle that stands upright after a quarter turn. -/
theorem holds_of_isHit_quarter_turn :
    let _ : Trigonometry ℚ := ⟨fun x => if x = 0 then 1 else 0,
      fun x => if x < 0 then -1 else if 0 < x then 1 else 0, fun _ _ => 0⟩
    let e : Element ℚ := .shape ⟨"r", 0, 0, 100, 20, 90, 0⟩ .rectangle (.blank none)
    let other : Element ℚ := .newShape "c" .circle { x := 300, y := 0 }
    e.isHit ⟨50, 55⟩ = true ∧ e.isInside ⟨100, 70⟩ ⟨0, -50⟩ = true ∧
      (boundingBox [other, e]).Holds ⟨50, 55⟩ ∧
      (min 100 0 ≤ (50 : ℚ) ∧ (50 : ℚ) ≤ max 100 0) ∧
        min 70 (-50) ≤ (55 : ℚ) ∧ (55 : ℚ) ≤ max 70 (-50) := by
  intro _ e other
  have hhit : e.isHit ⟨50, 55⟩ = true := by decide +kernel
  have hinside : e.isInside ⟨100, 70⟩ ⟨0, -50⟩ = true := by decide +kernel
  obtain ⟨hbox, hmarquee⟩ := holds_of_isHit (e := e) (by decide +kernel) (by decide +kernel)
    (by decide +kernel) hhit
  exact ⟨hhit, hinside, hbox [other, e] (by simp), hmarquee _ _ hinside⟩

end Element

end Whiteboard

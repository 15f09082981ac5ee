import Mathlib
import Whiteboard.Proofs.Document.Regrouping
import Whiteboard.Proofs.Gesture.Frames

/-!
# Resized boxes

There is a box wherever its handle is dragged, unless a corner should keep a ratio of the sides that
is zero (`Box.resize?_eq_none_iff`). With exact numbers, the opposite edge or corner stays, no side
becomes too short, and the dragged edge follows the pointer as far as it may
(`Box.exists_dragged`).
-/

namespace Whiteboard

namespace Box

/-! ## Boxes without a ratio -/

section Ratio

variable {α : Type} [Scalar α] {b : Box α} {h : Handle} {dx dy width least : α} {keepRatio : Bool}

/-- Whether a handle is a corner that should keep the ratio of the sides, and that is zero though
there is a height. -/
def lacksRatio (b : Box α) (h : Handle) (keepRatio : Bool) : Bool :=
  h.isCorner && keepRatio && (0 : α) < b.height && Scalar.isZero (b.width / b.height)

theorem resizedHeight?_eq_none_iff :
    b.resizedHeight? h dy width keepRatio least = none ↔ b.lacksRatio h keepRatio = true := by
  unfold resizedHeight? ratioHeight? lacksRatio
  split
  · next hstill =>
    rw [Bool.not_eq_true'] at hstill
    simp [Handle.isCorner, hstill]
  · split
    · next hkeeps =>
      rw [hkeeps, Bool.true_and, Option.map_eq_none_iff]
      dsimp only
      split
      · next hzero => simp [hzero]
      · next hratio => simp [hratio]
    · next hfree =>
      rw [Bool.not_eq_true] at hfree
      simp [hfree]

theorem resize?_eq_none_iff :
    b.resize? h dx dy keepRatio least = none ↔ b.lacksRatio h keepRatio = true := by
  rw [resize?, Option.map_eq_none_iff, resizedHeight?_eq_none_iff]

end Ratio

/-! ## The dragged and the opposite edges -/

section Edges

variable {α : Type} [Scalar α]

/-- The upright edge that a handle drags, which is the right one if it drags none. -/
def draggedX (b : Box α) (h : Handle) : α := if h.onLeft then b.x else b.right

/-- The level edge that a handle drags, which is the bottom if it drags none. -/
def draggedY (b : Box α) (h : Handle) : α := if h.onTop then b.y else b.bottom

/-- The upright edge opposite to the one that a handle drags. -/
def oppositeX (b : Box α) (h : Handle) : α := if h.onLeft then b.right else b.x

/-- The level edge opposite to the one that a handle drags. -/
def oppositeY (b : Box α) (h : Handle) : α := if h.onTop then b.bottom else b.y

/-- The side that a pointer asks for that moved by `d`. -/
def askedSide (side d : α) (backward : Bool) : α := if backward then side - d else side + d

end Edges

variable {α : Type} [Field α] [LinearOrder α] [FloorRing α] [Trigonometry α]

theorem lacksRatio_iff {b : Box α} {h : Handle} {keepRatio : Bool} :
    b.lacksRatio h keepRatio = true ↔
      h.isCorner = true ∧ keepRatio = true ∧ b.width = 0 ∧ 0 < b.height := by
  have hzero : Scalar.isZero (b.width / b.height) = true ↔ b.width = 0 ∨ b.height = 0 := by
    rw [Element.isZero_iff]
    exact div_eq_zero_iff
  simp only [lacksRatio, Bool.and_eq_true, decide_eq_true_eq, hzero, Scalar.instOfNat_eq,
    Nat.cast_zero]
  constructor
  · rintro ⟨⟨⟨hcorner, hkeep⟩, hpos⟩, hwidth | hheight⟩
    · exact ⟨hcorner, hkeep, hwidth, hpos⟩
    · exact absurd hheight hpos.ne'
  · rintro ⟨hcorner, hkeep, hwidth, hpos⟩
    exact ⟨⟨⟨hcorner, hkeep⟩, hpos⟩, .inl hwidth⟩

/-- What dragging a handle by `(dx, dy)` makes of a box. -/
structure Dragged (h : Handle) (dx dy : α) (keepRatio : Bool) (least : α) (b r : Box α) :
    Prop where
  pinnedX : r.oppositeX h = b.oppositeX h
  pinnedY : r.oppositeY h = b.oppositeY h
  least_le_width : h.movesWidth = true → least ≤ r.width
  least_le_height : h.movesHeight = true → least ≤ r.height
  width_eq : h.movesWidth = false → r.width = b.width
  height_eq : h.movesHeight = false → r.height = b.height
  /-- The dragged edge follows the pointer, if that leaves it a side that is long enough. -/
  followsX : h.movesWidth = true → least ≤ askedSide b.width dx h.onLeft →
    r.draggedX h = b.draggedX h + dx
  followsY : h.movesHeight = true → (h.isCorner && keepRatio) = false →
    least ≤ askedSide b.height dy h.onTop → r.draggedY h = b.draggedY h + dy
  /-- The ratio of the sides is kept, unless the height would become too short. -/
  ratio : h.isCorner = true → keepRatio = true →
    r.width / r.height = b.width / b.height ∨
      r.width / (b.width / b.height) < least ∧ r.height = least

/-! ## One side at a time -/

theorem draggedSide_eq_max (side d least : α) (backward : Bool) :
    draggedSide side d least backward = max least (askedSide side d backward) :=
  Scalar.greater_eq_max _ _

/-- Where a height comes from: it follows the width or the pointer, or stays. -/
theorem eq_of_resizedHeight? {b : Box α} {h : Handle} {dy width least height : α}
    {keepRatio : Bool} (hheight : b.resizedHeight? h dy width keepRatio least = some height) :
    if h.movesHeight then
      if (h.isCorner && keepRatio) = true ∧ 0 < b.height then
        height = max least (width / (b.width / b.height))
      else height = max least (askedSide b.height dy h.onTop)
    else height = b.height := by
  unfold resizedHeight? at hheight
  cases hmoves : h.movesHeight with
  | false =>
    rw [hmoves] at hheight
    cases hheight
    exact rfl
  | true =>
    simp only [hmoves, Bool.not_true, Bool.false_eq_true, if_false, Bool.and_eq_true,
      decide_eq_true_eq, Scalar.instOfNat_eq, Nat.cast_zero] at hheight
    simp only [if_true, Bool.and_eq_true]
    split at hheight
    · next hkeeps =>
      rw [if_pos hkeeps]
      obtain ⟨ratioed, hratio, rfl⟩ := Option.map_eq_some_iff.mp hheight
      unfold ratioHeight? at hratio
      dsimp only at hratio
      split at hratio
      · contradiction
      · cases hratio
        exact Scalar.greater_eq_max _ _
    · next hfree =>
      rw [if_neg hfree]
      cases hheight
      exact draggedSide_eq_max _ _ _ _

/-- A side laid off from the opposite edge of an old one. -/
theorem edges_of_laidOff (near size side : α) (backward : Bool) :
    let near' := if backward then near + size - side else near
    (if backward then near' + side else near') = (if backward then near + size else near) ∧
      ∀ d, side = askedSide size d backward →
        (if backward then near' else near' + side)
          = (if backward then near else near + size) + d := by
  cases backward with
  | false => exact ⟨rfl, fun d hside => hside ▸ (add_assoc near size d).symm⟩
  | true => exact ⟨sub_add_cancel _ _, fun d hside => hside ▸ by simp [askedSide]; ring⟩

/-- A handle of a box with a ratio of its sides can be dragged anywhere. The opposite edge or corner
stays where it was, sides that change are not shorter than the least one, and the other one stays;
the dragged edge follows the pointer, but for the height of a corner that keeps the ratio. -/
theorem exists_dragged {b : Box α} {least : α} (hwidth : 0 < b.width) (hheight : 0 < b.height)
    (hleast : 0 < least) (h : Handle) (dx dy : α) (keepRatio : Bool) :
    ∃ r, b.resize? h dx dy keepRatio least = some r ∧ Dragged h dx dy keepRatio least b r := by
  have hsome : b.resize? h dx dy keepRatio least ≠ none := by
    rw [Ne, resize?_eq_none_iff, lacksRatio_iff]
    exact fun hlacks => hwidth.ne' hlacks.2.2.1
  obtain ⟨r, hr⟩ := Option.ne_none_iff_exists'.mp hsome
  refine ⟨r, hr, ?_⟩
  obtain ⟨height, hresized, rfl⟩ := Option.map_eq_some_iff.mp hr
  have hfrom := eq_of_resizedHeight? hresized
  generalize hw : (if h.movesWidth then draggedSide b.width dx least h.onLeft else b.width) = width
    at hfrom ⊢
  obtain ⟨hpinX, hfollowX⟩ := edges_of_laidOff b.x b.width width h.onLeft
  obtain ⟨hpinY, hfollowY⟩ := edges_of_laidOff b.y b.height height h.onTop
  have hmoved (hmoves : h.movesWidth = true) :
      width = max least (askedSide b.width dx h.onLeft) := by
    rw [← hw, if_pos hmoves, draggedSide_eq_max]
  refine ⟨hpinX, hpinY, fun hmoves => ?_, fun hmoves => ?_, fun hstill => ?_, fun hstill => ?_,
    fun hmoves hlong => hfollowX dx ?_, fun hmoves hfree hlong => hfollowY dy ?_,
    fun hcorner hkeep => ?_⟩
  · exact (hmoved hmoves).symm ▸ le_max_left _ _
  · rw [if_pos hmoves] at hfrom
    split at hfrom <;> exact hfrom.symm ▸ le_max_left _ _
  · exact hw.symm.trans (if_neg (Bool.eq_false_iff.mp hstill))
  · rwa [if_neg (Bool.eq_false_iff.mp hstill)] at hfrom
  · rw [hmoved hmoves, max_eq_right hlong]
  · rw [if_pos hmoves, if_neg fun hkeeps => Bool.eq_false_iff.mp hfree hkeeps.1,
      max_eq_right hlong] at hfrom
    exact hfrom
  · rw [Handle.isCorner, Bool.and_eq_true] at hcorner
    rw [if_pos hcorner.2, if_pos ⟨by simp [Handle.isCorner, hcorner, hkeep], hheight⟩] at hfrom
    have hratio : width ≠ 0 := (hleast.trans_le ((hmoved hcorner.1).symm ▸ le_max_left _ _)).ne'
    rcases le_or_gt least (width / (b.width / b.height)) with hlong | hshort
    · rw [max_eq_right hlong] at hfrom
      exact .inl (hfrom.symm ▸ div_div_cancel₀ hratio)
    · rw [max_eq_left hshort.le] at hfrom
      exact .inr ⟨hshort, hfrom⟩

/-- The corner at the top left of a box twice as wide as high, dragged so far that the height would
become too short. -/
theorem exists_dragged_clamped :
    let b : Box ℝ := ⟨0, 0, 100, 50⟩
    (0 < b.width ∧ 0 < b.height ∧ (0 : ℝ) < 20) ∧ ∃ r,
      b.resize? .topLeft 70 0 true 20 = some r ∧ Dragged .topLeft 70 0 true 20 b r := by
  intro b
  have hwidth : 0 < b.width := by norm_num [b]
  have hheight : 0 < b.height := by norm_num [b]
  have hleast : (0 : ℝ) < 20 := by norm_num
  exact ⟨⟨hwidth, hheight, hleast⟩, exists_dragged hwidth hheight hleast .topLeft 70 0 true⟩

end Box

end Whiteboard

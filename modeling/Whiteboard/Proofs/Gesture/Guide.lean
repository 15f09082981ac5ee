import Mathlib
import Whiteboard.Proofs.Gesture.Drag

/-!
# Guides that explain a snap

Along each axis a moved frame stays, or comes to lie where an edge or its middle meets that of
another frame (`Frame.snapped_cases`). If it did not lie there before, a guide is drawn at that
place (`Frame.guides_of_snapped`), for of the guides at one place one is left
(`Guide.stands_distinct`).
-/

namespace Whiteboard

/-! ## One guide at each place -/

namespace Guide

variable {α : Type} [Scalar α] {g : Guide α} {guides seen : List (Guide α)}

/-- A guide is there, or another one at its place. -/
def Stands (g : Guide α) (seen : List (Guide α)) : Prop :=
  ∃ g' ∈ seen, g' = g ∨ g.samePlace g' = true

theorem Stands.append (h : g.Stands seen) (rest : List (Guide α)) : g.Stands (seen ++ rest) := by
  obtain ⟨g', hg', hplace⟩ := h
  exact ⟨g', List.mem_append_left rest hg', hplace⟩

theorem stands_foldl (h : g.Stands seen ∨ g ∈ guides) :
    g.Stands (guides.foldl (fun seen g => if seen.any g.samePlace then seen else seen ++ [g])
      seen) := by
  induction guides generalizing seen with
  | nil => exact h.resolve_right List.not_mem_nil
  | cons first rest ih =>
    refine ih ?_
    dsimp only
    rw [List.mem_cons] at h
    split
    · next hany =>
      rcases h with hseen | rfl | hrest
      · exact .inl hseen
      · obtain ⟨g', hg', hplace⟩ := List.any_eq_true.mp hany
        exact .inl ⟨g', hg', .inr hplace⟩
      · exact .inr hrest
    · rcases h with hseen | rfl | hrest
      · exact .inl (hseen.append _)
      · exact .inl ⟨g, List.mem_append_right _ List.mem_cons_self, .inl rfl⟩
      · exact .inr hrest

/-- Of the guides at one place one is left. -/
theorem stands_distinct (h : g ∈ guides) : g.Stands (distinct guides) := stands_foldl (.inr h)

end Guide

/-! ## One axis at a time -/

section Axes

variable {α : Type}

/-- Where a point lies along an axis. -/
def Point.along (p : Point α) : Axis → α
  | .vertical => p.x
  | .horizontal => p.y

namespace Frame

/-- Where the near edge of a frame lies along an axis. -/
def origin (f : Frame α) : Axis → α
  | .vertical => f.x
  | .horizontal => f.y

/-- The size of a frame along an axis. -/
def extent (f : Frame α) : Axis → α
  | .vertical => f.width
  | .horizontal => f.height

/-- The frame with its corner at a point. -/
def movedTo (f : Frame α) (p : Point α) : Frame α := { f with x := p.x, y := p.y }

theorem origin_movedTo (f : Frame α) (p : Point α) (axis : Axis) :
    (f.movedTo p).origin axis = p.along axis := by
  cases axis <;> rfl

theorem extent_movedTo (f : Frame α) (p : Point α) (axis : Axis) :
    (f.movedTo p).extent axis = f.extent axis := by
  cases axis <;> rfl

variable [Scalar α]

theorem alignments_eq (f : Frame α) (axis : Axis) : f.alignments axis
    = [f.origin axis, f.origin axis + f.extent axis, f.origin axis + f.extent axis / 2] := by
  cases axis <;> rfl

/-- The position along an axis that another frame leaves of one found before. -/
def snapAlong (limit : α) (moving : Frame α) (axis : Axis) (position : α) (other : Frame α) : α :=
  snapSide limit (moving.origin axis) (moving.extent axis) (other.origin axis) (other.extent axis)
    position

/-- The two axes are snapped each on its own. -/
theorem along_snapped (limit : α) (moving : Frame α) (others : List (Frame α)) (axis : Axis) :
    (moving.snapped limit others).along axis
      = others.foldl (moving.snapAlong limit axis) (moving.origin axis) := by
  cases axis
  · exact (List.foldl_hom Point.x fun _ _ => rfl).symm
  · exact (List.foldl_hom Point.y fun _ _ => rfl).symm

end Frame

end Axes

/-! ## Where a frame comes to lie -/

namespace Frame

variable {α : Type} [Field α] [LinearOrder α] [FloorRing α] [Trigonometry α] {limit : α}
  {moving other : Frame α} {others : List (Frame α)} {axis : Axis}

/-- An edge or the middle of a frame is near that of another one, and the frame lies at a position
when they meet. -/
def MeetsAt (limit : α) (moving other : Frame α) (axis : Axis) (position : α) : Prop :=
  ∃ m ∈ (moving.alignments axis).zip (other.alignments axis),
    Scalar.abs (m.1 - m.2) < limit ∧ position = moving.origin axis + (m.2 - m.1)

theorem snapAlong_cases (limit : α) (moving other : Frame α) (axis : Axis) (position : α) :
    moving.snapAlong limit axis position other = position ∨
      MeetsAt limit moving other axis (moving.snapAlong limit axis position other) := by
  unfold snapAlong snapSide MeetsAt
  rw [alignments_eq, alignments_eq]
  split
  · next hmiddle => exact .inr ⟨_, .tail _ (.tail _ (.head _)), hmiddle, by ring⟩
  · split
    · next hfar => exact .inr ⟨_, .tail _ (.head _), hfar, by ring⟩
    · split
      · next hnear => exact .inr ⟨_, .head _, hnear, by ring⟩
      · exact .inl rfl

/-- The last frame that is met leaves its mark. -/
theorem foldl_snapAlong_cases (limit : α) (moving : Frame α) (others : List (Frame α))
    (axis : Axis) (position : α) :
    others.foldl (moving.snapAlong limit axis) position = position ∨
      ∃ other ∈ others,
        MeetsAt limit moving other axis (others.foldl (moving.snapAlong limit axis) position) := by
  induction others generalizing position with
  | nil => exact .inl rfl
  | cons first rest ih =>
    rw [List.foldl_cons]
    rcases ih (moving.snapAlong limit axis position first) with hstay | ⟨other, hother, hmeets⟩
    · rw [hstay]
      refine (snapAlong_cases limit moving first axis position).imp_right fun hmeets => ?_
      exact ⟨first, List.mem_cons_self, hmeets⟩
    · exact .inr ⟨other, List.mem_cons_of_mem first hother, hmeets⟩

/-- A snapped frame stays, or meets another one. -/
theorem snapped_cases (limit : α) (moving : Frame α) (others : List (Frame α)) (axis : Axis) :
    (moving.snapped limit others).along axis = moving.origin axis ∨ ∃ other ∈ others,
      MeetsAt limit moving other axis ((moving.snapped limit others).along axis) := by
  rw [along_snapped]
  exact foldl_snapAlong_cases limit moving others axis _

/-- The edges and the middle move along with a frame. -/
theorem mem_alignments_movedTo {x : α} (h : x ∈ moving.alignments axis) (p : Point α) :
    x + (p.along axis - moving.origin axis) ∈ (moving.movedTo p).alignments axis := by
  rw [alignments_eq] at h ⊢
  rw [origin_movedTo, extent_movedTo]
  simp only [List.mem_cons, List.not_mem_nil, or_false] at h ⊢
  rcases h with rfl | rfl | rfl
  · exact .inl (by ring)
  · exact .inr (.inl (by ring))
  · exact .inr (.inr (by ring))

variable [IsStrictOrderedRing α]

/-- Where edges or middles come to meet, and did not meet before, there is a guide. -/
theorem exists_mem_alongAxis {p : Point α} (h : MeetsAt limit moving other axis (p.along axis))
    (hmoved : p.along axis ≠ moving.origin axis) :
    ∃ g ∈ Guide.alongAxis limit moving other axis,
      g.axis = axis ∧ g.position ∈ (moving.movedTo p).alignments axis := by
  obtain ⟨m, hm, hnear, hposition⟩ := h
  have hapart : m.1 - m.2 ≠ 0 := fun heq =>
    hmoved (by rw [hposition, ← neg_sub, heq, neg_zero, add_zero])
  have hisNear : Guide.isNear limit m.1 m.2 = true := by
    simp only [Guide.isNear, Bool.and_eq_true, decide_eq_true_eq, Scalar.abs_eq_abs] at hnear ⊢
    exact ⟨by simpa [Scalar.instOfNat_eq] using hapart, hnear⟩
  have hplace : m.2 = m.1 + (p.along axis - moving.origin axis) := by
    rw [hposition]
    ring
  refine ⟨Guide.past moving other axis m.2, List.mem_filterMap.mpr ⟨m, hm, if_pos hisNear⟩, ?_, ?_⟩
  · cases axis <;> rfl
  · have hmine := mem_alignments_movedTo (List.of_mem_zip hm).1 p
    rw [← hplace] at hmine
    cases axis <;> exact hmine

/-- Along an axis, a snapped frame that moved shows a guide where an edge or its middle lies. -/
theorem exists_guide_of_along_ne (axis : Axis)
    (h : (moving.snapped limit others).along axis ≠ moving.origin axis) :
    ∃ g ∈ Guide.ofMoving limit moving others,
      g.axis = axis ∧
        g.position ∈ (moving.movedTo (moving.snapped limit others)).alignments axis := by
  obtain ⟨other, hother, hmeets⟩ := (snapped_cases limit moving others axis).resolve_left h
  obtain ⟨g, hg, haxis, hposition⟩ := exists_mem_alongAxis hmeets h
  have hall : g ∈ others.flatMap fun other => Guide.alongAxis limit moving other .vertical
      ++ Guide.alongAxis limit moving other .horizontal := by
    refine List.mem_flatMap.mpr ⟨other, hother, List.mem_append.mpr ?_⟩
    cases axis
    · exact .inl hg
    · exact .inr hg
  obtain ⟨g', hg', rfl | hsame⟩ := Guide.stands_distinct hall
  · exact ⟨g', hg', haxis, hposition⟩
  · rw [Guide.samePlace, Bool.and_eq_true, beq_iff_eq] at hsame
    have hplace : g.position = g'.position := of_decide_eq_true hsame.2
    exact ⟨g', hg', hsame.1.symm.trans haxis, hplace ▸ hposition⟩

/-- With exact numbers, a coordinate that snapping changes is changed by less than the snap distance
on the board, and one of the guides that are drawn lies where the frame then has an edge or its
middle. -/
theorem guides_of_snapped (moving : Frame α) (others : List (Frame α))
    (viewport : Option (Viewport α)) (reach : α) :
    let limit := Guide.onBoard viewport reach
    let p := moving.snapped limit others
    let guides := Guide.ofMoving limit moving others
    (p.x ≠ moving.x → |p.x - moving.x| < limit ∧
        ∃ g ∈ guides, g.axis = .vertical ∧ g.position ∈ (moving.movedTo p).alignments .vertical) ∧
      (p.y ≠ moving.y → |p.y - moving.y| < limit ∧
        ∃ g ∈ guides,
          g.axis = .horizontal ∧ g.position ∈ (moving.movedTo p).alignments .horizontal) := by
  intro limit p guides
  obtain ⟨hx, hy⟩ := near_snapped limit moving others
  constructor
  · intro hne
    exact ⟨hx.resolve_left hne, exists_guide_of_along_ne .vertical hne⟩
  · intro hne
    exact ⟨hy.resolve_left hne, exists_guide_of_along_ne .horizontal hne⟩

/-- A frame near another one of its size snaps to it along both axes. -/
theorem guides_of_snapped_pair :
    letI : Trigonometry ℚ := ⟨fun _ => 1, fun _ => 0, fun _ _ => 0⟩
    let frame (id : String) (x y : ℚ) : Frame ℚ := ⟨id, x, y, 80, 40, 0, 0⟩
    let limit := Guide.onBoard none 10
    let p := (frame "m" 295 203).snapped limit [frame "o" 300 200]
    let guides := Guide.ofMoving limit (frame "m" 295 203) [frame "o" 300 200]
    (p.x = 300 ∧ p.y = 200) ∧
      (∃ g ∈ guides,
        g.axis = .vertical ∧ g.position ∈ ((frame "m" 295 203).movedTo p).alignments .vertical) ∧
      ∃ g ∈ guides,
        g.axis = .horizontal ∧
          g.position ∈ ((frame "m" 295 203).movedTo p).alignments .horizontal := by
  let _ : Trigonometry ℚ := ⟨fun _ => 1, fun _ => 0, fun _ _ => 0⟩
  intro frame limit p guides
  have hp : p.x = 300 ∧ p.y = 200 := by decide +kernel
  have hmoved : p.x ≠ 295 ∧ p.y ≠ 203 := by
    rw [hp.1, hp.2]
    decide
  obtain ⟨hx, hy⟩ := guides_of_snapped (frame "m" 295 203) [frame "o" 300 200] none 10
  exact ⟨hp, (hx hmoved.1).2, (hy hmoved.2).2⟩

end Frame

end Whiteboard

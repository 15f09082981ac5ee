import Mathlib
import Whiteboard.Board.Grouping
import Whiteboard.Gesture.Resize
import Whiteboard.Proofs.Document.Followed
import Whiteboard.Proofs.Document.Proper
import Whiteboard.Proofs.Scalar.Exact

/-!
# Elements laid anew

What comes of the three kinds of changes that gestures make: another position
(`Element.apply_positionChanges`), another box (`Element.apply_boxChanges`), and another geometry of
an arrow (`Element.apply_geometryChanges`). Of two of them in a row the second counts.
-/

namespace Whiteboard

variable {α : Type}

namespace Element

/-- An arrow with another geometry. -/
def laid (g : ArrowGeometry α) : Element α → Element α
  | shape f k s =>
    shape (f.withBox g.box) k { s with start := some g.start, finish := some g.finish }
  | e => e

theorem nesting_withFrame (e : Element α) (f : Frame α) : nesting (e.withFrame f) = nesting e := by
  cases e <;> rfl

theorem laid_laid (g g' : ArrowGeometry α) (e : Element α) : (e.laid g).laid g' = e.laid g' := by
  cases e <;> rfl

section Changes

variable [Scalar α]

/-- How many times as long a side becomes; this is 1 for a side without length. -/
def stretch (old new : α) : α := if Scalar.isZero old then 1 else new / old

/-- The element in another box; the ends of an arrow are scaled. -/
def fitted (b : Box α) (e : Element α) : Element α :=
  e.rescaled (stretch e.width b.width) (stretch e.height b.height) (e.frame.withBox b)

theorem id_fitted (b : Box α) (e : Element α) : (e.fitted b).id = e.id := by
  rw [Element.id, fitted, frame_rescaled]
  rfl

variable {e e' : Element α} {changes changes' : Changes α}

/-- An element whose members are those of another one with the changes put in comes of them. -/
theorem apply_of_toMembers (hc : Changes.completed e (Entries.erase "id" changes) = .ok changes')
    (hm : Entries.merge e.toMembers changes' = e'.toMembers) (hv : e'.Valid)
    (hn : nesting e' ≤ maxNesting) (ids : IdSupply) : e.apply ids changes = (.ok e', ids) := by
  have hread : ofJson maxNesting e'.toJson = .ok e' := ofJson_toJson hv hn
  simp only [apply, hc, hm, ← toJson_eq, read, nameMissing_toJson, hread]
  rfl

/-- Where the ends of an arrow are not moved by the scale, only the frame counts. -/
theorem rescaled_of_ends {sx sy : α} (h : ∀ s ∈ e.arrow?, ∀ p, p ∈ s.start ∨ p ∈ s.finish →
    scaledEnd sx sy p = p) (f : Frame α) : e.rescaled sx sy f = e.withFrame f := by
  have hend {o : Option (Point α)} (ho : ∀ p ∈ o, scaledEnd sx sy p = p) :
      o.map (scaledEnd sx sy) = o := (Option.map_congr ho).trans (congrFun Option.map_id o)
  unfold rescaled
  split
  · next s =>
    have hs := h s rfl
    rw [hend fun p hp => hs p (.inl hp), hend fun p hp => hs p (.inr hp)]
    rfl
  · rfl

theorem nesting_rescaled (sx sy : α) (f : Frame α) (e : Element α) :
    nesting (e.rescaled sx sy f) = nesting e := by
  unfold rescaled
  split
  · rfl
  · exact nesting_withFrame e f

theorem growth_of_num {key : String} {old new : α}
    (h : Entries.get? key changes = some (.num new)) :
    Changes.growth key old changes = .ok (stretch old new) := by
  unfold Changes.growth stretch
  rw [h]
  split <;> rfl

theorem growth_of_none {key : String} {old : α} (h : Entries.get? key changes = none) :
    Changes.growth key old changes = .ok 1 := by
  unfold Changes.growth
  rw [h]
  split <;> rfl

theorem completed_arrow {f : Frame α} {s : Shape α} {sx sy : α}
    (hx : Changes.growth "width" f.width changes = .ok sx)
    (hy : Changes.growth "height" f.height changes = .ok sy) :
    Changes.completed (shape f .arrow s) changes = .ok (Changes.putEnd "arrow_end" s.finish sx sy
          (Changes.putEnd "arrow_start" s.start sx sy changes)) := by
  rw [Changes.completed, Changes.putEnds, hx, hy]
  rfl

/-- A new geometry is read from the writing of the arrow that has it. -/
theorem apply_toChanges_eq {f : Frame α} {s : Shape α} {g : ArrowGeometry α} (ids : IdSupply) :
    (shape f .arrow s).apply ids g.toChanges
      = ((ofJson maxNesting ((shape f .arrow s).laid g).toJson).toEdit, ids) := by
  have hc : Changes.completed (shape f .arrow s) (Entries.erase "id" g.toChanges)
      = .ok (Changes.putEnd "arrow_end" s.finish _ _ (Changes.putEnd "arrow_start" s.start _ _
          (Entries.erase "id" g.toChanges))) :=
    completed_arrow (growth_of_num rfl) (growth_of_num rfl)
  have hm : Entries.merge (shape f .arrow s).toMembers g.toChanges
      = ((shape f .arrow s).laid g).toMembers := rfl
  rw [apply, hc]
  simp only [Changes.completed_toChanges hc, hm, ← toJson_eq, read, nameMissing_toJson]

theorem Valid.laid (he : e.Valid) {g : ArrowGeometry α} (hw : 0 ≤ g.box.width)
    (hh : 0 ≤ g.box.height) : (e.laid g).Valid := by
  cases he with
  | shape hf hs => exact .shape ⟨hw, hh, hf.normal⟩ hs
  | image hf => exact .image hf
  | text hf => exact .text hf
  | group hf hc => exact .group hf hc

/-- An arrow takes over a new geometry. -/
theorem apply_geometryChanges {f : Frame α} {s : Shape α} {g : ArrowGeometry α}
    (he : (shape f .arrow s).Valid) (hw : 0 ≤ g.box.width) (hh : 0 ≤ g.box.height)
    (ids : IdSupply) : (shape f .arrow s).apply ids g.toChanges
      = (.ok ((shape f .arrow s).laid g), ids) := by
  have hv : ((shape f .arrow s).laid g).Valid := he.laid hw hh
  rw [apply_toChanges_eq, ofJson_toJson hv (Nat.zero_le _)]
  rfl

/-- The changes that put an element in a box do so. -/
theorem apply_boxChanges (he : e.Valid) (hn : nesting e ≤ maxNesting) {b : Box α}
    (hw : 0 ≤ b.width) (hh : 0 ≤ b.height) (ids : IdSupply) :
    e.apply ids b.toChanges = (.ok (e.fitted b), ids) := by
  have hv : (e.fitted b).Valid := he.rescaled ⟨hw, hh, he.frame.normal⟩
  have hn' : nesting (e.fitted b) ≤ maxNesting := (nesting_rescaled _ _ _ e).trans_le hn
  cases e with
  | shape f k s =>
    cases k with
    | arrow =>
      have hc : Changes.completed (shape f .arrow s) (Entries.erase "id" b.toChanges) = .ok _ :=
        completed_arrow (growth_of_num rfl) (growth_of_num rfl)
      refine apply_of_toMembers hc ?_ hv hn' ids
      rcases s with ⟨_, _, _, _, _, _, _, _ | start, _ | finish, _, _, _, _, _⟩ <;> rfl
    | _ => exact apply_of_toMembers rfl rfl hv hn' ids
  | text f t => exact apply_of_toMembers rfl rfl hv hn' ids
  | _ => exact apply_of_toMembers rfl rfl hv hn' ids

/-- The changes that move an element do so; the ends of an arrow are scaled by 1. -/
theorem apply_moving (he : e.Valid) (hn : nesting e ≤ maxNesting) (p : Point α)
    (ids : IdSupply) : e.apply ids (GestureFrame.positionChanges p)
      = (.ok (e.rescaled 1 1 { e.frame with x := p.x, y := p.y }), ids) := by
  have hf := he.frame
  have hv : (e.rescaled 1 1 { e.frame with x := p.x, y := p.y }).Valid :=
    he.rescaled ⟨hf.width_nonneg, hf.height_nonneg, hf.normal⟩
  have hn' := (nesting_rescaled 1 1 { e.frame with x := p.x, y := p.y } e).trans_le hn
  cases e with
  | shape f k s =>
    cases k with
    | arrow =>
      have hc : Changes.completed (shape f .arrow s)
          (Entries.erase "id" (GestureFrame.positionChanges p)) = .ok _ :=
        completed_arrow (growth_of_none rfl) (growth_of_none rfl)
      refine apply_of_toMembers hc ?_ hv hn' ids
      rcases s with ⟨_, _, _, _, _, _, _, _ | start, _ | finish, _, _, _, _, _⟩ <;> rfl
    | _ => exact apply_of_toMembers rfl rfl hv hn' ids
  | text f t => exact apply_of_toMembers rfl rfl hv hn' ids
  | _ => exact apply_of_toMembers rfl rfl hv hn' ids

end Changes

/-! ## Exact numbers -/

section Exact

variable [Field α] [LinearOrder α] [FloorRing α] [Trigonometry α] {e : Element α}

/-- What is scaled by 1 stays. -/
theorem rescaled_one {one : α} (h : one = 1) (f : Frame α) (e : Element α) :
    e.rescaled one one f = e.withFrame f :=
  rescaled_of_ends (fun _ _ p _ => congrArg₂ Point.mk (h ▸ mul_one p.x) (h ▸ mul_one p.y)) f

/-- The changes that move an element do so. -/
theorem apply_positionChanges (he : e.Valid) (hn : nesting e ≤ maxNesting) (p : Point α)
    (ids : IdSupply) :
    e.apply ids (GestureFrame.positionChanges p) = (.ok (e.moveTo p.x p.y), ids) := by
  rw [apply_moving he hn, rescaled_one (by rw [Scalar.instOfNat_eq, Nat.cast_one])]
  rfl

theorem isZero_iff {x : α} : Scalar.isZero x = true ↔ x = 0 := by
  rw [Scalar.isZero, Scalar.instOfNat_eq, Nat.cast_zero]
  exact decide_eq_true_iff

/-- What is stretched in two steps is stretched at a time, unless it was of no length. -/
theorem mul_stretch_mul_stretch {x w w₁ : α} (hx : w = 0 → x = 0) (hw : w₁ = 0 → w = 0) (w₂ : α) :
    x * stretch w w₁ * stretch w₁ w₂ = x * stretch w w₂ := by
  by_cases h : w = 0
  · have hzero (a b : α) : x * a * b = x * stretch w w₂ := by simp [hx h]
    exact hzero _ _
  · have h₁ : w₁ ≠ 0 := fun hzero => h (hw hzero)
    have hdiv : x * (w₁ / w) * (w₂ / w₁) = x * (w₂ / w) := by field_simp
    simp only [stretch, isZero_iff, if_neg h, if_neg h₁]
    exact hdiv

/-- Where the box of an arrow has no extent, its ends lie at its corner. -/
def Scalable (e : Element α) : Prop :=
  ∀ s ∈ e.arrow?, ∀ p, p ∈ s.start ∨ p ∈ s.finish →
    (e.width = 0 → p.x = 0) ∧ (e.height = 0 → p.y = 0)

/-- Of two boxes the second counts. -/
theorem fitted_fitted (h : e.Scalable) {b : Box α} (hw : b.width = 0 → e.width = 0)
    (hh : b.height = 0 → e.height = 0) (b' : Box α) : (e.fitted b).fitted b' = e.fitted b' := by
  have hend (s : Shape α) (hs : s ∈ e.arrow?) (o : Option (Point α))
      (ho : ∀ p ∈ o, p ∈ s.start ∨ p ∈ s.finish) :
      (o.map (scaledEnd (stretch e.width b.width) (stretch e.height b.height))).map
          (scaledEnd (stretch b.width b'.width) (stretch b.height b'.height))
        = o.map (scaledEnd (stretch e.width b'.width) (stretch e.height b'.height)) := by
    rw [Option.map_map]
    refine Option.map_congr fun p hp => ?_
    obtain ⟨hx, hy⟩ := h s hs p (ho p hp)
    exact congrArg₂ Point.mk (mul_stretch_mul_stretch hx hw _) (mul_stretch_mul_stretch hy hh _)
  cases e with
  | shape f k s =>
    cases k with
    | arrow =>
      have hstart := hend s rfl s.start fun p hp => .inl hp
      have hfinish := hend s rfl s.finish fun p hp => .inr hp
      exact congrArg₂ (fun start finish => shape (f.withBox b') .arrow { s with start, finish })
        hstart hfinish
    | _ => rfl
  | _ => rfl

end Exact

end Element

end Whiteboard

import Mathlib
import Whiteboard.Proofs.Board.Reachable
import Whiteboard.Proofs.Document.Parts
import Whiteboard.Proofs.Scalar.Exact

/-!
# Ranges

Most edits put elements on a board that no reader has checked. With exact numbers the checks hold
of them all the same: whatever is done to a board, each element that it holds has a size, an angle
and a curve in range, on the board, in the clipboard and in the history, and at every depth of
groups (`Board.inRange_of_run`). So nothing in the history is refused when it is read back.
-/

namespace Whiteboard

section Ranges

variable {α : Type} [Scalar α]

/-- What an element looks like once it was checked. -/
structure Element.InRange (e : Element α) : Prop where
  width_nonneg : 0 ≤ e.width
  height_nonneg : 0 ≤ e.height
  rotation_nonneg : 0 ≤ e.rotation
  rotation_lt : e.rotation < 360
  curve : ∀ s ∈ e.shape?, ∀ c ∈ s.curve, -1 ≤ c ∧ c ≤ 1

structure Document.InRange (d : Document α) : Prop where
  parts : ∀ e ∈ Element.partsOf d.elements, e.InRange
  scale_pos : 0 < d.viewport.scale

/-- The checks let a document pass: only the depth to which a reader follows groups may stop it. -/
structure Document.Rereadable (d : Document α) : Prop where
  elements : ∀ room, Element.nestingOf d.elements ≤ room →
    Element.ofJsons room 0 (Element.toJsons d.elements) = .ok d.elements
  reread : d.Writable → d.reread = .ok d

theorem Document.Valid.rereadable {d : Document α} (h : d.Valid) : d.Rereadable := by
  refine ⟨fun room hroom => Element.ofJsons_toJsons (fun e he => ?_) 0, Document.reread_eq h⟩
  exact Element.ofJson_toJson (h.elements e he)
    ((Element.nesting_le_nestingOf he).trans hroom)

end Ranges

variable {α : Type} [Field α] [LinearOrder α] [FloorRing α] [Trigonometry α]

namespace Board

theorem finite_of_exact (d : Document α) : d.Finite := fun _ _ => rfl

/-- With exact numbers, edits lead to reachable boards, however many they are. -/
theorem reachable_performAll {limit : Int} {b : Board α} (h : Reachable limit b)
    {edits : List (Edit α)} (hedits : ∀ e ∈ edits, e.Valid) :
    Reachable limit (b.performAll edits) := by
  induction edits generalizing b with
  | nil => exact h
  | cons e rest ih =>
    rw [List.forall_mem_cons] at hedits
    exact ih (h.step hedits.1 (finite_of_exact _)) hedits.2

end Board

variable [IsStrictOrderedRing α]

theorem Element.Valid.inRange {e : Element α} (h : e.Valid) : e.InRange := by
  obtain ⟨hnonneg, hlt⟩ := Scalar.normalizeAngle_eq_self_iff.mp h.frame.normal
  refine ⟨h.frame.width_nonneg, h.frame.height_nonneg, ?_, hlt, ?_⟩
  · rw [Scalar.instOfNat_eq, Nat.cast_zero]
    exact hnonneg
  · intro s hs
    cases h with
    | shape _ hshape =>
      cases hs
      exact hshape
    | _ => contradiction

theorem Element.inRange_of_mem_partsOf {es : List (Element α)} (h : ∀ e ∈ es, e.Valid) :
    ∀ p ∈ partsOf es, p.InRange := by
  intro p hp
  obtain ⟨e, he, hp⟩ := mem_partsOf.mp hp
  exact ((h e he).of_mem_parts hp).inRange

theorem Document.Valid.inRange {d : Document α} (h : d.Valid) : d.InRange :=
  ⟨Element.inRange_of_mem_partsOf h.elements, h.viewport⟩

namespace Board

/-- All that a run of edits leaves on a board is in range, and all states of its history can be
read back. -/
theorem inRange_of_run {ids : IdSupply} {es : List (Element α)} {v : Viewport α} {limit : Int}
    {edits : List (Edit α)} (hes : ∀ e ∈ es, e.Valid) (hv : v.Valid)
    (hedits : ∀ e ∈ edits, e.Valid) :
    let b := (Board.start ids es v limit).performAll edits
    b.document.InRange ∧ (∀ e ∈ Element.partsOf b.clipboard, e.InRange) ∧
      ∀ d ∈ b.history.timeline, d.InRange ∧ d.Rereadable := by
  intro b
  have hstart : Reachable limit (Board.start ids es v limit) :=
    .start hes hv (finite_of_exact _)
  have hsound : b.Sound := (reachable_performAll hstart hedits).sound
  refine ⟨hsound.document.inRange, Element.inRange_of_mem_partsOf hsound.clipboard, ?_⟩
  intro d hd
  have hvalid := (hsound.timeline d hd).1
  exact ⟨hvalid.inRange, hvalid.rereadable⟩

/-- A group that is turned and dissolved, a step back, and a copy of what there is then. -/
theorem inRange_of_run_regroup :
    let es : List (Element ℝ) :=
      [.newShape "a" .rectangle { x := 0, y := 0 }, .newShape "b" .arrow { x := 90, y := 30 }]
    let edits : List (Edit ℝ) :=
      [.group ["a", "b"], .rotate ["el000000001000"] 400, .ungroup ["el000000001000"], .undo,
        .select ["el000000001000"], .copy, .paste]
    let b := (Board.start .counting es .initial 50).performAll edits
    b.document.InRange ∧ (∀ e ∈ Element.partsOf b.clipboard, e.InRange) ∧
      ∀ d ∈ b.history.timeline, d.InRange ∧ d.Rereadable := by
  intro es edits
  have hes : ∀ e ∈ es, e.Valid := by
    intro e he
    simp only [es, List.mem_cons, List.not_mem_nil, or_false] at he
    rcases he with rfl | rfl
    · exact Element.valid_newShape "a" .rectangle _
    · exact Element.valid_newShape "b" .arrow _
  have hv : (Viewport.initial : Viewport ℝ).Valid := Scalar.ofNat_pos (by decide) (by decide)
  have hedits : ∀ e ∈ edits, e.Valid := by
    intro e he
    simp only [edits, List.mem_cons, List.not_mem_nil, or_false] at he
    rcases he with rfl | rfl | rfl | rfl | rfl | rfl | rfl <;> trivial
  exact inRange_of_run hes hv hedits

end Board

end Whiteboard

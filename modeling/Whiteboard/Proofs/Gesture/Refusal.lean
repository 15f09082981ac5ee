import Whiteboard.Proofs.Gesture.Resize
import Whiteboard.Proofs.Gesture.Timing

/-!
# Moves that are refused

A corner that should keep a ratio of the sides that is zero cannot be dragged. A resize is refused
just for that, and then the gesture is live and its batch is open (`Gesture.answer_of_move`).
-/

namespace Whiteboard

variable {α : Type} [Scalar α]

namespace GestureFrame

variable {starts : Entries (Box α)} {h : Handle} {keepRatio : Bool}

/-- Whether one of the boxes has no ratio of its sides to keep. -/
def lacksRatio (starts : Entries (Box α)) (h : Handle) (keepRatio : Bool) : Bool :=
  starts.any fun m => m.2.lacksRatio h keepRatio

/-- All boxes are resized, unless one of them has no ratio to keep. -/
theorem resizedBoxes_cases (starts : Entries (Box α)) (h : Handle) (dx dy : α) (keepRatio : Bool) :
    (lacksRatio starts h keepRatio = true ∧
        resizedBoxes h dx dy keepRatio starts = .error .noRatio) ∨
      (lacksRatio starts h keepRatio = false ∧
        ∃ boxes, resizedBoxes h dx dy keepRatio starts = .ok boxes) := by
  induction starts with
  | nil => exact .inr ⟨rfl, [], rfl⟩
  | cons m rest ih =>
    obtain ⟨id, b⟩ := m
    rw [lacksRatio, List.any_cons, resizedBoxes]
    cases hresized : b.resize? h dx dy keepRatio Box.leastSide with
    | none => exact .inl ⟨by rw [Box.resize?_eq_none_iff.mp hresized, Bool.true_or], rfl⟩
    | some r =>
      have hratio : b.lacksRatio h keepRatio = false := by
        rw [← Bool.not_eq_true, ← Box.resize?_eq_none_iff, hresized]
        exact Option.some_ne_none r
      rw [hratio, Bool.false_or]
      rcases ih with ⟨hlacks, hrest⟩ | ⟨hlacks, boxes, hrest⟩
      · exact .inl ⟨hlacks, by rw [hrest]; rfl⟩
      · exact .inr ⟨hlacks, (id, r) :: boxes, by rw [hrest]; rfl⟩

/-- What a resize asks for is there, unless a box has no ratio to keep. -/
theorem resize_cases (es : List (Element α)) (starts : Entries (Box α)) (h : Handle) (dx dy : α)
    (keepRatio : Bool) (viewport : Option (Viewport α)) (reach : α) :
    (lacksRatio starts h keepRatio = true ∧
        resize es starts h dx dy keepRatio viewport reach = .error .noRatio) ∨
      (lacksRatio starts h keepRatio = false ∧
        ∃ f, resize es starts h dx dy keepRatio viewport reach = .ok f) := by
  unfold resize
  rcases resizedBoxes_cases starts h dx dy keepRatio with ⟨hlacks, hboxes⟩ | ⟨hlacks, boxes, hboxes⟩
  · exact .inl ⟨hlacks, by rw [hboxes]; rfl⟩
  · exact .inr ⟨hlacks, _, by rw [hboxes]; rfl⟩

end GestureFrame

namespace Gesture

/-- Whether a gesture drags a corner of a box that has no ratio of its sides to keep. -/
def lacksRatio (g : Gesture α) (keepRatio : Bool) : Bool :=
  g.handle.any fun h => GestureFrame.lacksRatio g.starts h keepRatio

theorem frame_cases (g : Gesture α) (b : Board α) (dx dy : α) (keepRatio : Bool) :
    (g.lacksRatio keepRatio = true ∧ g.frame b dx dy keepRatio = .error .noRatio) ∨
      (g.lacksRatio keepRatio = false ∧ ∃ f, g.frame b dx dy keepRatio = .ok f) := by
  unfold frame lacksRatio
  cases g.handle with
  | none => exact .inr ⟨rfl, _, rfl⟩
  | some h => exact GestureFrame.resize_cases ..

variable {g : Gesture α} {b : Board α} {p : Point α} {keepRatio : Bool}

/-- What a move tells that makes the gesture go live. -/
theorem move_fst (h : g.goesLive b.viewport (p.x - g.origin.x) (p.y - g.origin.y) = true) :
    (g.move p keepRatio b).1
      = (g.frame (g.opened b) (p.x - g.origin.x) (p.y - g.origin.y) keepRatio).map
        fun _ => true := by
  have hframe (live : Bool) : { g with live }.frame (if g.live then b else b.beginBatch)
      (p.x - g.origin.x) (p.y - g.origin.y) keepRatio
        = g.frame (g.opened b) (p.x - g.origin.x) (p.y - g.origin.y) keepRatio := rfl
  unfold move
  dsimp only
  rw [h, hframe]
  cases g.frame (g.opened b) (p.x - g.origin.x) (p.y - g.origin.y) keepRatio <;> rfl

/-- When resizing has an answer. A box is refused just where a corner should keep a ratio of its
sides that is zero, a frame where that holds of one of its boxes, and a move where it would ask for
such a frame. Then the gesture is live and its batch is open all the same, and nothing else has
changed. -/
theorem answer_of_move (g : Gesture α) (b : Board α) (p : Point α) (keepRatio : Bool) :
    (∀ (box : Box α) (h : Handle) (dx dy least : α),
        if box.lacksRatio h keepRatio then box.resize? h dx dy keepRatio least = none
        else ∃ r, box.resize? h dx dy keepRatio least = some r) ∧
      (∀ (es : List (Element α)) (starts : Entries (Box α)) (h : Handle) (dx dy : α)
        (viewport : Option (Viewport α)) (reach : α),
        if GestureFrame.lacksRatio starts h keepRatio then
          GestureFrame.resize es starts h dx dy keepRatio viewport reach = .error .noRatio
        else ∃ f, GestureFrame.resize es starts h dx dy keepRatio viewport reach = .ok f) ∧
      if g.goesLive b.viewport (p.x - g.origin.x) (p.y - g.origin.y) then
        if g.lacksRatio keepRatio then
          g.move p keepRatio b = (.error .noRatio, { g with live := true }, g.opened b)
        else (g.move p keepRatio b).1 = .ok true
      else g.move p keepRatio b = (.ok false, g, b) := by
  refine ⟨fun box h dx dy least => ?_, fun es starts h dx dy viewport reach => ?_, ?_⟩
  · split
    · next hlacks => exact Box.resize?_eq_none_iff.mpr hlacks
    · next hratio =>
      exact Option.ne_none_iff_exists'.mp fun hnone => hratio (Box.resize?_eq_none_iff.mp hnone)
  · rcases GestureFrame.resize_cases es starts h dx dy keepRatio viewport reach with
      ⟨hlacks, hresize⟩ | ⟨hlacks, hresize⟩
    · rwa [if_pos hlacks]
    · rwa [if_neg (Bool.eq_false_iff.mp hlacks)]
  · split
    · next hlive =>
      rcases g.frame_cases (g.opened b) (p.x - g.origin.x) (p.y - g.origin.y) keepRatio with
        ⟨hlacks, hframe⟩ | ⟨hlacks, f, hframe⟩
      · rw [if_pos hlacks]
        exact Prod.ext (by rw [move_fst hlive, hframe]; rfl) (move_refused hlive hframe)
      · rw [if_neg (Bool.eq_false_iff.mp hlacks), move_fst hlive, hframe]
        rfl
    · next hidle =>
      rw [Bool.not_eq_true] at hidle
      unfold move
      dsimp only
      rw [hidle]
      rfl

/-- The corner of a rectangle without width: there is no box, and the move that asks for it is
refused after it has opened a batch. -/
theorem exists_move_refused :
    let e : Element Double :=
      .shape (Draft.frame { x := 0, y := 0 } "a" 0 50) .rectangle (.blank none)
    let b : Board Double := .start .counting [e] .initial 50
    let g := start b ⟨0, 0⟩ (some ["a"]) (some .bottomRight) 5
    let moved := g.move ⟨10, 0⟩ true b
    Board.Reachable 50 b ∧ (0 ≤ e.width ∧ 0 ≤ e.height) ∧
      (e.frame.box.resize? .bottomRight 10 0 true Box.leastSide).isNone = true ∧
      (GestureFrame.resize [e] [("a", e.frame.box)] .bottomRight 10 0 true none 10).toBool = false ∧
      b.batching = false ∧ moved.1 = .error .noRatio ∧ moved.2.2.batching = true := by
  intro e b g moved
  have he : e.Valid := .shape (Draft.valid_frame _ "a" (Scalar.ofNat_nonneg (by decide))
    (Scalar.ofNat_nonneg (by decide))) (Shape.valid_of_curve_eq_none rfl)
  refine ⟨.start (List.forall_mem_singleton.mpr he) (by decide +kernel) (by decide +kernel), ?_⟩
  decide +kernel

end Gesture

end Whiteboard

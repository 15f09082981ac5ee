import Whiteboard.Gesture.Resize
import Whiteboard.Proofs.Board.Content
import Whiteboard.Proofs.Document.Rebinding

/-!
# What gestures ask for

Every frame of a drag or a resize only places elements anew, as long as its numbers are finite
(`GestureFrame.proper_drag`, `GestureFrame.proper_resize`). No element refuses it.
-/

namespace Whiteboard

variable {α : Type} [Scalar α]

namespace Batch

theorem Proper.merge {base changes : Batch α} (hb : base.Proper) (hc : changes.Proper) :
    (Batch.merge base changes).Proper := fun m hm =>
  (Entries.mem_of_mem_merge hm).elim (hc m) (hb m)

theorem Proper.filter {batch : Batch α} (h : batch.Proper) (p : String × Changes α → Bool) :
    Proper (batch.filter p) := fun m hm => h m (List.mem_filter.mp hm).1

end Batch

namespace Element

theorem nesting_le_of_applyEach {changesOf : Element α → Option (Changes α)}
    {es : List (Element α)} (hes : ∀ e ∈ es, nesting e ≤ maxNesting) (ids : IdSupply) :
    ∀ e ∈ (applyEach changesOf ids es).2.1, nesting e ≤ maxNesting := by
  refine forall_mem_applyEach hes (fun e e' he hle => ?_) ids
  cases he with
  | same => exact hle
  | changed _ happly => exact nesting_le_of_apply happly

end Element

theorem places_positionChanges (p : Point α) : (GestureFrame.positionChanges p).Places := by
  intro m hm
  simp only [GestureFrame.positionChanges, List.mem_cons, List.not_mem_nil, or_false] at hm
  rcases hm with rfl | rfl
  · exact .position (.inl rfl)
  · exact .position (.inr rfl)

theorem Box.places_toChanges {b : Box α} (hw : 0 ≤ b.width) (hh : 0 ≤ b.height) :
    b.toChanges.Places := by
  intro m hm
  simp only [Box.toChanges, List.mem_cons, List.not_mem_nil, or_false] at hm
  rcases hm with rfl | rfl | rfl | rfl
  · exact .position (.inl rfl)
  · exact .position (.inr rfl)
  · exact .side (.inl rfl) hw
  · exact .side (.inr rfl) hh

/-- Each box is that of the start, resized. -/
theorem GestureFrame.alike_of_resizedBoxes {h : Handle} {dx dy : α} {keepRatio : Bool}
    {starts boxes : Entries (Box α)}
    (hb : resizedBoxes h dx dy keepRatio starts = .ok boxes) :
    Entries.Alike (fun b r => b.resize? h dx dy keepRatio Box.leastSide = some r) starts boxes := by
  induction starts generalizing boxes with
  | nil =>
    cases hb
    exact .nil
  | cons m rest ih =>
    obtain ⟨id, b⟩ := m
    rw [resizedBoxes] at hb
    split at hb
    · contradiction
    · next r hr =>
      cases hrest : resizedBoxes h dx dy keepRatio rest with
      | error e => simp [hrest, Except.map] at hb
      | ok boxes' =>
        simp only [hrest, Except.map, Except.ok.injEq] at hb
        subst hb
        exact .cons ⟨rfl, hr⟩ (ih hrest)

variable [LawfulScalar α]

namespace GestureFrame

/-! ## Frames -/

theorem proper_drag (es : List (Element α)) (starts : Entries (Point α)) (dx dy : α)
    (viewport : Option (Viewport α)) (reach : α) :
    (drag es starts dx dy viewport reach).updates.Proper := by
  unfold drag
  split
  · nofun
  · refine Batch.Proper.merge (fun m hm _ => ?_)
      (Batch.Proper.filter (Element.proper_rebindings _ _ true) _)
    obtain ⟨p, -, rfl⟩ := List.mem_map.mp hm
    exact places_positionChanges p.2

/-- The sides of a resized box stay, or have a length. -/
theorem extent_of_resize? {b r : Box α} {h : Handle} {dx dy : α} {keepRatio : Bool}
    (hr : b.resize? h dx dy keepRatio Box.leastSide = some r) :
    (r.width = b.width ∨ 0 < r.width) ∧ (r.height = b.height ∨ 0 < r.height) := by
  have hleast : (0 : α) < Box.leastSide := Scalar.ofNat_pos (by decide) (by decide)
  have hself : (Box.leastSide : α) ≤ Box.leastSide :=
    LawfulScalar.le_self (Scalar.isFinite_ofNat (by decide))
  have hgreater (x : α) : 0 < Scalar.greater Box.leastSide x :=
    Scalar.lt_of_lt_of_le hleast (Scalar.le_greater_left hself)
  obtain ⟨height, hheight, rfl⟩ := Option.map_eq_some_iff.mp hr
  constructor
  · dsimp only
    split
    · exact .inr (hgreater _)
    · exact .inl rfl
  · dsimp only
    unfold Box.resizedHeight? at hheight
    split at hheight
    · cases hheight
      exact .inl rfl
    · split at hheight
      · obtain ⟨x, -, rfl⟩ := Option.map_eq_some_iff.mp hheight
        exact .inr (hgreater x)
      · cases hheight
        exact .inr (hgreater _)

/-- The sides of a resized box are not negative. -/
theorem sides_of_resize? {b r : Box α} {h : Handle} {dx dy : α} {keepRatio : Bool}
    (hw : 0 ≤ b.width) (hh : 0 ≤ b.height)
    (hr : b.resize? h dx dy keepRatio Box.leastSide = some r) : 0 ≤ r.width ∧ 0 ≤ r.height := by
  obtain ⟨hwidth, hheight⟩ := extent_of_resize? hr
  exact ⟨hwidth.elim (fun h => h ▸ hw) Scalar.le_of_lt,
    hheight.elim (fun h => h ▸ hh) Scalar.le_of_lt⟩

theorem sides_of_resizedBoxes {h : Handle} {dx dy : α} {keepRatio : Bool}
    {starts boxes : Entries (Box α)} (hs : ∀ m ∈ starts, 0 ≤ m.2.width ∧ 0 ≤ m.2.height)
    (hb : resizedBoxes h dx dy keepRatio starts = .ok boxes) :
    ∀ m ∈ boxes, 0 ≤ m.2.width ∧ 0 ≤ m.2.height := by
  intro m hm
  obtain ⟨m₀, hm₀, -, hr⟩ := exists_of_mem_right (alike_of_resizedBoxes hb) hm
  exact sides_of_resize? (hs m₀ hm₀).1 (hs m₀ hm₀).2 hr

theorem proper_resize {es : List (Element α)} {starts : Entries (Box α)} {h : Handle} {dx dy : α}
    {keepRatio : Bool} {viewport : Option (Viewport α)} {reach : α} {f : GestureFrame α}
    (hs : ∀ m ∈ starts, 0 ≤ m.2.width ∧ 0 ≤ m.2.height)
    (hf : resize es starts h dx dy keepRatio viewport reach = .ok f) : f.updates.Proper := by
  unfold resize at hf
  cases hboxes : resizedBoxes h dx dy keepRatio starts with
  | error e => simp [hboxes, bind, Except.bind] at hf
  | ok boxes =>
    simp only [hboxes, bind, Except.bind, pure, Except.pure, Except.ok.injEq] at hf
    subst hf
    refine Batch.Proper.merge (fun m hm _ => ?_) (Element.proper_rebindings boxes.keys _ true)
    obtain ⟨b, hb, rfl⟩ := List.mem_map.mp hm
    have hsides := sides_of_resizedBoxes hs hboxes b hb
    exact Box.places_toChanges hsides.1 hsides.2

end GestureFrame

end Whiteboard

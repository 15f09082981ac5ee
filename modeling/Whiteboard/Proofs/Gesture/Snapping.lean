import Whiteboard.Proofs.Gesture.Frames
import Whiteboard.Proofs.Gesture.Hold

/-!
# Dragged and resized elements

A drag holds elements at points (`GestureFrame.drag_updates`), a resize holds them in boxes
(`GestureFrame.resize_updates`). Where the first of the dragged elements snaps does not depend on
frames that were drawn before (`GestureFrame.offset_turned`), unless it comes near an arrow that
follows.
-/

namespace Whiteboard

variable {α : Type}

/-! ## Snapping -/

namespace Frame

variable [Scalar α]

/-- The middles, the far edges or the near edges of two sides are near each other. -/
def SidesMeet (limit mine size theirs otherSize : α) : Prop :=
  Scalar.abs (mine + size / 2 - (theirs + otherSize / 2)) < limit ∨
    Scalar.abs (mine + size - (theirs + otherSize)) < limit ∨ Scalar.abs (mine - theirs) < limit

/-- A moved frame comes near enough to another one to snap to it. -/
def Meets (limit : α) (moving other : Frame α) : Prop :=
  SidesMeet limit moving.x moving.width other.x other.width ∨
    SidesMeet limit moving.y moving.height other.y other.height

theorem snapSide_of_not_meet {limit mine size theirs otherSize : α}
    (h : ¬ SidesMeet limit mine size theirs otherSize) (position : α) :
    snapSide limit mine size theirs otherSize position = position := by
  obtain ⟨hmiddle, hfar, hnear⟩ := not_or.mp h |>.imp_right not_or.mp
  rw [snapSide, if_neg hmiddle, if_neg hfar, if_neg hnear]

/-- Frames that are not met may lie elsewhere. -/
theorem snapped_map_congr {β : Type} {limit : α} {moving : Frame α} {f f' : β → Frame α}
    {others : List β}
    (h : ∀ o ∈ others, f o = f' o ∨ ¬ Meets limit moving (f o) ∧ ¬ Meets limit moving (f' o)) :
    moving.snapped limit (others.map f) = moving.snapped limit (others.map f') := by
  unfold snapped
  generalize (⟨moving.x, moving.y⟩ : Point α) = p
  induction others generalizing p with
  | nil => rfl
  | cons o rest ih =>
    rw [List.forall_mem_cons] at h
    rw [List.map_cons, List.map_cons, List.foldl_cons, List.foldl_cons]
    rcases h.1 with heq | ⟨hleft, hright⟩
    · rw [heq]
      exact ih h.2 _
    · obtain ⟨hx, hy⟩ := not_or.mp hleft
      obtain ⟨hx', hy'⟩ := not_or.mp hright
      rw [snapSide_of_not_meet hx, snapSide_of_not_meet hy, snapSide_of_not_meet hx',
        snapSide_of_not_meet hy']
      exact ih h.2 p

end Frame

/-! ## Drags and resizes -/

namespace Hold

/-- Elements that are dragged; arrows among them are not bound anew. -/
def drag : Hold α (Point α) where
  frame p f := { f with x := p.x, y := p.y }
  changes := GestureFrame.positionChanges
  own p e := e.moveTo p.x p.y
  bindsOwn := false

/-- Elements that are resized. -/
def resize [Scalar α] : Hold α (Box α) where
  frame b f := f.withBox b
  changes := Box.toChanges
  own b e := e.fitted b
  bindsOwn := true

theorem lawful_drag : (drag : Hold α (Point α)).Lawful where
  id_frame _ _ := rfl
  id_own p e := by cases e <;> rfl
  rebinds_own moved p e := Element.rebinds_withFrame rfl
  box_own p p' e := by cases e <;> rfl

/-- What is dragged to another point has forgotten the one before. -/
theorem forgets_drag [Scalar α] {held held' : Entries (Point α)} (h : held'.keys = held.keys)
    (es : List (Element α)) : drag.Forgets held held' es where
  keys := h
  own e _ p p' _ _ _ := e.moveTo_moveTo p.x p.y p'.x p'.y
  hangs := nofun

theorem lawful_resize [Scalar α] : (resize : Hold α (Box α)).Lawful where
  id_frame _ _ := rfl
  id_own b e := e.id_fitted b
  rebinds_own _ b e := e.rebinds_fitted b
  box_own _ _ _ := rfl

end Hold

namespace GestureFrame

section Drag

variable [Scalar α] {es : List (Element α)} {starts : Entries (Point α)} {dx dy limit : α}

/-- The first of the dragged elements, and where it started. -/
def lead? (es : List (Element α)) (starts : Entries (Point α)) : Option (Element α × Point α) :=
  starts.findSome? fun (id, p) => (lastOf? es id).map (·, p)

/-- The frame of an element that follows the pointer. -/
def carried (lead : Element α × Point α) (dx dy : α) : Frame α :=
  { lead.1.frame with x := lead.2.x + dx, y := lead.2.y + dy }

/-- The frames of the elements that are not dragged. -/
def others (es : List (Element α)) (starts : Entries (Point α)) : List (Frame α) :=
  (es.filter fun e => !Entries.has e.id starts).map Element.frame

/-- How far elements are dragged when the first of them snaps. -/
def offset (limit : α) (es : List (Element α)) (starts : Entries (Point α)) (dx dy : α) : Point α :=
  match lead? es starts with
  | none => ⟨dx, dy⟩
  | some lead =>
    let moved := carried lead dx dy
    let snapped := moved.snapped limit (others es starts)
    ⟨dx + snapped.x - moved.x, dy + snapped.y - moved.y⟩

/-- Where elements are dragged. -/
def targets (limit : α) (es : List (Element α)) (starts : Entries (Point α)) (dx dy : α) :
    Entries (Point α) :=
  starts.mapValues fun p =>
    ⟨p.x + (offset limit es starts dx dy).x, p.y + (offset limit es starts dx dy).y⟩

theorem keys_targets : (targets limit es starts dx dy).keys = starts.keys :=
  Entries.keys_mapValues _ _

omit [Scalar α] in
theorem starts_eq_nil_of_lead? (hthere : ∀ id ∈ starts.keys, ∃ e ∈ es, e.id = id)
    (h : lead? es starts = none) : starts = [] := by
  refine List.eq_nil_iff_forall_not_mem.mpr fun m hm => ?_
  obtain ⟨e, he, hid⟩ := hthere m.1 (List.mem_map_of_mem hm)
  have hnone := List.findSome?_eq_none_iff.mp h m hm
  rw [Option.map_eq_none_iff, lastOf?, List.find?_eq_none] at hnone
  exact hnone e (List.mem_reverse.mpr he) (beq_iff_eq.mpr hid)

/-- A drag asks for what it means to hold elements where they are dragged. -/
theorem drag_updates (hthere : ∀ id ∈ starts.keys, ∃ e ∈ es, e.id = id) (dx dy : α)
    (viewport : Option (Viewport α)) (reach : α) :
    (drag es starts dx dy viewport reach).updates
      = Hold.drag.updates (targets (Guide.onBoard viewport reach) es starts dx dy) es := by
  have hall : (starts.filter fun m => es.any fun e => e.id == m.1) = starts := by
    refine List.filter_eq_self.mpr fun m hm => List.any_eq_true.mpr ?_
    obtain ⟨e, he, hid⟩ := hthere m.1 (List.mem_map_of_mem hm)
    exact ⟨e, he, beq_iff_eq.mpr hid⟩
  cases hlead : lead? es starts with
  | none =>
    obtain rfl := starts_eq_nil_of_lead? hthere hlead
    have hnone := Element.rebindings_nil (es.map (Hold.drag.framed [])) true
    exact congrArg (fun arrows : Batch α => Batch.merge [] (arrows.filter _)) hnone.symm
  | some lead =>
    unfold drag
    rw [show (starts.findSome? fun (id, p) => (lastOf? es id).map (·, p)) = some lead from hlead]
    dsimp only
    rw [hall, Hold.updates, targets, offset, hlead]
    simp only [Entries.has_mapValues]
    rfl

/-- The dragged element does not come near the arrows that follow. -/
def Clear (limit : α) (es : List (Element α)) (starts : Entries (Point α)) (dx dy : α) : Prop :=
  ∀ lead ∈ lead? es starts, ∀ a ∈ es, Entries.has a.id starts = false →
    a.rebinds starts.keys true = true → ¬ (carried lead dx dy).Meets limit a.frame

section Turned

variable {held : Entries (Point α)} (hheld : held.keys = starts.keys)

theorem lastOf?_turned (held : Entries (Point α)) (es : List (Element α)) (id : String) :
    lastOf? (es.map (Hold.drag.turned held es)) id
      = (lastOf? es id).map (Hold.drag.turned held es) := by
  rw [lastOf?, lastOf?, ← List.map_reverse, List.find?_map]
  refine congrArg _ (List.find?_congr fun e _ => ?_)
  exact congrArg (· == id) (Hold.id_turned Hold.lawful_drag held es e)

theorem lead?_turned (held : Entries (Point α)) (es : List (Element α))
    (starts : Entries (Point α)) : lead? (es.map (Hold.drag.turned held es)) starts
      = (lead? es starts).map fun lead => (Hold.drag.turned held es lead.1, lead.2) := by
  rw [lead?, lead?, List.map_findSome?]
  refine congrArg (List.findSome? · starts) (funext fun m => ?_)
  dsimp only [Function.comp_apply]
  rw [lastOf?_turned, Option.map_map, Option.map_map]
  rfl

omit [Scalar α] in
theorem mem_of_lead? {lead : Element α × Point α} (h : lead ∈ lead? es starts) :
    lead.1 ∈ es ∧ lead.1.id ∈ starts.keys := by
  obtain ⟨m, hm, hlead⟩ := List.exists_of_findSome?_eq_some h
  obtain ⟨e, he, rfl⟩ := Option.map_eq_some_iff.mp hlead
  have hid := List.find?_some he
  refine ⟨List.mem_reverse.mp (List.mem_of_find?_eq_some he), ?_⟩
  rw [show e.id = m.1 from beq_iff_eq.mp hid]
  exact List.mem_map_of_mem hm

theorem others_turned (held : Entries (Point α)) (es : List (Element α))
    (starts : Entries (Point α)) : others (es.map (Hold.drag.turned held es)) starts
      = (es.filter fun e => !Entries.has e.id starts).map
        fun e => (Hold.drag.turned held es e).frame := by
  rw [others, List.filter_map, List.map_map]
  refine congrArg _ (List.filter_congr fun e _ => ?_)
  rw [Function.comp_apply, Hold.id_turned Hold.lawful_drag]

include hheld

/-- What is dragged in two frames follows the pointer as if there had been one. -/
theorem carried_turned {lead : Element α × Point α} (h : lead ∈ lead? es starts) (dx dy : α) :
    carried (Hold.drag.turned held es lead.1, lead.2) dx dy = carried lead dx dy := by
  obtain ⟨p, hp⟩ := Entries.exists_get?_of_mem_keys (hheld ▸ (mem_of_lead? h).2)
  have hnone : Hold.drag.anew held es lead.1 = none := by
    rw [Hold.anew, Entries.has, hp]
    rfl
  rw [Hold.turned_of_not_anew hnone, hp]
  obtain ⟨e, start⟩ := lead
  cases e <;> rfl

/-- Where the first of the dragged elements snaps does not depend on earlier frames. -/
theorem offset_turned (h : Clear limit es starts dx dy)
    (h' : Clear limit (es.map (Hold.drag.turned held es)) starts dx dy) :
    offset limit (es.map (Hold.drag.turned held es)) starts dx dy
      = offset limit es starts dx dy := by
  rw [offset, offset, lead?_turned]
  cases hlead : lead? es starts with
  | none => rfl
  | some lead =>
    have hcarried := carried_turned hheld hlead dx dy
    have hsnapped : (carried lead dx dy).snapped limit
        ((es.filter fun e => !Entries.has e.id starts).map
          fun e => (Hold.drag.turned held es e).frame)
        = (carried lead dx dy).snapped limit (others es starts) := by
      refine Frame.snapped_map_congr fun e he => ?_
      obtain ⟨hmem, hfree⟩ := List.mem_filter.mp he
      rw [Bool.not_eq_true'] at hfree
      cases hr : e.rebinds starts.keys true with
      | false =>
        refine .inl (congrArg Element.frame (Hold.turned_eq_self Hold.lawful_drag ?_ ?_))
        · rw [Entries.has_congr hheld, hfree]
        · rw [hheld, hr]
      | true =>
        refine .inr ⟨fun hmeets => ?_, h lead hlead e hmem hfree hr⟩
        refine h' (Hold.drag.turned held es lead.1, lead.2) ?_ _ (List.mem_map_of_mem hmem) ?_ ?_
          (hcarried ▸ hmeets)
        · rw [lead?_turned, hlead]
          rfl
        · rw [Hold.id_turned Hold.lawful_drag, hfree]
        · rw [← hheld, Hold.rebinds_turned Hold.lawful_drag, hheld, hr]
    rw [Option.map_some]
    dsimp only
    rw [hcarried, others_turned, hsnapped]

end Turned

end Drag

section Resize

variable [Scalar α] {es : List (Element α)} {starts boxes : Entries (Box α)}

/-- A resize asks for what it means to hold elements in their boxes. -/
theorem resize_updates (es : List (Element α)) (starts : Entries (Box α)) (h : Handle) (dx dy : α)
    (keepRatio : Bool) (viewport : Option (Viewport α)) (reach : α) :
    (resize es starts h dx dy keepRatio viewport reach).map GestureFrame.updates
      = (resizedBoxes h dx dy keepRatio starts).map fun boxes => Hold.resize.updates boxes es := by
  unfold resize
  cases resizedBoxes h dx dy keepRatio starts with
  | error e => rfl
  | ok boxes =>
    -- no arrow is left out
    exact congrArg (fun batch => Except.ok (Batch.merge _ batch)) (List.filter_true _).symm

end Resize

end GestureFrame

end Whiteboard

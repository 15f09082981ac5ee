import Whiteboard.Proofs.Board.Range
import Whiteboard.Proofs.Gesture.Session
import Whiteboard.Proofs.Gesture.Snapping

/-!
# Where gestures lead

With exact numbers, the elements that a frame leaves depend on the pointer and on the elements as
they were when the gesture began, and not on frames that were drawn before (`Gesture.aims_of_aims`),
as long as the gesture is steady: resized arrows are bound at both ends or at none, no arrow is
bound to an arrow, and the dragged element does not come near an arrow that follows.
-/

namespace Whiteboard

section Scalars

variable {α : Type} [Scalar α]

/-- A box whose sides are not negative. -/
def Box.Valid (b : Box α) : Prop := 0 ≤ b.width ∧ 0 ≤ b.height

namespace Element

/-- Elements that can be changed: all are valid and nested no deeper than is read, and no two share
an id. -/
structure Orderly (es : List (Element α)) : Prop where
  valid : ∀ e ∈ es, e.Valid
  depth : ∀ e ∈ es, nesting e ≤ maxNesting
  distinct : (es.map Element.id).Nodup

theorem Orderly.map [LawfulScalar α] {es : List (Element α)}
    {changesOf : Element α → Option (Changes α)} {turn : Element α → Element α}
    (h : Orderly es) (hturn : ∀ e ∈ es, Turns changesOf turn e)
    (hfin : ∀ e ∈ es, (turn e).Finite) : Orderly (es.map turn) := by
  have hturned : ∀ e ∈ es, (turn e).Valid ∧ nesting (turn e) ≤ maxNesting ∧
      (turn e).id = e.id := by
    intro e he
    have hturn := hturn e he
    unfold Turns at hturn
    split at hturn
    · rw [hturn]
      exact ⟨h.valid e he, h.depth e he, rfl⟩
    · have happly := hturn .counting
      exact ⟨valid_of_apply happly (hfin e he), nesting_le_of_apply happly, id_of_apply happly⟩
  refine ⟨List.forall_mem_map.mpr fun e he => (hturned e he).1,
    List.forall_mem_map.mpr fun e he => (hturned e he).2.1, ?_⟩
  have hids : (es.map turn).map Element.id = es.map Element.id :=
    List.map_map.trans (List.map_congr_left fun e he => (hturned e he).2.2)
  exact hids ▸ h.distinct

end Element

/-- The elements that a frame would leave if it were drawn at once. -/
def Gesture.aims (g : Gesture α) (b : Board α) (dx dy : α) (keepRatio : Bool) :
    Except EditError (List (Element α)) :=
  (g.frame b dx dy keepRatio).map fun f => (b.updateAll f.updates false).2.elements

theorem Gesture.aims_eq (g : Gesture α) (b : Board α) (dx dy : α) (keepRatio : Bool) :
    g.aims b dx dy keepRatio
      = ((g.frame b dx dy keepRatio).map GestureFrame.updates).map
        fun batch => (b.updateAll batch false).2.elements := by
  rw [aims]
  cases g.frame b dx dy keepRatio <;> rfl

end Scalars

variable {α : Type} [Field α] [LinearOrder α] [FloorRing α] [Trigonometry α]

namespace Gesture

/-- The distance below which dragged elements snap. -/
def limit (b : Board α) : α := Guide.onBoard (some b.viewport) Guide.defaultReach

variable {g : Gesture α} {b : Board α}

/-- What a drag asks for. -/
theorem frame_drag (hg : g.handle = none)
    (hthere : ∀ id ∈ g.starts.keys, ∃ e ∈ b.elements, e.id = id) (dx dy : α) (keepRatio : Bool) :
    (g.frame b dx dy keepRatio).map GestureFrame.updates = .ok (Hold.drag.updates
      (GestureFrame.targets (limit b) b.elements g.places dx dy) b.elements) := by
  have hplaces : ∀ id ∈ g.places.keys, ∃ e ∈ b.elements, e.id = id :=
    Entries.keys_mapValues _ g.starts ▸ hthere
  rw [frame, hg]
  exact congrArg Except.ok (GestureFrame.drag_updates hplaces dx dy _ _)

/-- What a resize asks for, if it is not refused. -/
theorem frame_resize {handle : Handle} (hg : g.handle = some handle) (dx dy : α)
    (keepRatio : Bool) : (g.frame b dx dy keepRatio).map GestureFrame.updates
      = (GestureFrame.resizedBoxes handle dx dy keepRatio g.starts).map fun boxes =>
        Hold.resize.updates boxes b.elements := by
  rw [frame, hg]
  exact GestureFrame.resize_updates ..

end Gesture

/-- A resized side that is zero was zero before. -/
theorem eq_zero_of_extent {side old : α} (h : side = old ∨ Scalar.ofNat 0 < side)
    (hside : side = 0) : old = 0 := by
  rcases h with rfl | hpos
  · exact hside
  · rw [hside, Scalar.ofNat] at hpos
    exact absurd hpos (by simp [Scalar.ofInt])

variable [IsStrictOrderedRing α] {b b' : Board α}

/-- A batch that all elements take is taken, and nothing but the elements changes. -/
theorem Board.updateAll_of_turns {batch : Batch α} {turn : Element α → Element α}
    (h : ∀ e ∈ b.elements, Element.Turns batch.changesOf turn e) :
    (b.updateAll batch false).1 = .ok () ∧
      (b.updateAll batch false).2.document
        = { b.document with elements := b.elements.map turn } := by
  unfold updateAll
  split
  · next hempty =>
    obtain rfl := List.isEmpty_iff.mp hempty
    have hstay : b.elements.map turn = b.elements :=
      (List.map_congr_left h).trans (List.map_id _)
    rw [hstay]
    exact ⟨rfl, rfl⟩
  · unfold applyBatch
    rw [Element.applyEach_eq_map h]
    exact ⟨rfl, document_changed (finite_of_exact _)⟩

namespace Gesture

variable {g : Gesture α} {dx dy : α} {keepRatio : Bool}

theorem turns_drag {es : List (Element α)} (h : Element.Orderly es) (held : Entries (Point α)) :
    ∀ e ∈ es, Element.Turns (Hold.drag.updates held es).changesOf (Hold.drag.turned held es) e :=
  Hold.turns_updates Hold.lawful_drag h.distinct h.valid fun e he p _ =>
    Element.apply_positionChanges (h.valid e he) (h.depth e he) p

theorem turns_resize {es : List (Element α)} (h : Element.Orderly es) {held : Entries (Box α)}
    (hheld : ∀ m ∈ held, m.2.Valid) :
    ∀ e ∈ es, Element.Turns (Hold.resize.updates held es).changesOf
      (Hold.resize.turned held es) e :=
  Hold.turns_updates Hold.lawful_resize h.distinct h.valid fun e he _ hv =>
    Element.apply_boxChanges (h.valid e he) (h.depth e he) (hheld _ (Entries.mem_of_get? hv)).1
      (hheld _ (Entries.mem_of_get? hv)).2

/-- A drag leads to where the elements are dragged. -/
theorem aims_drag (hg : g.handle = none) (h : Element.Orderly b.elements)
    (hthere : ∀ id ∈ g.starts.keys, ∃ e ∈ b.elements, e.id = id) (dx dy : α) (keepRatio : Bool) :
    g.aims b dx dy keepRatio = .ok (b.elements.map (Hold.drag.turned
      (GestureFrame.targets (limit b) b.elements g.places dx dy) b.elements)) := by
  have hturned := (Board.updateAll_of_turns (turns_drag h
    (GestureFrame.targets (limit b) b.elements g.places dx dy))).2
  rw [aims_eq, frame_drag hg hthere]
  exact congrArg (fun d => Except.ok (Document.elements d)) hturned

/-- A resize leads to the boxes that the handle drags, or is refused. -/
theorem aims_resize {handle : Handle} (hg : g.handle = some handle)
    (h : Element.Orderly b.elements) (hsides : ∀ m ∈ g.starts, m.2.Valid) (dx dy : α)
    (keepRatio : Bool) : g.aims b dx dy keepRatio
      = (GestureFrame.resizedBoxes handle dx dy keepRatio g.starts).map fun boxes =>
        b.elements.map (Hold.resize.turned boxes b.elements) := by
  rw [aims_eq, frame_resize hg]
  cases hboxes : GestureFrame.resizedBoxes handle dx dy keepRatio g.starts with
  | error e => rfl
  | ok boxes =>
    have hturned := (Board.updateAll_of_turns (turns_resize h
      (GestureFrame.sides_of_resizedBoxes hsides hboxes))).2
    exact congrArg (fun d => Except.ok (Document.elements d)) hturned

/-- What a frame asks for is taken. -/
theorem accepted_of_frame (h : Element.Orderly b.elements) (hsides : ∀ m ∈ g.starts, m.2.Valid)
    (hthere : ∀ id ∈ g.starts.keys, ∃ e ∈ b.elements, e.id = id) {f : GestureFrame α}
    (hf : g.frame b dx dy keepRatio = .ok f) : (b.updateAll f.updates false).1 = .ok () := by
  have hupdates := congrArg (Except.map GestureFrame.updates) hf
  cases hhandle : g.handle with
  | none =>
    rw [frame_drag hhandle hthere, Except.map, Except.ok.injEq] at hupdates
    rw [← hupdates]
    exact (Board.updateAll_of_turns (turns_drag h _)).1
  | some handle =>
    rw [frame_resize hhandle] at hupdates
    cases hboxes : GestureFrame.resizedBoxes handle dx dy keepRatio g.starts with
    | error e =>
      rw [hboxes] at hupdates
      contradiction
    | ok boxes =>
      rw [hboxes, Except.map, Except.map, Except.ok.injEq] at hupdates
      rw [← hupdates]
      exact (Board.updateAll_of_turns (turns_resize h
        (GestureFrame.sides_of_resizedBoxes hsides hboxes))).1

/-- A gesture on elements that can be changed, which were where it began. -/
structure Steady (g : Gesture α) (b : Board α) : Prop where
  orderly : Element.Orderly b.elements
  spare : Element.SparesArrows b.elements
  sides : ∀ m ∈ g.starts, m.2.Valid
  there : ∀ id ∈ g.starts.keys, ∃ e ∈ b.elements, e.id = id
  boxes : ∀ e ∈ b.elements, ∀ box, Entries.get? e.id g.starts = some box → box = e.frame.box
  resized : g.handle.isSome = true → ∀ e ∈ b.elements, Entries.has e.id g.starts = true →
    if e.rebinds g.starts.keys true then e.Hangs b.elements else e.Scalable

/-- The dragged element does not come near the arrows that follow. -/
def Clear (g : Gesture α) (b : Board α) (es : List (Element α)) (dx dy : α) : Prop :=
  g.handle = none → GestureFrame.Clear (limit b) es g.places dx dy

variable {dx' dy' : α} {keepRatio' : Bool} {es : List (Element α)}

theorem forgets_resize (hg : Steady g b) {handle : Handle} (hhandle : g.handle = some handle)
    {boxes boxes' : Entries (Box α)}
    (hboxes : GestureFrame.resizedBoxes handle dx dy keepRatio g.starts = .ok boxes)
    (hboxes' : GestureFrame.resizedBoxes handle dx' dy' keepRatio' g.starts = .ok boxes') :
    Hold.resize.Forgets boxes boxes' b.elements := by
  have hkeys := (GestureFrame.alike_of_resizedBoxes hboxes).keys_eq
  have hkeys' := (GestureFrame.alike_of_resizedBoxes hboxes').keys_eq
  have hstarts (e : Element α) : Entries.has e.id boxes = Entries.has e.id g.starts :=
    Entries.has_congr hkeys e.id
  refine ⟨hkeys'.trans hkeys.symm, fun e he box box' hbox _ hr => ?_, fun _ e he hheld hr => ?_⟩
  · have hheld : Entries.has e.id boxes = true := by rw [Entries.has, hbox]; rfl
    have hresized := hg.resized (by rw [hhandle]; rfl) e he (hstarts e ▸ hheld)
    rw [← hkeys, show e.rebinds boxes.keys true = false from hr, if_neg Bool.false_ne_true]
      at hresized
    obtain ⟨start, hstart, hbox⟩ := (GestureFrame.alike_of_resizedBoxes hboxes).exists_get? hbox
    obtain ⟨hwidth, hheight⟩ := GestureFrame.extent_of_resize? hbox
    obtain rfl := hg.boxes e he start hstart
    exact Element.fitted_fitted hresized (eq_zero_of_extent hwidth) (eq_zero_of_extent hheight) box'
  · have hresized := hg.resized (by rw [hhandle]; rfl) e he (hstarts e ▸ hheld)
    rwa [← hkeys, hr, if_pos rfl] at hresized

/-- A frame leaves elements that can be changed. -/
theorem orderly_of_aims (hg : Steady g b) (haims : g.aims b dx dy keepRatio = .ok es) :
    Element.Orderly es ∧ ∀ id ∈ g.starts.keys, ∃ e ∈ es, e.id = id := by
  have hmap {turn : Element α → Element α} (hid : ∀ e, (turn e).id = e.id) :
      ∀ id ∈ g.starts.keys, ∃ e ∈ b.elements.map turn, e.id = id := by
    intro id hmem
    obtain ⟨e, he, rfl⟩ := hg.there id hmem
    exact ⟨_, List.mem_map_of_mem he, hid e⟩
  cases hhandle : g.handle with
  | none =>
    rw [aims_drag hhandle hg.orderly hg.there, Except.ok.injEq] at haims
    subst haims
    exact ⟨hg.orderly.map (turns_drag hg.orderly _) fun _ _ _ _ => rfl,
      hmap (Hold.id_turned Hold.lawful_drag _ _)⟩
  | some handle =>
    rw [aims_resize hhandle hg.orderly hg.sides] at haims
    cases hboxes : GestureFrame.resizedBoxes handle dx dy keepRatio g.starts with
    | error e =>
      rw [hboxes] at haims
      contradiction
    | ok boxes =>
      rw [hboxes, Except.map, Except.ok.injEq] at haims
      subst haims
      exact ⟨hg.orderly.map (turns_resize hg.orderly
        (GestureFrame.sides_of_resizedBoxes hg.sides hboxes)) fun _ _ _ _ => rfl,
        hmap (Hold.id_turned Hold.lawful_resize _ _)⟩

/-- Where a gesture leads depends on the elements and on the viewport alone. -/
theorem aims_congr (hg : Steady g b) (hb : b'.elements = b.elements)
    (hview : b'.viewport = b.viewport) :
    g.aims b' dx dy keepRatio = g.aims b dx dy keepRatio := by
  have horderly := hb ▸ hg.orderly
  cases hhandle : g.handle with
  | none =>
    rw [aims_drag hhandle horderly (hb ▸ hg.there), aims_drag hhandle hg.orderly hg.there, hb,
      limit, hview, limit]
  | some handle =>
    rw [aims_resize hhandle horderly hg.sides, aims_resize hhandle hg.orderly hg.sides, hb]

/-- A drag that comes after another frame. -/
theorem aims_drag_of_aims (hg : Steady g b) (hhandle : g.handle = none)
    (haims : g.aims b dx dy keepRatio = .ok es) (hb : b'.elements = es)
    (hview : b'.viewport = b.viewport)
    (hclear : GestureFrame.Clear (limit b) b.elements g.places dx' dy')
    (hclear' : GestureFrame.Clear (limit b) es g.places dx' dy') :
    g.aims b' dx' dy' keepRatio' = g.aims b dx' dy' keepRatio' := by
  have hlimit : limit b' = limit b := by rw [limit, hview, limit]
  obtain ⟨horderly, hthere⟩ := hb ▸ orderly_of_aims hg haims
  rw [aims_drag hhandle hg.orderly hg.there, Except.ok.injEq] at haims
  subst haims
  have htargets : GestureFrame.targets (limit b') b'.elements g.places dx' dy'
      = GestureFrame.targets (limit b) b.elements g.places dx' dy' := by
    rw [GestureFrame.targets, hlimit, hb,
      GestureFrame.offset_turned GestureFrame.keys_targets hclear hclear']
    rfl
  rw [aims_drag hhandle horderly hthere, aims_drag hhandle hg.orderly hg.there, htargets, hb,
    List.map_map]
  refine congrArg Except.ok (List.map_congr_left fun e he => ?_)
  exact Hold.turned_turned Hold.lawful_drag
    (Hold.forgets_drag (GestureFrame.keys_targets.trans GestureFrame.keys_targets.symm) _)
    hg.spare he

/-- A resize that comes after another frame. -/
theorem aims_resize_of_aims (hg : Steady g b) {handle : Handle} (hhandle : g.handle = some handle)
    (haims : g.aims b dx dy keepRatio = .ok es) (hb : b'.elements = es) :
    g.aims b' dx' dy' keepRatio' = g.aims b dx' dy' keepRatio' := by
  have horderly := hb ▸ (orderly_of_aims hg haims).1
  rw [aims_resize hhandle hg.orderly hg.sides] at haims
  cases hboxes : GestureFrame.resizedBoxes handle dx dy keepRatio g.starts with
  | error e =>
    rw [hboxes] at haims
    contradiction
  | ok boxes =>
    rw [hboxes, Except.map, Except.ok.injEq] at haims
    subst haims
    rw [aims_resize hhandle horderly hg.sides, aims_resize hhandle hg.orderly hg.sides]
    cases hboxes' : GestureFrame.resizedBoxes handle dx' dy' keepRatio' g.starts with
    | error e => rfl
    | ok boxes' =>
      rw [Except.map, Except.map, hb, List.map_map]
      refine congrArg Except.ok (List.map_congr_left fun e he => ?_)
      exact Hold.turned_turned Hold.lawful_resize (forgets_resize hg hhandle hboxes hboxes')
        hg.spare he

/-- Where a gesture leads does not depend on a frame that was drawn before. -/
theorem aims_of_aims (hg : Steady g b) (haims : g.aims b dx dy keepRatio = .ok es)
    (hb : b'.elements = es) (hview : b'.viewport = b.viewport)
    (hclear : g.Clear b b.elements dx' dy') (hclear' : g.Clear b es dx' dy') :
    g.aims b' dx' dy' keepRatio' = g.aims b dx' dy' keepRatio' := by
  cases hhandle : g.handle with
  | none => exact aims_drag_of_aims hg hhandle haims hb hview (hclear hhandle) (hclear' hhandle)
  | some handle => exact aims_resize_of_aims hg hhandle haims hb

end Gesture

end Whiteboard

import Whiteboard.Gesture.Session
import Whiteboard.Proofs.Board.Batch
import Whiteboard.Proofs.Board.Record
import Whiteboard.Proofs.Gesture.Frames

/-!
# Gestures on a board

A gesture is one batch (`Gesture.Tracks`). Hence, like every batch, it is at most one step of the
history, and releasing it never fails (`Board.oneStep_of_reachable`).
-/

namespace Whiteboard

variable {α : Type} [Scalar α]

/-- The numbers of what waits for the next frame are finite. -/
def FrameSlot.Finite (s : FrameSlot α) : Prop :=
  ∀ batch ∈ s.pending, ∀ m ∈ batch, Changes.Finite m.2

instance (s : FrameSlot α) : Decidable s.Finite :=
  inferInstanceAs (Decidable (∀ batch ∈ s.pending, ∀ m ∈ batch, ∀ x ∈ Json.memberNumbers m.2,
    Scalar.isFinite x = true))

namespace Gesture

/-- What becomes of a gesture and its board by moves of the pointer and by frames, none of which
fails, as long as the numbers stay finite. -/
inductive Handled (g₀ : Gesture α) (b₀ : Board α) : Gesture α → Board α → Prop where
  | start : Handled g₀ b₀ g₀ b₀
  | move {g g' : Gesture α} {b b' : Board α} {p : Point α} {keepRatio live : Bool} :
      Handled g₀ b₀ g b → g.move p keepRatio b = (.ok live, g', b') → g'.slot.Finite →
      Handled g₀ b₀ g' b'
  | tick {g g' : Gesture α} {b b' : Board α} {applied : Bool} : Handled g₀ b₀ g b →
      g.tick b = (.ok applied, g', b') → b'.document.Finite → Handled g₀ b₀ g' b'

/-- A gesture that began on a board is one batch of edits of that board. -/
structure Tracks (b₀ : Board α) (g : Gesture α) (b : Board α) : Prop where
  idle : g.live = false → b = b₀ ∧ g.slot.pending = none
  live : g.live = true → Board.Within Document.Finite b₀.beginBatch b
  writable : b.document.Writable
  places : ∀ batch ∈ g.slot.pending, ∀ m ∈ batch, Changes.Places m.2
  sides : ∀ m ∈ g.starts, 0 ≤ m.2.width ∧ 0 ≤ m.2.height

end Gesture

/-- What waits for the next frame is not refused. -/
theorem Board.updateAll_of_places {b : Board α} (h : b.Sound) (hb : b.batching = true)
    (hw : b.document.Writable) {batch : Batch α} (hp : ∀ m ∈ batch, Changes.Places m.2) :
    ∃ c, b.updateAll batch false = (.ok (), c) ∧ c.document.Writable := by
  have hnesting := Element.nestingOf_le_iff.mp hw
  have hnone : (Element.applyEach batch.changesOf b.ids b.elements).1 = none :=
    Element.applyEach_of_places (fun e he _ hch => ⟨h.document.elements e he, hnesting e he,
      hp _ (Entries.mem_of_get? hch)⟩) b.ids
  have hkept : ∀ e ∈ (Element.applyEach batch.changesOf b.ids b.elements).2.1,
      Element.nesting e ≤ Element.maxNesting :=
    Element.nesting_le_of_applyEach hnesting b.ids
  unfold Board.updateAll
  split
  · exact ⟨b, rfl, hw⟩
  · unfold Board.applyBatch
    generalize Element.applyEach batch.changesOf b.ids b.elements = applied at hnone hkept
    obtain ⟨failure, es, ids⟩ := applied
    cases hnone
    refine ⟨_, rfl, ?_⟩
    rw [Board.changed, Board.commit_of_batching (b := { b.withElements es with ids }) hb]
    exact Element.nestingOf_le_iff.mpr hkept

namespace Gesture

theorem sides_boxesOf {es : List (Element α)} (h : ∀ e ∈ es, e.Valid) (ids : List String) :
    ∀ m ∈ boxesOf es ids, 0 ≤ m.2.width ∧ 0 ≤ m.2.height := by
  intro m hm
  have hm : m ∈ ids.filterMap fun id =>
      (GestureFrame.lastOf? es id).map fun e => (id, e.frame.box) :=
    (Entries.mem_of_mem_merge hm).resolve_right List.not_mem_nil
  obtain ⟨id, -, hid⟩ := List.mem_filterMap.mp hm
  obtain ⟨e, he, rfl⟩ := Option.map_eq_some_iff.mp hid
  have hframe := (h e (List.mem_reverse.mp (List.mem_of_find?_eq_some he))).frame
  exact ⟨hframe.width_nonneg, hframe.height_nonneg⟩

theorem tracks_start {b : Board α} (h : b.Sound) (hw : b.document.Writable) (origin : Point α)
    (ids : Option (List String)) (handle : Option Handle) (threshold : α) :
    Tracks b (start b origin ids handle threshold) b where
  idle _ := ⟨rfl, rfl⟩
  live := nofun
  writable := hw
  places := nofun
  sides := sides_boxesOf h.document.elements _

variable {b₀ b : Board α} {g : Gesture α}

/-- A frame is applied without fail, if something waits for it. -/
theorem Tracks.tick_eq (ht : Tracks b₀ g b) (h : b.Sound)
    (hbatch : g.live = true → b.batching = true) :
    ∃ applied c, g.tick b = (.ok applied, { g with slot := .empty }, c) ∧ c.document.Writable ∧
      (c = b ∨ g.live = true ∧ ∃ batch, c = (b.perform (.updateAll batch false)).2) := by
  cases hpending : g.slot.pending with
  | none =>
    refine ⟨false, b, ?_, ht.writable, .inl rfl⟩
    simp only [tick, FrameSlot.take, hpending]
  | some batch =>
    have hlive : g.live = true := by
      cases hl : g.live with
      | true => rfl
      | false =>
        have hnone := (ht.idle hl).2
        rw [hpending] at hnone
        contradiction
    obtain ⟨c, hc, hw⟩ :=
      Board.updateAll_of_places h (hbatch hlive) ht.writable (ht.places batch hpending)
    have hperform : c = (b.perform (.updateAll batch false)).2 := by
      rw [Board.perform, hc]
      rfl
    cases batch with
    | nil =>
      refine ⟨false, b, ?_, ht.writable, .inl rfl⟩
      simp only [tick, FrameSlot.take, hpending]
    | cons m rest =>
      refine ⟨true, c, ?_, hw, .inr ⟨hlive, m :: rest, hperform⟩⟩
      simp only [tick, FrameSlot.take, hpending, hc]

theorem Tracks.batching (ht : Tracks b₀ g b) (hl : g.live = true) : b.batching = true :=
  ((ht.live hl).unrecorded rfl).batching

variable [LawfulScalar α]

theorem Tracks.sound (ht : Tracks b₀ g b) (h : b₀.Sound) : b.Sound := by
  cases hl : g.live with
  | true => exact (ht.live hl).sound h.beginBatch
  | false => exact (ht.idle hl).1 ▸ h

/-- A frame of a gesture is one more edit within its batch. -/
theorem Tracks.tick (ht : Tracks b₀ g b) (h : b₀.Sound) {g' : Gesture α} {b' : Board α}
    {applied : Bool} (hg : g.tick b = (.ok applied, g', b')) (hfin : b'.document.Finite) :
    Tracks b₀ g' b' := by
  obtain ⟨applied', c, hc, hw, hcases⟩ := ht.tick_eq (ht.sound h) ht.batching
  rw [hc] at hg
  cases hg
  have hslot : ∀ batch ∈ (FrameSlot.empty : FrameSlot α).pending, ∀ m ∈ batch,
      Changes.Places m.2 := nofun
  rcases hcases with rfl | ⟨hl, batch, rfl⟩
  · exact ⟨fun hidle => ⟨(ht.idle hidle).1, rfl⟩, ht.live, hw, hslot, ht.sides⟩
  · refine ⟨fun hidle => ?_, fun _ => (ht.live hl).step rfl trivial hfin, hw, hslot, ht.sides⟩
    rw [show g.live = false from hidle] at hl
    contradiction

theorem Tracks.proper_frame (ht : Tracks b₀ g b) {dx dy : α} {keepRatio : Bool}
    {f : GestureFrame α} {c : Board α} (hf : g.frame c dx dy keepRatio = .ok f) :
    f.updates.Proper := by
  unfold frame at hf
  split at hf
  · cases hf
    exact GestureFrame.proper_drag (α := α) _ _ _ _ _ _
  · exact GestureFrame.proper_resize ht.sides hf

/-- A move of the pointer opens the batch of the gesture, or changes what waits. -/
theorem Tracks.move (ht : Tracks b₀ g b) (h : b₀.Sound) (hb₀ : b₀.batching = false)
    {g' : Gesture α} {b' : Board α} {p : Point α} {keepRatio live : Bool}
    (hg : g.move p keepRatio b = (.ok live, g', b')) (hfin : g'.slot.Finite) :
    Tracks b₀ g' b' := by
  unfold Gesture.move at hg
  dsimp only at hg
  split at hg
  · cases hg
    exact ht
  · split at hg
    · cases hg
    · next f hf =>
      cases hg
      have hplaces : ∀ batch ∈ (FrameSlot.submit g.slot f.updates).pending, ∀ m ∈ batch,
          Changes.Places m.2 := by
        rintro _ ⟨⟩ m hm
        exact ht.proper_frame hf m hm (hfin f.updates rfl m hm)
      cases hl : g.live with
      | true => exact ⟨nofun, fun _ => ht.live hl, ht.writable, hplaces, ht.sides⟩
      | false =>
        obtain ⟨rfl, -⟩ := ht.idle hl
        refine ⟨nofun, fun _ => .refl, ?_, hplaces, ht.sides⟩
        rw [if_neg Bool.false_ne_true, h.beginBatch_eq hb₀]
        exact ht.writable

theorem tracks_of_handled {g₀ : Gesture α} (h : Handled g₀ b₀ g b) (hg₀ : Tracks b₀ g₀ b₀)
    (hb : b₀.Sound) (hb₀ : b₀.batching = false) : Tracks b₀ g b := by
  induction h with
  | start => exact hg₀
  | move _ hg hfin ih => exact ih.move hb hb₀ hg hfin
  | tick _ hg hfin ih => exact ih.tick hb hg hfin

/-- What a release does to a board that looked like `b₀` before the gesture. -/
structure Closes (b₀ : Board α) (g : Gesture α) (o : Except EditError Unit × Gesture α × Board α) :
    Prop where
  accepted : o.1 = .ok ()
  closed : o.2.2.batching = false
  /-- The gesture never went live, or the document is the same, or a step back restores it. -/
  restored : g.live = false ∧ o.2.2 = b₀ ∨ (o.2.2.document == b₀.document) = true ∨
    ∃ u, o.2.2.undo = (.ok true, u) ∧ (u.document == b₀.document) = true

theorem Tracks.closes (ht : Tracks b₀ g b) (h : b₀.Sound) (hb₀ : b₀.batching = false)
    (hw : b₀.document.Writable) (hlimit : 2 ≤ b₀.history.limit)
    (hfin : (g.release b).2.2.document.Finite) : Closes b₀ g (g.release b) := by
  obtain ⟨applied, c, hc, -, hcases⟩ := ht.tick_eq (ht.sound h) ht.batching
  have hrelease : g.release b = (.ok (), { g with guides := [], live := false, slot := .empty },
      if g.live then c.endBatch else c) := by
    simp only [release, hc]
  rw [hrelease] at hfin ⊢
  cases hl : g.live with
  | false =>
    have hsame : c = b₀ := by
      rcases hcases with rfl | ⟨hlive, -⟩
      · exact (ht.idle hl).1
      · rw [hl] at hlive
        contradiction
    subst hsame
    exact ⟨rfl, hb₀, .inl ⟨hl, rfl⟩⟩
  | true =>
    rw [hl, if_pos rfl] at hfin
    have hdocument : c.document.Finite := Document.Finite.of_settled hfin
    have hwithin : Board.Within Document.Finite b₀.beginBatch c := by
      rcases hcases with rfl | ⟨-, batch, rfl⟩
      · exact ht.live hl
      · exact (ht.live hl).step rfl trivial hdocument
    have hstep := h.oneStep rfl hlimit hb₀ hwithin
    refine ⟨rfl, hstep.closed, .inr ?_⟩
    cases heq : b₀.document == c.document with
    | true =>
      refine .inl ?_
      rw [if_pos rfl, (hwithin.sound h.beginBatch).endBatch_eq]
      exact BEq.symm heq
    | false =>
      obtain ⟨u, hu, hback, -⟩ := hstep.undone heq hw
      exact .inr ⟨u, hu, hback⟩

end Gesture

namespace Board

variable [LawfulScalar α] {limit : Int} {b : Board α}

/-- Outside a batch, every batch and every gesture is at most one step of the history. -/
theorem oneStep_of_reachable (h : Reachable limit b) (hl : 2 ≤ limit) (hb : b.batching = false) :
    (∀ c, Within Document.Finite b.beginBatch c → OneStep limit b c) ∧
      (b.document.Writable → ∀ origin ids handle threshold g c,
        Gesture.Handled (.start b origin ids handle threshold) b g c →
        (g.release c).2.2.document.Finite → Gesture.Closes b g (g.release c)) := by
  have hlimit : b.history.limit = limit := by
    rw [h.linear.limit_eq, if_neg (by omega)]
  refine ⟨fun c hc => h.sound.oneStep hlimit hl hb hc, fun hw origin ids handle threshold g c hg =>
    fun hfin => ?_⟩
  have htracks := Gesture.tracks_start h.sound hw origin ids handle threshold
  exact (Gesture.tracks_of_handled hg htracks h.sound hb).closes h.sound hb hw (hlimit ▸ hl) hfin

/-- A circle that is deleted in a batch comes back by one step, and so does one that is dragged. -/
theorem oneStep_of_reachable_circle :
    let b : Board Double :=
      Board.start .counting [.newShape "a" .circle { x := 10, y := 20 }] .initial 3
    let moved := (Gesture.start b ⟨0, 0⟩ (some ["a"]) none 5).move ⟨30, 40⟩ true b
    (∃ u, (b.beginBatch.delete ["a"]).endBatch.undo = (.ok true, u) ∧
      (u.document == b.document) = true) ∧
      Gesture.Closes b moved.2.1 (moved.2.1.release moved.2.2) := by
  intro b moved
  have hb : Reachable 3 b :=
    .start (List.forall_mem_singleton.mpr (Element.valid_newShape ..)) (by decide +kernel)
      (by decide +kernel)
  obtain ⟨hbatch, hgesture⟩ := oneStep_of_reachable hb (by decide) (by decide +kernel)
  have hdeleted : Within Document.Finite b.beginBatch (b.beginBatch.delete ["a"]) :=
    .step (e := .delete ["a"]) .refl rfl trivial (by decide +kernel)
  obtain ⟨u, hu, hback, -⟩ := (hbatch _ hdeleted).undone (by decide +kernel) (by decide +kernel)
  obtain ⟨live, hmoved⟩ := eq_ok_of_toBool (o := moved) (by decide +kernel)
  exact ⟨⟨u, hu, hback⟩, hgesture (by decide +kernel) _ _ _ _ _ _
    (.move .start hmoved (by decide +kernel)) (by decide +kernel)⟩

/-- Where a width is no number, the board of before the batch does not come back. -/
theorem not_oneStep_dissolved :
    let c := (dissolved.beginBatch.perform (.view [("x", .num 5)])).2
    Accepted (fun _ => True) 50 dissolved ∧ dissolved.batching = false ∧
      (∃ y, dissolved.beginBatch.perform (.view [("x", .num 5)]) = (.ok y, c)) ∧
      (dissolved.document == c.document) = false ∧ ¬ ∃ u, c.endBatch.undo = (.ok true, u) := by
  have haccepted := accepted_dissolved
  have hbatching : dissolved.batching = false := by decide +kernel
  have hview : (dissolved.beginBatch.perform (.view [("x", .num 5)])).1.toBool = true := by
    decide +kernel
  have hchanged : (dissolved.document
      == (dissolved.beginBatch.perform (.view [("x", .num 5)])).2.document) = false := by
    decide +kernel
  have hundo : (dissolved.beginBatch.perform (.view [("x", .num 5)])).2.endBatch.undo.1.toBool
      = false := by
    decide +kernel
  generalize dissolved = b at *
  refine ⟨haccepted, hbatching, eq_ok_of_toBool hview, hchanged, fun ⟨u, hu⟩ => ?_⟩
  rw [hu] at hundo
  contradiction

end Board

end Whiteboard

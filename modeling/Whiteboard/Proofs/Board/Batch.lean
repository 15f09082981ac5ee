import Whiteboard.Proofs.Board.Reachable

/-!
# Batches

Whatever is done within a batch becomes one step of the history, or none if the document is the same
at the end (`Board.Sound.oneStep`).
-/

namespace Whiteboard

namespace Board

variable {α : Type} [Scalar α]

/-- The boards that come of a board by plain edits, refused ones included, as long as the documents
have a property. -/
inductive Within (P : Document α → Prop) (b : Board α) : Board α → Prop where
  | refl : Within P b b
  | step {c : Board α} {e : Edit α} : Within P b c → e.isPlain = true → e.Valid →
      P (c.perform e).2.document → Within P b (c.perform e).2

/-- What closing a batch does to the history, the batch having been opened on `b` and led to `c`. -/
structure OneStep (limit : Int) (b c : Board α) : Prop where
  closed : c.endBatch.batching = false
  unchanged : (b.document == c.document) = true →
    c.endBatch.history.undoStack = b.beginBatch.history.undoStack
  /-- One state is added, and at most the oldest goes. -/
  added : (b.document == c.document) = false →
    c.endBatch.history.undoStack =
      History.capped limit (b.beginBatch.history.undoStack ++ [c.document])
  undone : (b.document == c.document) = false → b.document.Writable →
    ∃ u, c.endBatch.undo = (.ok true, u) ∧ (u.document == b.document) = true ∧
      (c.document.Writable → ∃ r, u.redo = (.ok true, r) ∧ r.document = c.document)

variable {b c : Board α}

/-- While a batch is open, nothing is recorded. -/
theorem unrecorded_perform (hb : c.batching = true) {e : Edit α} (he : e.isPlain = true) :
    Unrecorded c (c.perform e).2 := by
  have heffect := c.effect_perform he
  generalize c.perform e = o at heffect
  cases heffect with
  | idle hu _ _ => exact hu
  | refused hu => exact hu
  | @done d _ hu =>
    rw [Board.changed, commit_of_batching (hu.batching.trans hb)]
    exact ⟨hu.history, hu.batching⟩

theorem Within.unrecorded {P : Document α → Prop} (h : Within P b c) (hb : b.batching = true) :
    Unrecorded b c := by
  induction h with
  | refl => exact .refl b
  | step _ he _ _ ih => exact ih.trans (unrecorded_perform (ih.batching.trans hb) he)

variable [LawfulScalar α]

theorem Within.sound (h : Within Document.Finite b c) (hb : b.Sound) : c.Sound := by
  induction h with
  | refl => exact hb
  | step _ _ he hfin ih => exact ih.perform he hfin

theorem Sound.beginBatch_eq (h : b.Sound) (hb : b.batching = false) :
    b.beginBatch = { b with history := b.history.commit b.document, batching := true } := by
  rw [beginBatch, h.commit_eq hb]

theorem Sound.beginBatch (h : b.Sound) : b.beginBatch.Sound := h.commit.withBatching true

theorem Sound.endBatch_eq (h : c.Sound) :
    c.endBatch = { c with history := c.history.commit c.document, batching := false } :=
  (h.withBatching false).commit_eq rfl

theorem Sound.endBatch (h : c.Sound) : c.endBatch.Sound := (h.withBatching false).commit

/-- What is done within a batch is one step of the history. -/
theorem Sound.oneStep (h : b.Sound) {limit : Int} (hlimit : b.history.limit = limit)
    (hl : 2 ≤ limit) (hb : b.batching = false) (hc : Within Document.Finite b.beginBatch c) :
    OneStep limit b c := by
  have hcsound := hc.sound h.beginBatch
  have hhistory : c.history = b.history.commit b.document := by
    rw [(hc.unrecorded rfl).history, h.beginBatch_eq hb]
  have htop : ((b.history.commit b.document).current == b.document) = true :=
    b.history.current_commit h.finite.beq_self
  have hcompare : ((b.history.commit b.document).current == c.document)
      = (b.document == c.document) := BEq.congr_left htop
  have hlimit' : (b.history.commit b.document).limit = limit :=
    (b.history.limit_commit b.document).trans hlimit
  have hend := hcsound.endBatch_eq
  rw [hhistory] at hend
  have hstack : c.endBatch.history.undoStack =
      if b.document == c.document then b.beginBatch.history.undoStack
      else History.capped limit (b.beginBatch.history.undoStack ++ [c.document]) := by
    rw [hend, h.beginBatch_eq hb, ← hcompare, ← hlimit']
    exact History.undoStack_commit _ c.document
  refine ⟨by rw [hend], fun heq => ?_, fun hne => ?_, fun hne hw => ?_⟩
  · rw [hstack, heq, if_pos rfl]
  · rw [hstack, hne, if_neg Bool.false_ne_true]
  · have hpush : c.endBatch.history = (b.history.commit b.document).push c.document := by
      rw [hend, History.commit, hcompare, hne, if_neg Bool.false_ne_true]
    have hwritable : (b.history.commit b.document).current.Writable := by
      unfold Document.Writable
      rw [(Document.ShowsSame.of_beq htop).nesting_eq]
      exact hw
    obtain ⟨u, hu, hdocument, hforth⟩ :=
      hcsound.endBatch.undo_of_push hpush (hlimit'.symm ▸ hl) hwritable
    refine ⟨u, hu, hdocument ▸ htop, fun hw' => ?_⟩
    have husound : u.Sound := by
      have : (c.endBatch.travel History.undo?).2.Sound :=
        hcsound.endBatch.travel fun r hr => History.timeline_of_undo? hr
      rwa [show c.endBatch.travel History.undo? = _ from hu] at this
    have hcurrent : c.endBatch.history.current = c.document := by rw [hpush]; rfl
    exact ⟨_, husound.travel_of_writable hforth (History.timeline_of_redo? hforth)
      (hcurrent.symm ▸ hw'), hcurrent⟩

end Board

end Whiteboard

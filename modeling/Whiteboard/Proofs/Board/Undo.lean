import Whiteboard.Proofs.Board.Reachable
import Whiteboard.Proofs.Scalar.Double

/-!
# Undoing and redoing

The history of every reachable board is a line of documents with a cursor
(`Board.lined_of_reachable`): undoing and redoing move the cursor and leave the line alone, and
commits cut off what lies after the cursor, also those with which batches begin and end.
-/

namespace Whiteboard

namespace Board

variable {α : Type}

/-- Goes through the history several times, as long as there is something to go to. -/
def travels? (move : Board α → Outcome α Bool) : Nat → Board α → Option (Board α)
  | 0, b => some b
  | k + 1, b =>
    match move b with
    | (.ok true, c) => travels? move k c
    | _ => none

theorem travels?_succ {move : Board α → Outcome α Bool} {k : Nat} {b c d : Board α}
    (h : travels? move k b = some c) (hm : move c = (.ok true, d)) :
    travels? move (k + 1) b = some d := by
  induction k generalizing b with
  | zero =>
    cases h
    simp only [travels?, hm]
  | succ k ih =>
    rw [travels?] at h ⊢
    split at h
    · next b' hb' => exact ih h
    · contradiction

variable [Scalar α]

/-- The cursor moved along the history of a board to a depth. The board took over what stands there,
unless its groups are nested too deep to be read. -/
structure Traveled (b : Board α) (depth : Nat) (o : Outcome α Bool) : Prop where
  timeline_eq : o.2.history.timeline = b.history.timeline
  depth_eq : o.2.history.depth = depth
  document_eq : o.2.history.current.Writable →
    o.1 = .ok true ∧ o.2.document = o.2.history.current

/-- A document was committed to a history: what lay after the cursor is cut off, only what differs
from the top is added, and only the oldest state goes. -/
structure Committed (limit : Int) (h : History (Document α)) (d : Document α)
    (h' : History (Document α)) : Prop where
  redoStack_eq : h'.redoStack = []
  undoStack_eq : h'.undoStack =
    if h.current == d then h.undoStack else History.capped limit (h.undoStack ++ [d])

/-- A board whose history is a line of documents with a cursor. -/
structure Lined (limit : Int) (b : Board α) : Prop where
  undoStack_ne_nil : b.history.undoStack ≠ []
  length_le : ((b.history.undoStack ++ b.history.redoStack.reverse).length : Int) ≤ max 1 limit
  distinct : (b.history.undoStack ++ b.history.redoStack.reverse).IsChain
    fun s t => (s == t) = false
  undo : 1 < b.history.undoStack.length → Traveled b (b.history.depth - 1) b.undo
  undo_first : b.history.undoStack.length = 1 → b.undo = (.ok false, b)
  redo : b.history.redoStack ≠ [] → Traveled b (b.history.depth + 1) b.redo
  redo_last : b.history.redoStack = [] → b.redo = (.ok false, b)
  reset : ∀ d : Document α, d.Finite → (b.load d true).history.timeline = [d]
  commit : ∀ d : Document α, d.Finite → b.batching = false →
    Committed limit b.history d (Board.commit { b with document := d }).history
  /-- Plain edits do nothing else to the history than to commit what came of them. -/
  plain : ∀ e : Edit α, e.isPlain = true → (b.perform e).2.document.Finite →
    (b.perform e).2.history = b.history ∨ b.batching = false ∧
      (b.perform e).2.history =
        (Board.commit { b with document := (b.perform e).2.document }).history
  /-- A batch begins with a commit of the document as it was, but not within another batch. -/
  beginBatch :
    if b.batching then b.beginBatch.history = b.history
    else Committed limit b.history b.document b.beginBatch.history
  /-- A batch ends with a commit of what came of it. -/
  endBatch : Committed limit b.history b.document b.endBatch.history
  /-- Steps back that all succeed can be taken forth again. -/
  back_and_forth : ∀ (k : Nat) (c : Board α), travels? Board.undo k b = some c →
    b.history.current.Writable → ∃ d, travels? Board.redo k c = some d ∧ d.history = b.history

variable {b : Board α}

/-- A move of the cursor of a sound board. -/
theorem Sound.traveled (h : b.Sound) {move : History (Document α) → Option (History (Document α))}
    {r : History (Document α)} (hm : move b.history = some r)
    (ht : r.timeline = b.history.timeline) : Traveled b r.depth (b.travel move) := by
  have hr : (b.travel move).2.history = r := by rw [history_travel, hm]; rfl
  refine ⟨hr ▸ ht, hr ▸ rfl, fun hw => ?_⟩
  rw [hr] at hw ⊢
  rw [h.travel_of_writable hm ht hw]
  exact ⟨rfl, rfl⟩

/-- Steps back that all succeed can be taken forth again. -/
theorem Sound.redo_of_undo (h : b.Sound) {k : Nat} {c : Board α}
    (hc : travels? Board.undo k b = some c) (hw : b.history.current.Writable) :
    ∃ d, travels? Board.redo k c = some d ∧ d.Sound ∧ d.history = b.history := by
  induction k generalizing b with
  | zero =>
    cases hc
    exact ⟨_, rfl, h, rfl⟩
  | succ k ih =>
    rw [travels?] at hc
    split at hc
    · next b' hb' =>
      have htimeline := fun r (hr : b.history.undo? = some r) => History.timeline_of_undo? hr
      obtain ⟨-, r, hr, hwritable, rfl⟩ :=
        (h.travel_eq_ok htimeline hb').resolve_left fun hfalse => nomatch hfalse.1
      have hsound : (b.travel History.undo?).2.Sound := h.travel htimeline
      rw [show b.travel History.undo? = _ from hb'] at hsound
      obtain ⟨d, hd, hds, hdr⟩ := ih hsound hc hwritable
      -- the last step forth leads from where the first step back led
      have hforth : d.history.redo? = some b.history := hdr ▸ History.redo?_of_undo? hr
      have hredo := hds.travel_of_writable hforth (History.timeline_of_redo? hforth) hw
      have hlast : (d.travel History.redo?).2.Sound :=
        hds.travel fun r hr => History.timeline_of_redo? hr
      rw [hredo] at hlast
      exact ⟨_, travels?_succ hd hredo, hlast, rfl⟩
    · contradiction

/-! ## The line -/

theorem committed_of_linear {limit : Int} {h : History (Document α)} (hl : h.Linear limit)
    (d : Document α) : Committed limit h d (h.commit d) :=
  ⟨h.redoStack_commit d, hl.limit_eq ▸ h.undoStack_commit d⟩

variable [LawfulScalar α]

theorem Sound.history_commit (h : b.Sound) (hb : b.batching = false) {d : Document α}
    (hd : d.Finite) :
    (Board.commit { b with document := d }).history = b.history.commit d := by
  rw [Board.commit_eq (b := { b with document := d }) hb hd h.current.2]

theorem Sound.lined (h : b.Sound) {limit : Int} (hl : b.history.Linear limit) :
    b.Lined limit where
  undoStack_ne_nil := b.history.undoStack_ne_nil
  length_le := b.history.timeline_eq ▸ hl.length_le
  distinct := b.history.timeline_eq ▸ hl.distinct
  undo hdepth := by
    rw [History.length_undoStack] at hdepth
    cases hu : b.history.undo? with
    | none =>
      have := History.undo?_eq_none_iff.mp hu
      omega
    | some r =>
      have hr := History.depth_of_undo? hu
      rw [show b.history.depth - 1 = r.depth by omega]
      exact h.traveled hu (History.timeline_of_undo? hu)
  undo_first hdepth := by
    rw [History.length_undoStack] at hdepth
    exact travel_of_eq_none (History.undo?_eq_none_iff.mpr hdepth)
  redo hne := by
    cases hr : b.history.redo? with
    | none => exact absurd (History.redo?_eq_none_iff.mp hr) hne
    | some r =>
      rw [← History.depth_of_redo? hr]
      exact h.traveled hr (History.timeline_of_redo? hr)
  redo_last hnil := travel_of_eq_none (History.redo?_eq_none_iff.mpr hnil)
  reset d hd := by
    change [d.settled] = [d]
    rw [hd.settled_eq]
  commit d hd hb := by
    rw [h.history_commit hb hd]
    exact committed_of_linear hl d
  plain e he hfin := by
    rcases h.history_perform he hfin with hsame | ⟨hb, hcommit⟩
    · exact .inl hsame
    · exact .inr ⟨hb, hcommit.trans (h.history_commit hb hfin).symm⟩
  beginBatch := by
    rw [h.history_beginBatch]
    cases b.batching with
    | true => exact rfl
    | false => exact committed_of_linear hl b.document
  endBatch := by
    rw [h.history_endBatch]
    exact committed_of_linear hl b.document
  back_and_forth k c hc hw := by
    obtain ⟨d, hd, -, hdr⟩ := h.redo_of_undo hc hw
    exact ⟨d, hd, hdr⟩

/-- The history of every reachable board is a line of documents with a cursor. -/
theorem lined_of_reachable {limit : Int} (h : Reachable limit b) :
    b.Lined (if limit = 0 then History.defaultLimit else limit) :=
  h.sound.lined h.linear

theorem lined_of_reachable_create :
    Lined 3 (performAll (Board.start .counting [] .initial 3 : Board Double)
      [.create (.shape .circle) { x := 10, y := 20 }, .undo]) := by
  have hstart : Reachable 3 (Board.start .counting [] .initial 3 : Board Double) :=
    .start nofun (by decide +kernel) (by decide +kernel)
  let create : Edit Double := .create (.shape .circle) { x := 10, y := 20 }
  have hcreate := hstart.step (e := create) trivial (by decide +kernel)
  exact lined_of_reachable (hcreate.step (e := .undo) trivial (by decide +kernel))

end Board

end Whiteboard

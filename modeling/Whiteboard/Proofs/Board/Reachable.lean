import Whiteboard.Proofs.Board.Sound

/-!
# Reachable boards

All boards that edits lead to, in any order and also when some are refused. Along each step the
history takes at most one commit or one move of the cursor, so that it stays linear
(`Board.Reachable.linear`).
-/

namespace Whiteboard

namespace Board

variable {α : Type} [Scalar α]

/-- The boards that come of a new board with valid elements by edits with valid elements, as long as
the numbers stay finite. Refused edits count, too. -/
inductive Reachable (limit : Int) : Board α → Prop where
  | start {ids : IdSupply} {es : List (Element α)} {v : Viewport α} : (∀ e ∈ es, e.Valid) →
      v.Valid → (Board.start ids es v limit).document.Finite →
      Reachable limit (Board.start ids es v limit)
  | step {b : Board α} {e : Edit α} : Reachable limit b → e.Valid →
      (b.perform e).2.document.Finite → Reachable limit (b.perform e).2

/-- A move of the cursor, if there is one, is all that comes of traveling. -/
theorem history_travel (move : History (Document α) → Option (History (Document α))) (b : Board α) :
    (b.travel move).2.history = (move b.history).getD b.history := by
  unfold travel
  split
  · next hm => rw [hm]; rfl
  · next r hm =>
    rw [hm]
    dsimp only
    split <;> rfl

variable [LawfulScalar α] {limit : Int} {b : Board α}

theorem sound_start {ids : IdSupply} {es : List (Element α)} {v : Viewport α}
    (hes : ∀ e ∈ es, e.Valid) (hv : v.Valid)
    (hfin : (Board.start ids es v limit).document.Finite) : (Board.start ids es v limit).Sound := by
  have hsettled : (Document.settled ⟨es, [], v⟩ : Document α) = ⟨es, [], v⟩ :=
    (Document.Finite.of_settled hfin).settled_eq
  have hvalid : (Board.start ids es v limit).document.Valid := by
    rw [Board.start, hsettled]
    exact ⟨hes, hv⟩
  refine ⟨hvalid, hfin, nofun, fun d hd => ?_⟩
  obtain rfl := List.mem_singleton.mp hd
  exact ⟨hvalid, hfin⟩

theorem Reachable.sound (h : Reachable limit b) : b.Sound := by
  induction h with
  | start hes hv hfin => exact sound_start hes hv hfin
  | step _ he hfin ih => exact ih.perform he hfin

/-! ## Steps of the history -/

/-- A plain edit leaves the history alone, or commits what came of it. -/
theorem Sound.history_perform (h : b.Sound) {e : Edit α} (he : e.isPlain = true)
    (hfin : (b.perform e).2.document.Finite) :
    (b.perform e).2.history = b.history ∨ b.batching = false ∧
      (b.perform e).2.history = b.history.commit (b.perform e).2.document := by
  have heffect := b.effect_perform he
  generalize b.perform e = o at heffect hfin
  cases heffect with
  | idle hu _ _ => exact .inl hu.history
  | refused hu => exact .inl hu.history
  | @done c _ hu =>
    cases hb : b.batching with
    | true =>
      rw [Board.changed, commit_of_batching (hu.batching.trans hb)]
      exact .inl hu.history
    | false =>
      have hcurrent : c.history.current.Finite := hu.history ▸ h.current.2
      rw [history_changed (hu.batching.trans hb) hfin hcurrent, hu.history]
      exact .inr ⟨rfl, rfl⟩

/-- Opening a batch commits what is there, unless one is open. -/
theorem Sound.history_beginBatch (h : b.Sound) :
    b.beginBatch.history = if b.batching then b.history else b.history.commit b.document := by
  cases hb : b.batching with
  | true => rw [beginBatch, commit_of_batching hb, if_pos rfl]
  | false => rw [beginBatch, h.commit_eq hb, if_neg Bool.false_ne_true]

/-- Closing a batch commits what is there. -/
theorem Sound.history_endBatch (h : b.Sound) :
    b.endBatch.history = b.history.commit b.document :=
  congrArg Board.history ((h.withBatching false).commit_eq rfl)

theorem linear_perform (h : b.Sound) {e : Edit α} (hfin : (b.perform e).2.document.Finite)
    (hl : b.history.Linear limit) : (b.perform e).2.history.Linear limit := by
  cases he : e.isPlain with
  | true =>
    rcases h.history_perform he hfin with heq | ⟨-, heq⟩ <;> rw [heq]
    · exact hl
    · exact hl.commit _
  | false =>
    cases e with
    | load d reset =>
      cases reset with
      | false => contradiction
      | true => exact hl.reset d.settled
    | undo =>
      change (b.travel History.undo?).2.history.Linear limit
      rw [history_travel]
      cases hu : b.history.undo? with
      | none => exact hl
      | some r => exact hl.of_timeline (History.limit_of_undo? hu) (History.timeline_of_undo? hu)
    | redo =>
      change (b.travel History.redo?).2.history.Linear limit
      rw [history_travel]
      cases hr : b.history.redo? with
      | none => exact hl
      | some r => exact hl.of_timeline (History.limit_of_redo? hr) (History.timeline_of_redo? hr)
    | beginBatch =>
      change b.beginBatch.history.Linear limit
      rw [h.history_beginBatch]
      split
      · exact hl
      · exact hl.commit b.document
    | endBatch =>
      change b.endBatch.history.Linear limit
      rw [h.history_endBatch]
      exact hl.commit b.document
    | _ => contradiction

theorem Reachable.linear (h : Reachable limit b) :
    b.history.Linear (if limit = 0 then History.defaultLimit else limit) := by
  induction h with
  | start => exact History.linear_start limit _
  | step hb _ hfin ih => exact linear_perform hb.sound hfin ih

end Board

end Whiteboard

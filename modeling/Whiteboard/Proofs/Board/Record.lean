import Whiteboard.Proofs.Board.Reachable
import Whiteboard.Proofs.Scalar.Double

/-!
# What is on record

As long as no edit is refused, the top of the history shows what is on the board whenever no batch
is open, so that each change can be undone (`Board.restorable_of_accepted`). Where a number is not
finite, a change may be recorded that no longer passes the checks of documents
(`Board.not_restorable_boundless`).
-/

namespace Whiteboard

/-- Whether an edit goes on with the history, instead of moving in it or giving it up. -/
def Edit.goesOn {α : Type} : Edit α → Bool
  | .load _ reset => !reset
  | .undo | .redo => false
  | _ => true

namespace Board

variable {α : Type} [Scalar α]

/-- The boards that come of a new board with valid elements by edits with valid elements, none of
which is refused, as long as the documents have a property. -/
inductive Accepted (P : Document α → Prop) (limit : Int) : Board α → Prop where
  | start {ids : IdSupply} {es : List (Element α)} {v : Viewport α} : (∀ e ∈ es, e.Valid) →
      v.Valid → P (Board.start ids es v limit).document →
      Accepted P limit (Board.start ids es v limit)
  | step {b c : Board α} {e : Edit α} {y : Yield α} : Accepted P limit b → e.Valid →
      b.perform e = (.ok y, c) → P c.document → Accepted P limit c

/-- The top of the history shows what is on the board. -/
def Recorded (b : Board α) : Prop := b.history.current.ShowsSame b.document

/-- Whatever an edit changes on a board, a step back restores, if the document that comes of the
edit has a property. -/
def Restorable (P : Document α → Prop) (b : Board α) : Prop :=
  ∀ (e : Edit α) (y : Yield α) (c : Board α), e.goesOn = true → e.Valid →
    b.perform e = (.ok y, c) → P c.document → ¬ c.document.ShowsSame b.document →
    ∃ d, c.undo = (.ok true, d) ∧ d.document.ShowsSame b.document

theorem Accepted.reachable {limit : Int} {b : Board α} (h : Accepted Document.Finite limit b) :
    Reachable limit b := by
  induction h with
  | start hes hv hfin => exact .start hes hv hfin
  | @step b c e y _ he hc hfin ih =>
    have hstep := ih.step he (by rw [hc]; exact hfin)
    rwa [hc] at hstep

variable [LawfulScalar α] {limit : Int} {b c : Board α}

/-! ## Steps -/

theorem recorded_of_history (hd : c.document.Finite)
    (hc : c.history = b.history.commit c.document) : c.Recorded := by
  unfold Recorded
  rw [hc]
  exact .of_beq (b.history.current_commit hd.beq_self)

/-- A plain edit that is not refused shows the same as before, or ends in a commit. -/
theorem Sound.perform_eq_ok (h : b.Sound) {e : Edit α} {y : Yield α} (he : e.isPlain = true)
    (hc : b.perform e = (.ok y, c)) (hfin : c.document.Finite) :
    c.batching = b.batching ∧
      (c.history = b.history ∧ c.document.ShowsSame b.document ∨
        c.history = if b.batching then b.history else b.history.commit c.document) := by
  have heffect := b.effect_perform he
  rw [hc] at heffect
  cases heffect with
  | idle hu helements hviewport =>
    exact ⟨hu.batching, .inl ⟨hu.history, .of_eq helements hviewport h.finite.beq_self⟩⟩
  | @done c _ hu =>
    refine ⟨batching_changed.trans hu.batching, .inr ?_⟩
    cases hb : b.batching with
    | true =>
      rw [if_pos rfl, Board.changed, commit_of_batching (hu.batching.trans hb)]
      exact hu.history
    | false =>
      have hcurrent : c.history.current.Finite := hu.history ▸ h.current.2
      rw [history_changed (hu.batching.trans hb) hfin hcurrent, hu.history]
      rfl

/-- Where a step of the cursor is not refused, the top of the history still shows the board. -/
theorem Sound.recorded_travel (h : b.Sound)
    {move : History (Document α) → Option (History (Document α))}
    (hmove : ∀ r, move b.history = some r → r.timeline = b.history.timeline) {y : Yield α}
    (hc : (b.travel move).map .moved = (.ok y, c)) (hfin : c.document.Finite) :
    c.batching = b.batching ∧ (b.Recorded → c.Recorded) := by
  obtain ⟨t, ht⟩ := Outcome.map_eq_ok hc
  obtain ⟨-, rfl⟩ | ⟨-, r, -, -, rfl⟩ := h.travel_eq_ok hmove ht
  · exact ⟨rfl, id⟩
  · exact ⟨rfl, fun _ => .of_beq hfin.beq_self⟩

theorem Accepted.recorded (h : Accepted Document.Finite limit b) (hb : b.batching = false) :
    b.Recorded := by
  induction h with
  | start hes hv hfin => exact .of_beq hfin.beq_self
  | @step b c e y hprev he hc hfin ih =>
    have hsound := hprev.reachable.sound
    cases hplain : e.isPlain with
    | true =>
      obtain ⟨hbatching, ⟨hhistory, hsame⟩ | hhistory⟩ := hsound.perform_eq_ok hplain hc hfin
      · have hbefore := ih (hbatching.symm.trans hb)
        unfold Recorded
        rw [hhistory]
        exact hbefore.trans hsame.symm
      · rw [hbatching.symm.trans hb, if_neg Bool.false_ne_true] at hhistory
        exact recorded_of_history hfin hhistory
    | false =>
      cases e with
      | load d reset =>
        cases reset with
        | false => contradiction
        | true =>
          cases hc
          exact .of_beq hfin.beq_self
      | undo =>
        have htimeline := fun r (hr : b.history.undo? = some r) => History.timeline_of_undo? hr
        obtain ⟨hbatching, hrecorded⟩ := hsound.recorded_travel htimeline hc hfin
        exact hrecorded (ih (hbatching.symm.trans hb))
      | redo =>
        have htimeline := fun r (hr : b.history.redo? = some r) => History.timeline_of_redo? hr
        obtain ⟨hbatching, hrecorded⟩ := hsound.recorded_travel htimeline hc hfin
        exact hrecorded (ih (hbatching.symm.trans hb))
      | beginBatch =>
        cases hc
        contradiction
      | endBatch =>
        cases hc
        have hcommit := (hsound.withBatching false).commit_eq rfl
        rw [show b.endBatch = _ from hcommit] at hfin ⊢
        exact recorded_of_history hfin rfl
      | _ => contradiction

/-! ## Steps back -/

/-- An edit that goes on outside a batch commits what came of it, or shows the same as before. -/
theorem Sound.goesOn_eq_ok (h : b.Sound) (hb : b.batching = false) {e : Edit α} {y : Yield α}
    (he : e.goesOn = true) (hc : b.perform e = (.ok y, c)) (hfin : c.document.Finite) :
    c.document.ShowsSame b.document ∨ c.history = b.history.commit c.document := by
  cases hplain : e.isPlain with
  | true =>
    obtain ⟨-, ⟨-, hsame⟩ | hhistory⟩ := h.perform_eq_ok hplain hc hfin
    · exact .inl hsame
    · rw [hb, if_neg Bool.false_ne_true] at hhistory
      exact .inr hhistory
  | false =>
    cases e with
    | load d reset => simp_all [Edit.goesOn, Edit.isPlain]
    | undo | redo => contradiction
    | beginBatch =>
      cases hc
      refine .inl ?_
      rw [Board.beginBatch, h.commit_eq hb]
      exact .of_beq h.finite.beq_self
    | endBatch =>
      cases hc
      refine .inl ?_
      rw [Board.endBatch, (h.withBatching false).commit_eq rfl]
      exact .of_beq h.finite.beq_self
    | _ => contradiction

/-- Outside a batch the top of the history shows what is on the board, and whatever an edit changes,
a step back restores. -/
theorem restorable_of_accepted (h : Accepted Document.Finite limit b) (hb : b.batching = false) :
    b.Recorded ∧ (2 ≤ limit → b.document.Writable → b.Restorable Document.Finite) := by
  have hrecorded := h.recorded hb
  refine ⟨hrecorded, fun hl hw e y c he hvalid hc hfin hne => ?_⟩
  have hsound := h.reachable.sound
  have hlimit : 2 ≤ b.history.limit := by
    rw [h.reachable.linear.limit_eq, if_neg (by omega)]
    exact hl
  have hcommit := (hsound.goesOn_eq_ok hb he hc hfin).resolve_left hne
  have hadded : (b.history.current == c.document) = false := by
    rw [Bool.eq_false_iff]
    exact fun heq => hne ((Document.ShowsSame.of_beq heq).symm.trans hrecorded)
  rw [History.commit, hadded, if_neg Bool.false_ne_true] at hcommit
  have hcsound : c.Sound := by
    have := hsound.perform hvalid (by rw [hc]; exact hfin)
    rwa [hc] at this
  have hcurrent : b.history.current.Writable := by
    unfold Document.Writable
    rw [hrecorded.nesting_eq]
    exact hw
  obtain ⟨d, hd, hdocument, -⟩ := hcsound.undo_of_push hcommit hlimit hcurrent
  exact ⟨d, hd, hdocument ▸ hrecorded⟩

/-- A circle that was deleted comes back. -/
theorem restorable_of_accepted_delete :
    let b : Board Double :=
      Board.start .counting [.newShape "a" .circle { x := 10, y := 20 }] .initial 3
    ∃ d, (b.delete ["a"]).undo = (.ok true, d) ∧ d.document.ShowsSame b.document := by
  intro b
  have hb : Accepted Document.Finite 3 b :=
    .start (List.forall_mem_singleton.mpr (Element.valid_newShape ..)) (by decide +kernel)
      (by decide +kernel)
  have h := (restorable_of_accepted hb (by decide +kernel)).2 (by decide) (by decide +kernel)
  exact h (.delete ["a"]) .nothing (b.delete ["a"]) rfl trivial rfl (by decide +kernel)
    fun hsame => absurd hsame.1 (by decide +kernel)

/-! ## Infinite sides -/

/-- A group of infinite width with a rectangle of none. -/
def boundless : Board Double :=
  Board.start .counting
    [.group ⟨"g", 0, 0, 1 / 0, 0, 0, 0⟩ [.shape ⟨"r", 0, 0, 0, 0, 0, 0⟩ .rectangle .initial]]
    .initial 50

/-- The group is dissolved, and the width of the rectangle is no number. -/
def dissolved : Board Double := (boundless.perform (.ungroup ["g"])).2

theorem accepted_dissolved : Accepted (fun _ => True) 50 dissolved := by
  have hstart : Accepted (fun _ => True) 50 boundless := by
    refine .start (List.forall_mem_singleton.mpr (.group ?_ (List.forall_mem_singleton.mpr ?_)))
      (by decide +kernel) trivial
    · exact ⟨by decide +kernel, by decide +kernel, Scalar.normalizeAngle_zero⟩
    · exact .shape ⟨by decide +kernel, by decide +kernel, Scalar.normalizeAngle_zero⟩
        (Shape.valid_of_curve_eq_none rfl)
  obtain ⟨y, hy⟩ := eq_ok_of_toBool (o := boundless.perform (.ungroup ["g"])) (by decide +kernel)
  exact hstart.step (e := .ungroup ["g"]) trivial hy trivial

/-- That the width is no number was recorded, and no step back leads there. -/
theorem not_restorable_boundless :
    ¬ ∀ b : Board Double, Accepted (fun _ => True) 50 b → b.batching = false →
      b.Restorable fun _ => True := by
  intro h
  have hbatching : dissolved.batching = false := by decide +kernel
  have hview : (dissolved.perform (.view [("x", .num 5)])).1.toBool = true := by decide +kernel
  have hchanged : ((dissolved.perform (.view [("x", .num 5)])).2.document.viewport
      == dissolved.document.viewport) = false := by decide +kernel
  have hundo : (dissolved.perform (.view [("x", .num 5)])).2.undo.1.toBool = false := by
    decide +kernel
  have hrestorable := h dissolved accepted_dissolved hbatching
  generalize dissolved = b at *
  obtain ⟨y, hy⟩ := eq_ok_of_toBool hview
  obtain ⟨d, hd, -⟩ := hrestorable (.view [("x", .num 5)]) y _ rfl trivial hy trivial
    fun hsame => absurd hsame.2 (by simp [hchanged])
  rw [hd] at hundo
  contradiction

end Board

end Whiteboard

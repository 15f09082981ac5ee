import Whiteboard.Proofs.Board.Effect
import Whiteboard.Proofs.History.Timeline

/-!
# What holds throughout a board

A property of documents that holds of the document of a board and of every state of its history. If
keeping a document and reading it back do not touch the property, neither a commit nor a move of the
cursor does (`Board.Throughout.commit`, `Board.Throughout.travel`), and it is left to see what an
edit makes of the document (`Board.Throughout.perform`).
-/

namespace Whiteboard

variable {α β : Type} [Scalar α]

/-- Neither settling a document nor reading it back touches the property. -/
structure Document.Lasting (P : Document α → Prop) : Prop where
  settled_iff : ∀ d : Document α, P d.settled ↔ P d
  reread : ∀ {d d' : Document α}, d.reread = .ok d' → P d → P d'

namespace Board

/-- The document of a board and every state of its history have a property. -/
structure Throughout (P : Document α → Prop) (b : Board α) : Prop where
  document : P b.document
  timeline : ∀ d ∈ b.history.timeline, P d

variable {P : Document α → Prop} {b c : Board α}

omit [Scalar α] in
theorem Throughout.of_unrecorded (h : b.Throughout P) (hu : Unrecorded b c) (hc : P c.document) :
    c.Throughout P := ⟨hc, hu.history ▸ h.timeline⟩

theorem throughout_start (hP : Document.Lasting P) {ids : IdSupply} {es : List (Element α)}
    {v : Viewport α} {limit : Int} (h : P ⟨es, [], v⟩) :
    (Board.start ids es v limit).Throughout P := by
  have hsettled : P (Board.start ids es v limit).document := (hP.settled_iff _).mpr h
  refine ⟨hsettled, fun d hd => ?_⟩
  obtain rfl := List.mem_singleton.mp hd
  exact hsettled

/-- A commit records the document, and settles it and the state at the cursor. -/
theorem Throughout.commit (hP : Document.Lasting P) (h : b.Throughout P) :
    b.commit.Throughout P := by
  unfold Board.commit
  split
  · exact h
  · have hcommit : ∀ d ∈ (b.history.commit b.document).timeline, P d := by
      intro d hd
      rcases History.mem_timeline_commit hd with hd | rfl
      · exact h.timeline d hd
      · exact h.document
    refine ⟨(hP.settled_iff _).mpr h.document, fun d hd => ?_⟩
    simp only [History.timeline, List.mem_append, List.mem_reverse, List.mem_cons] at hd hcommit
    rcases hd with hd | rfl | hd
    · exact hcommit d (.inl hd)
    · exact (hP.settled_iff _).mpr (hcommit _ (.inr (.inl rfl)))
    · exact hcommit d (.inr (.inr hd))

theorem Throughout.changed (hP : Document.Lasting P) (h : b.Throughout P) :
    b.changed.Throughout P :=
  ⟨(h.commit hP).document, (h.commit hP).timeline⟩

theorem document_changed_iff (hP : Document.Lasting P) (c : Board α) :
    P c.changed.document ↔ P c.document := by
  rw [Board.changed, notify, Board.commit]
  split
  · exact .rfl
  · exact hP.settled_iff c.document

/-- What an edit records is what it leaves. -/
theorem Throughout.of_effect {o : Outcome α β} (hP : Document.Lasting P) (h : b.Throughout P)
    (heffect : Effect b o) (ho : P o.2.document) : o.2.Throughout P := by
  cases heffect with
  | idle hu => exact h.of_unrecorded hu ho
  | refused hu => exact h.of_unrecorded hu ho
  | @done c _ hu =>
    exact Throughout.changed hP (h.of_unrecorded hu ((document_changed_iff hP c).mp ho))

/-- A step in the history takes over a state that is recorded. -/
theorem Throughout.travel (hP : Document.Lasting P) (h : b.Throughout P)
    {move : History (Document α) → Option (History (Document α))}
    (hmove : ∀ r, move b.history = some r → r.timeline = b.history.timeline) :
    (b.travel move).2.Throughout P := by
  unfold Board.travel
  split
  · exact h
  · next r hr =>
    have htimeline : ∀ d ∈ r.timeline, P d := hmove r hr ▸ h.timeline
    dsimp only
    split
    · exact ⟨h.document, htimeline⟩
    · next d hread => exact ⟨hP.reread hread (htimeline _ r.current_mem), htimeline⟩

/-- An edit keeps what its document keeps; a document that is taken over has to bring it along. -/
theorem Throughout.perform (hP : Document.Lasting P) (h : b.Throughout P) {e : Edit α}
    (hplain : e.isPlain = true → P (b.perform e).2.document)
    (hload : ∀ d, e = .load d true → P d) : (b.perform e).2.Throughout P := by
  cases he : e.isPlain with
  | true => exact h.of_effect hP (b.effect_perform he) (hplain he)
  | false =>
    cases e with
    | load d reset =>
      cases reset with
      | false => contradiction
      | true =>
        have hd : P d.settled := (hP.settled_iff d).mpr (hload d rfl)
        refine ⟨hd, fun d' hd' => ?_⟩
        obtain rfl := List.mem_singleton.mp hd'
        exact hd
    | undo => exact h.travel hP fun r => History.timeline_of_undo?
    | redo => exact h.travel hP fun r => History.timeline_of_redo?
    | beginBatch => exact ⟨(h.commit hP).document, (h.commit hP).timeline⟩
    | endBatch =>
      have hclosed : Throughout P { b with batching := false } := ⟨h.document, h.timeline⟩
      exact hclosed.commit hP
    | _ => contradiction

end Board

end Whiteboard

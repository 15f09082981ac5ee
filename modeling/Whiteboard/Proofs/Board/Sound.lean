import Whiteboard.Proofs.Board.Effect
import Whiteboard.Proofs.Document.Proper
import Whiteboard.Proofs.Document.RoundTrip
import Whiteboard.Proofs.History.Timeline

/-!
# Sound boards

A board is sound if all documents it holds are valid and their numbers finite. Edits with valid
elements keep it sound, as long as the numbers stay finite (`Board.Sound.perform`). On sound boards
documents are recorded as they are (`Board.Sound.commit_eq`).
-/

namespace Whiteboard

variable {α β γ : Type} [Scalar α]

/-- What an edit brings along was read or made by an editor. -/
def Edit.Valid : Edit α → Prop
  | .add es | .insert es => ∀ e ∈ es, e.Valid
  | .load d _ => d.Valid
  | _ => True

theorem Element.Proper.settled [LawfulScalar α] {e : Element α} (h : e.Proper) :
    (e.map Scalar.settle).Proper := by
  intro hfin
  have hfin : e.Finite := fun x hx =>
    LawfulScalar.isFinite_settle.symm.trans (Element.all_map e |>.mp hfin x hx)
  rw [Element.map_eq_self e fun x hx => LawfulScalar.settle_eq (hfin x hx)]
  exact h hfin

/-- Valid, if the numbers are finite. -/
def Viewport.Proper (v : Viewport α) : Prop := Scalar.isFinite v.scale = true → v.Valid

theorem Viewport.Proper.settled [LawfulScalar α] {v : Viewport α} (h : v.Proper) :
    (v.map Scalar.settle).Proper := by
  intro hfin
  have hscale : Scalar.isFinite v.scale = true := LawfulScalar.isFinite_settle.symm.trans hfin
  have hsame : Scalar.settle v.scale = v.scale := LawfulScalar.settle_eq hscale
  change 0 < Scalar.settle v.scale
  rw [hsame]
  exact h hscale

namespace Board

/-- What is on a board is valid, if its numbers are finite. -/
structure Proper (b : Board α) : Prop where
  elements : ∀ e ∈ b.elements, e.Proper
  viewport : b.viewport.Proper
  clipboard : ∀ e ∈ b.clipboard, e.Valid

/-- All documents of a board are valid, and their numbers are finite. -/
structure Sound (b : Board α) : Prop where
  document : b.document.Valid
  finite : b.document.Finite
  clipboard : ∀ e ∈ b.clipboard, e.Valid
  timeline : ∀ d ∈ b.history.timeline, d.Valid ∧ d.Finite

variable {b c : Board α}

theorem Sound.proper (h : b.Sound) : b.Proper :=
  ⟨fun e he => (h.document.elements e he).proper, fun _ => h.document.viewport, h.clipboard⟩

theorem Sound.withBatching (h : b.Sound) (batching : Bool) : Sound { b with batching } :=
  ⟨h.document, h.finite, h.clipboard, h.timeline⟩

theorem Sound.current (h : b.Sound) : b.history.current.Valid ∧ b.history.current.Finite :=
  h.timeline _ b.history.current_mem

theorem Proper.of_eq (h : b.Proper) (hd : b.document = c.document)
    (hc : b.clipboard = c.clipboard) : c.Proper := by
  cases b
  cases c
  cases hd
  cases hc
  exact ⟨h.elements, h.viewport, h.clipboard⟩

theorem Proper.valid (h : b.Proper) (hfin : b.document.Finite) : b.document.Valid :=
  ⟨fun e he => h.elements e he (hfin.element he), h.viewport (Document.finite_iff.mp hfin).2.2.2⟩

theorem Sound.of_unrecorded (h : b.Sound) (hu : Unrecorded b c) (hc : c.Proper)
    (hfin : c.document.Finite) : c.Sound :=
  ⟨hc.valid hfin, hfin, hc.clipboard, hu.history ▸ h.timeline⟩

theorem Proper.withElements (h : b.Proper) {es : List (Element α)} (hes : ∀ e ∈ es, e.Proper) :
    (b.withElements es).Proper := ⟨hes, h.viewport, h.clipboard⟩

theorem Proper.withSelected (h : b.Proper) (ids : List String) : (b.withSelected ids).Proper :=
  ⟨h.elements, h.viewport, h.clipboard⟩

theorem Proper.withIds (h : b.Proper) (ids : IdSupply) : Proper { b with ids } :=
  ⟨h.elements, h.viewport, h.clipboard⟩

theorem Proper.andThen {o : Outcome α β} {f : β → Board α → Outcome α γ} (h : o.2.Proper)
    (hf : ∀ v, o.1 = .ok v → (f v o.2).2.Proper) : (o.andThen f).2.Proper := by
  obtain ⟨v | v, c⟩ := o
  · exact h
  · exact hf v rfl

theorem Sound.mapFrames (h : b.Sound) (ids : List String) {change : Frame α → Frame α}
    (hchange : ∀ f, f.Valid → (change f).Proper) : (b.mapFrames ids change).Proper := by
  refine h.proper.withElements fun e he => ?_
  obtain ⟨e, hmem, rfl⟩ := List.mem_map.mp he
  have hvalid := h.document.elements e hmem
  split
  · exact hvalid.proper_mapFrame (hchange e.frame hvalid.frame)
  · exact hvalid.proper

theorem Sound.copy (h : b.Sound) : b.copy.2.Proper := by
  refine .andThen h.proper fun _ _ => ⟨h.proper.elements, h.proper.viewport, fun e he => ?_⟩
  exact h.document.elements e (List.mem_of_mem_filter he)

/-! ## The cursor -/

variable {move : History (Document α) → Option (History (Document α))} {r : History (Document α)}

theorem travel_of_eq_none (hm : move b.history = none) : b.travel move = (.ok false, b) := by
  rw [travel, hm]

/-- Where the state at the new cursor can be read, the board takes it over. -/
theorem Sound.travel_of_writable (h : b.Sound) (hm : move b.history = some r)
    (ht : r.timeline = b.history.timeline) (hw : r.current.Writable) :
    b.travel move = (.ok true, { b with history := r, document := r.current }.notify) := by
  have hread := Document.reread_eq (h.timeline _ (ht ▸ r.current_mem)).1 hw
  simp only [travel, hm, hread]

theorem travel_of_not_writable (hm : move b.history = some r) (hw : ¬ r.current.Writable) :
    ∃ e, b.travel move = (.error e, { b with history := r }) := by
  simp only [travel, hm]
  split
  · next e _ => exact ⟨e, rfl⟩
  · next d hread =>
    exact absurd (Document.writable_of_ofJson (Checked.toEdit_eq_ok_iff.mp hread)) hw

/-- A step back from what was added leads to what was there before, and a step forth returns. -/
theorem Sound.undo_of_push (h : c.Sound) {s : History (Document α)} {d : Document α}
    (hc : c.history = s.push d) (hl : 2 ≤ s.limit) (hw : s.current.Writable) :
    ∃ u, c.undo = (.ok true, u) ∧ u.document = s.current ∧ u.history.redo? = some c.history := by
  obtain ⟨r, hr, hcurrent⟩ := History.undo?_push hl d
  rw [← hc] at hr
  rw [← hcurrent] at hw ⊢
  exact ⟨_, h.travel_of_writable hr (History.timeline_of_undo? hr) hw, rfl,
    History.redo?_of_undo? hr⟩

/-- A step that is not refused stays at the end of the history, or takes over what can be read. -/
theorem Sound.travel_eq_ok (h : b.Sound)
    (hmove : ∀ r, move b.history = some r → r.timeline = b.history.timeline) {t : Bool}
    (ht : b.travel move = (.ok t, c)) :
    (t = false ∧ c = b) ∨ (t = true ∧ ∃ r, move b.history = some r ∧ r.current.Writable ∧
      c = { b with history := r, document := r.current }.notify) := by
  cases hm : move b.history with
  | none =>
    rw [travel_of_eq_none hm] at ht
    cases ht
    exact .inl ⟨rfl, rfl⟩
  | some r =>
    by_cases hw : r.current.Writable
    · rw [h.travel_of_writable hm (hmove r hm) hw] at ht
      cases ht
      exact .inr ⟨rfl, r, rfl, hw, rfl⟩
    · obtain ⟨e, he⟩ := travel_of_not_writable hm hw
      rw [he] at ht
      cases ht

theorem Sound.travel (h : b.Sound)
    (hmove : ∀ r, move b.history = some r → r.timeline = b.history.timeline) :
    (b.travel move).2.Sound := by
  cases hm : move b.history with
  | none => rwa [travel_of_eq_none hm]
  | some r =>
    have ht := hmove r hm
    have hr : r.current.Valid ∧ r.current.Finite := h.timeline _ (ht ▸ r.current_mem)
    by_cases hw : r.current.Writable
    · rw [h.travel_of_writable hm ht hw]
      exact ⟨hr.1, hr.2, h.clipboard, ht ▸ h.timeline⟩
    · obtain ⟨e, he⟩ := travel_of_not_writable hm hw
      rw [he]
      exact ⟨h.document, h.finite, h.clipboard, ht ▸ h.timeline⟩

/-! ## Commits -/

theorem commit_of_batching (hb : b.batching = true) : b.commit = b := if_pos hb

theorem batching_changed : b.changed.batching = b.batching := by
  rw [changed, notify, commit]
  split <;> simp_all

theorem clipboard_changed : b.changed.clipboard = b.clipboard := by
  rw [changed, notify, commit]
  split <;> rfl

variable [LawfulScalar α]

/-- Where numbers are finite, the document is recorded as it is. -/
theorem commit_eq (hb : b.batching = false) (hd : b.document.Finite)
    (hc : b.history.current.Finite) :
    b.commit = { b with history := b.history.commit b.document } := by
  have hcurrent : (b.history.commit b.document).current.settled
      = (b.history.commit b.document).current := by
    unfold History.commit
    split
    · exact hc.settled_eq
    · exact hd.settled_eq
  rw [commit, hb, if_neg Bool.false_ne_true]
  simp only [hd.settled_eq, hcurrent]

theorem Sound.commit_eq (h : b.Sound) (hb : b.batching = false) :
    b.commit = { b with history := b.history.commit b.document } :=
  Board.commit_eq hb h.finite h.current.2

theorem Sound.commit (h : b.Sound) : b.commit.Sound := by
  cases hb : b.batching with
  | true => rwa [commit_of_batching hb]
  | false =>
    rw [h.commit_eq hb]
    refine ⟨h.document, h.finite, h.clipboard, fun d hd => ?_⟩
    rcases History.mem_timeline_commit hd with hd | rfl
    · exact h.timeline d hd
    · exact ⟨h.document, h.finite⟩

theorem Sound.changed (h : b.Sound) : b.changed.Sound :=
  ⟨h.commit.document, h.commit.finite, h.commit.clipboard, h.commit.timeline⟩

theorem document_changed (hfin : c.changed.document.Finite) : c.changed.document = c.document := by
  cases hb : c.batching with
  | true => rw [changed, commit_of_batching hb, notify]
  | false =>
    have hdocument : c.changed.document = c.document.settled := by
      rw [changed, notify, Board.commit, hb, if_neg Bool.false_ne_true]
    rw [hdocument] at hfin ⊢
    exact hfin.of_settled.settled_eq

theorem history_changed (hb : c.batching = false) (hfin : c.changed.document.Finite)
    (hc : c.history.current.Finite) :
    c.changed.history = c.history.commit c.changed.document := by
  have hdocument := document_changed hfin
  rw [hdocument, Board.changed, Board.commit_eq hb (hdocument ▸ hfin) hc, notify]

theorem Proper.changed (h : c.Proper) : c.changed.Proper := by
  cases hb : c.batching with
  | true =>
    rw [Board.changed, commit_of_batching hb]
    exact ⟨h.elements, h.viewport, h.clipboard⟩
  | false =>
    rw [Board.changed, Board.commit, hb, if_neg Bool.false_ne_true]
    refine ⟨fun e he => ?_, h.viewport.settled, h.clipboard⟩
    obtain ⟨e, hmem, rfl⟩ := Element.mem_mapAll.mp he
    exact (h.elements e hmem).settled

/-! ## Steps of edits -/

theorem Proper.applyBatch (h : b.Proper) (batch : Batch α) : (b.applyBatch batch).2.Proper := by
  have happlied := Element.proper_applyEach batch.changesOf h.elements b.ids
  unfold Board.applyBatch
  split
  · next es ids heq =>
    rw [heq] at happlied
    exact (h.withElements happlied).withIds ids
  · exact h.withIds _

/-- Arrows follow, and the edit ends. -/
theorem Proper.refreshed (h : c.Proper) (moved : List String) (v : β) :
    (Outcome.andThen (c.refreshBindings moved) fun _ d => (.ok v, d.changed)).2.Proper :=
  .andThen (h.applyBatch _) fun _ _ => (h.applyBatch _).changed

/-- Arrows follow if they are to, and the edit ends. -/
theorem Proper.followed (h : c.Proper) (batch : Batch α) (rebind : Bool) (v : β) :
    (Outcome.andThen (if rebind then c.followBatch batch else (.ok (), c))
      fun _ d => (.ok v, d.changed)).2.Proper := by
  cases rebind with
  | false => exact h.changed
  | true => exact .andThen (h.applyBatch _) fun _ _ => (h.applyBatch _).changed

/-! ## Edits -/

theorem Proper.add (h : b.Proper) {es : List (Element α)} (hes : ∀ e ∈ es, e.Valid) :
    (b.add es).Proper :=
  (h.withElements fun e he => (List.mem_append.mp he).elim (h.elements e)
    fun he => (hes e he).proper).changed

theorem Proper.insert (h : b.Proper) {es : List (Element α)} (hes : ∀ e ∈ es, e.Valid) :
    (b.insert es).Proper :=
  ((h.withElements fun e he => (List.mem_append.mp he).elim (h.elements e)
    fun he => (hes e he).proper).withSelected _).changed

theorem Proper.update (h : b.Proper) (id : String) (changes : Changes α) (rebind : Bool) :
    (b.update id changes rebind).2.Proper := by
  have happlied := Element.proper_applyEach (Batch.changesOf [(id, changes)]) h.elements b.ids
  unfold Board.update
  split
  · next e es ids heq =>
    rw [heq] at happlied
    exact (h.withElements happlied).withIds ids
  · next es ids heq =>
    rw [heq] at happlied
    have hc := (h.withElements happlied).withIds ids
    dsimp only
    split
    · exact hc
    · exact hc.followed _ rebind _

theorem Proper.updateAll (h : b.Proper) (batch : Batch α) (rebind : Bool) :
    (b.updateAll batch rebind).2.Proper := by
  unfold Board.updateAll
  split
  · exact h
  · exact .andThen (h.applyBatch batch) fun _ _ => (h.applyBatch batch).followed batch rebind ()

theorem Proper.delete (h : b.Proper) (ids : List String) : (b.delete ids).Proper :=
  ((h.withElements fun e he => h.elements e (List.mem_of_mem_filter he)).withSelected _).changed

theorem Sound.turnTogether (h : b.Sound) (ids : List String) (angle : α) :
    (b.turnTogether ids angle).2.Proper := by
  unfold Board.turnTogether
  split
  · exact h.proper
  · refine Proper.refreshed (h.mapFrames ids fun f hf => ?_) ids ()
    exact hf.proper_turned f.id _ _ _ f.zIndex

theorem Sound.rotate (h : b.Sound) (ids : List String) (angle : α) :
    (b.rotate ids angle).2.Proper := by
  unfold Board.rotate
  split
  · exact h.proper
  · refine Proper.refreshed (h.mapFrames ids fun f hf => ?_) ids ()
    exact hf.proper_turned f.id _ _ _ f.zIndex
  · exact h.turnTogether ids angle

theorem Sound.setRotation (h : b.Sound) (ids : List String) (target : α) :
    (b.setRotation ids target).2.Proper := by
  unfold Board.setRotation
  split
  · exact h.proper
  · refine Proper.refreshed (h.mapFrames ids fun f hf => ?_) ids ()
    exact hf.proper_turned f.id _ _ _ f.zIndex
  · dsimp only
    split
    · exact h.proper
    · exact h.turnTogether ids _

theorem Proper.updateViewport (h : b.Proper) (changes : Changes α) :
    (b.updateViewport changes).2.Proper := by
  unfold Board.updateViewport
  dsimp only
  split
  · exact h
  · next viewport hread =>
    have hvalid := Viewport.valid_of_ofJson (Checked.toEdit_eq_ok_iff.mp hread)
    exact Proper.changed ⟨h.elements, fun _ => hvalid, h.clipboard⟩

theorem Proper.paste (h : b.Proper) : b.paste.2.Proper := by
  unfold Board.paste
  split
  · exact h
  · have hcopies := Element.valid_renamedAll b.ids b.clipboard h.clipboard
    have hpasted : ∀ e ∈ (Element.renamedAll b.ids b.clipboard).1.map
        (Element.shift pasteOffset pasteOffset), e.Valid := by
      intro e he
      obtain ⟨e, hmem, rfl⟩ := List.mem_map.mp he
      exact (hcopies e hmem).moveTo _ _
    refine Proper.insert ?_ hpasted
    exact ⟨h.elements, h.viewport, hpasted⟩

theorem Proper.place (h : b.Proper) {e : Element α} (he : e.Valid) : (b.place e).Proper :=
  h.insert (List.forall_mem_singleton.mpr he)

theorem Proper.create (h : b.Proper) (kind : ElementKind) (draft : Draft α) :
    (b.create kind draft).2.Proper := by
  unfold Board.create
  split
  · exact h.withIds _
  · next e ids hcreate => exact (h.withIds ids).place (Element.valid_of_create hcreate)

theorem Proper.createArrow (h : b.Proper) (start finish : Point α)
    (startBinding finishBinding : Option Binding) :
    (b.createArrow start finish startBinding finishBinding).2.Proper := by
  unfold Board.createArrow
  refine .andThen (h.withIds _) fun f hf => (h.withIds _).place (.shape ?_ ?_)
  · exact Frame.valid_of_checked (Checked.toEdit_eq_ok_iff.mp hf) rfl
  · exact Shape.valid_of_curve_eq_zero rfl

theorem Proper.moveEnd (h : b.Proper) (id : String) (side : ArrowEnd) (p : Point α)
    (binding : Option Binding) : (b.moveEnd id side p binding).2.Proper := by
  unfold Board.moveEnd
  split
  · exact h
  · exact h.update id _ false

theorem Sound.group (h : b.Sound) (ids : List String) : (b.group ids).2.Proper := by
  unfold Board.group
  dsimp only
  split
  · exact h.proper
  · refine .andThen (h.proper.withIds _) fun g hg => ?_
    have hvalid : g.Valid := Element.valid_of_groupOf (Checked.toEdit_eq_ok_iff.mp hg)
      fun e he => h.document.elements e (List.mem_of_mem_filter he)
    have helements : ∀ e ∈ without ids b.elements ++ [g], e.Proper := by
      intro e he
      rcases List.mem_append.mp he with he | he
      · exact h.proper.elements e (List.mem_of_mem_filter he)
      · exact List.mem_singleton.mp he ▸ hvalid.proper
    exact (((h.proper.withIds _).withElements helements).withSelected [g.id]).refreshed _ _

theorem Sound.ungroup (h : b.Sound) (ids : List String) : (b.ungroup ids).2.Proper := by
  unfold Board.ungroup
  dsimp only
  split
  · exact h.proper
  · refine Proper.refreshed (Proper.withSelected (h.proper.withElements fun e he => ?_) _) _ _
    rcases List.mem_append.mp he with he | he
    · exact h.proper.elements e (List.mem_of_mem_filter he)
    · obtain ⟨g, hg, he⟩ := List.mem_flatMap.mp he
      have hmem := List.mem_of_mem_filter (List.mem_of_mem_filter hg)
      exact (h.document.elements g hmem).proper_released e he

theorem Sound.restack (h : b.Sound) (ids : List String)
    {order : (Element α → Bool) → List (Element α) → List (Element α)}
    (horder : ∀ chosen es, ∀ e ∈ order chosen es, e ∈ es) : (b.restack ids order).Proper := by
  unfold Board.restack
  split
  · exact h.proper
  · refine (h.proper.withElements fun e he => (Element.Valid.renumbered ?_ e he).proper).changed
    intro e he
    exact h.document.elements e ((Element.stacked_perm _).mem_iff.mp (horder _ _ e he))

/-- What a plain edit puts on a sound board is valid, if its numbers are finite. -/
theorem Sound.proper_perform (h : b.Sound) {e : Edit α} (he : e.Valid) (hplain : e.isPlain = true) :
    (b.perform e).2.Proper := by
  cases e with
  | add es => exact h.proper.add he
  | insert es => exact h.proper.insert he
  | update id changes rebind => exact h.proper.update id changes rebind
  | updateAll batch rebind => exact h.proper.updateAll batch rebind
  | delete ids => exact h.proper.delete ids
  | load d reset =>
    cases reset with
    | false =>
      exact Proper.changed
        ⟨fun e hmem => (he.elements e hmem).proper, fun _ => he.viewport, h.clipboard⟩
    | true => contradiction
  | rotate ids angle => exact h.rotate ids angle
  | setRotation ids target => exact h.setRotation ids target
  | select | toggle | clearSelection =>
    exact ⟨h.proper.elements, h.proper.viewport, h.clipboard⟩
  | view changes => exact h.proper.updateViewport changes
  | copy => exact h.copy
  | paste => exact h.proper.paste
  | create kind draft => exact h.proper.create kind draft
  | createArrow start finish startBinding finishBinding =>
    exact h.proper.createArrow start finish startBinding finishBinding
  | moveEnd id side p binding => exact h.proper.moveEnd id side p binding
  | group ids => exact h.group ids
  | ungroup ids => exact h.ungroup ids
  | bringToFront ids =>
    exact Sound.restack h ids fun chosen es e hmem =>
      (List.mem_append.mp hmem).elim List.mem_of_mem_filter List.mem_of_mem_filter
  | sendToBack ids =>
    exact Sound.restack h ids fun chosen es e hmem =>
      (List.mem_append.mp hmem).elim List.mem_of_mem_filter List.mem_of_mem_filter
  | bringForward ids =>
    exact h.restack ids fun chosen es e => (Element.stepUp_perm chosen es).mem_iff.mp
  | sendBackward ids =>
    exact h.restack ids fun chosen es e => (Element.stepDown_perm chosen es).mem_iff.mp
  | undo | redo | beginBatch | endBatch => contradiction

/-! ## All edits -/

/-- Edits keep a board sound, as long as the numbers stay finite. -/
theorem Sound.perform (h : b.Sound) {e : Edit α} (he : e.Valid)
    (hfin : (b.perform e).2.document.Finite) : (b.perform e).2.Sound := by
  cases hplain : e.isPlain with
  | true =>
    have hproper := h.proper_perform he hplain
    have heffect := b.effect_perform hplain
    generalize b.perform e = o at heffect hproper hfin
    cases heffect with
    | idle hu _ _ => exact h.of_unrecorded hu hproper hfin
    | refused hu => exact h.of_unrecorded hu hproper hfin
    | @done c _ hu =>
      have hdocument := document_changed hfin
      have hc : c.Proper := hproper.of_eq hdocument clipboard_changed
      exact (h.of_unrecorded hu hc (hdocument ▸ hfin)).changed
  | false =>
    cases e with
    | load d reset =>
      cases reset with
      | false => contradiction
      | true =>
        have hsettled : d.settled = d := (Document.Finite.of_settled hfin).settled_eq
        have hvalid : d.settled.Valid := by rwa [hsettled]
        refine ⟨hvalid, hfin, h.clipboard, fun d' hd' => ?_⟩
        obtain rfl : d' = d.settled := List.mem_singleton.mp hd'
        exact ⟨hvalid, hfin⟩
    | undo => exact h.travel fun r hr => History.timeline_of_undo? hr
    | redo => exact h.travel fun r hr => History.timeline_of_redo? hr
    | beginBatch => exact h.commit.withBatching true
    | endBatch => exact (h.withBatching false).commit
    | _ => contradiction

end Board

end Whiteboard

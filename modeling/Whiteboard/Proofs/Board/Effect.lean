import Whiteboard.Board.Edit
import Whiteboard.Proofs.Board.Content

/-!
# Effects

What an edit can do to the history, whatever the numbers are: nothing, if it left the elements and
the viewport as they were or was refused, or else one commit of what came of it
(`Board.effect_perform`). Edits that move the cursor, open or close batches or begin a new history
are no plain edits.
-/

namespace Whiteboard

/-- Whether an edit leaves the cursor and the batch of a board alone. -/
def Edit.isPlain {α : Type} : Edit α → Bool
  | .load _ reset => !reset
  | .undo | .redo | .beginBatch | .endBatch => false
  | _ => true

theorem Outcome.map_eq_ok {α β γ : Type} {o : Outcome α β} {f : β → γ} {y : γ} {c : Board α}
    (h : o.map f = (.ok y, c)) : ∃ v, o = (.ok v, c) := by
  obtain ⟨e | v, d⟩ := o
  · cases h
  · cases h
    exact ⟨v, rfl⟩

theorem Outcome.toBool_map {α β γ : Type} (f : β → γ) (o : Outcome α β) :
    (o.map f).1.toBool = o.1.toBool := by
  obtain ⟨err | v, c⟩ := o <;> rfl

theorem eq_ok_of_toBool {ε β γ : Type} {o : Except ε β × γ} (h : o.1.toBool = true) :
    ∃ v, o = (.ok v, o.2) := by
  obtain ⟨e | v, c⟩ := o
  · contradiction
  · exact ⟨v, rfl⟩

namespace Board

variable {α β γ : Type}

/-- Nothing was recorded between two boards. -/
structure Unrecorded (b c : Board α) : Prop where
  history : c.history = b.history
  batching : c.batching = b.batching

theorem Unrecorded.refl (b : Board α) : Unrecorded b b := ⟨rfl, rfl⟩

theorem Unrecorded.trans {a b c : Board α} (hab : Unrecorded a b) (hbc : Unrecorded b c) :
    Unrecorded a c :=
  ⟨hbc.history.trans hab.history, hbc.batching.trans hab.batching⟩

theorem Unrecorded.withElements (b : Board α) (es : List (Element α)) :
    Unrecorded b (b.withElements es) := ⟨rfl, rfl⟩

variable [Scalar α]

/-- What an edit did to a board. -/
inductive Effect (b : Board α) : Outcome α β → Prop where
  /-- Neither the elements nor the viewport changed. -/
  | idle {c : Board α} {v : β} : Unrecorded b c → c.elements = b.elements →
      c.viewport = b.viewport → Effect b (.ok v, c)
  | refused {c : Board α} {e : EditError} : Unrecorded b c → Effect b (.error e, c)
  | done {c : Board α} {v : β} : Unrecorded b c → Effect b (.ok v, c.changed)

theorem Effect.map {b : Board α} {o : Outcome α β} (h : Effect b o) (f : β → γ) :
    Effect b (o.map f) := by
  cases h with
  | idle hc hes hv => exact .idle hc hes hv
  | refused hc => exact .refused hc
  | done hc => exact .done hc

theorem Effect.andThen {b : Board α} {o : Outcome α β} {f : β → Board α → Outcome α γ}
    (h : Unrecorded b o.2) (hf : ∀ v, Effect b (f v o.2)) : Effect b (o.andThen f) := by
  obtain ⟨v | v, c⟩ := o
  · exact .refused h
  · exact hf v

/-- The last step of an edit that may have been refused. -/
theorem Effect.of_changed {b : Board α} {o : Outcome α β} (h : Unrecorded b o.2) (f : β → γ) :
    Effect b (o.andThen fun v c => (.ok (f v), c.changed)) :=
  .andThen h fun _ => .done h

/-! ## Steps of edits -/

variable (b : Board α)

theorem unrecorded_applyBatch (batch : Batch α) : Unrecorded b (b.applyBatch batch).2 := by
  unfold applyBatch
  split <;> exact ⟨rfl, rfl⟩

/-- Arrows follow, and the edit ends. -/
theorem Effect.of_refreshed {b c : Board α} (h : Unrecorded b c) (moved : List String) (v : β) :
    Effect b ((c.refreshBindings moved).andThen fun _ d => (.ok v, d.changed)) :=
  .of_changed (h.trans (c.unrecorded_applyBatch _)) fun _ => v

/-- Arrows follow if they are to, and the edit ends. -/
theorem Effect.of_followed {b c : Board α} (h : Unrecorded b c) (batch : Batch α) (rebind : Bool)
    (v : β) :
    Effect b ((if rebind then c.followBatch batch else (.ok (), c)).andThen
      fun _ d => (.ok v, d.changed)) := by
  cases rebind with
  | false => exact .done h
  | true => exact .of_changed (h.trans (c.unrecorded_applyBatch _)) fun _ => v

/-! ## Edits -/

theorem effect_add (es : List (Element α)) (v : β) : Effect b (.ok v, b.add es) :=
  .done (.withElements ..)

theorem effect_insert (es : List (Element α)) (v : β) : Effect b (.ok v, b.insert es) :=
  .done ⟨rfl, rfl⟩

theorem effect_delete (ids : List String) (v : β) : Effect b (.ok v, b.delete ids) :=
  .done ⟨rfl, rfl⟩

/-- When none of the elements has an id after its changes, none was changed. -/
theorem elements_of_update_eq_none {id : String} {changes : Changes α} {ids : IdSupply}
    {es : List (Element α)} {failure : Option EditError}
    (happly : Element.applyEach (Batch.changesOf [(id, changes)]) b.ids b.elements
      = (failure, es, ids)) (hnone : es.reverse.find? (·.id == id) = none) : es = b.elements := by
  have hids := Element.map_id_applyEach (Batch.changesOf [(id, changes)]) b.ids b.elements
  rw [happly] at hids
  have hother : ∀ e ∈ b.elements, Batch.changesOf [(id, changes)] e = none := by
    intro e he
    rw [Batch.changesOf_singleton, if_neg]
    rintro rfl
    obtain ⟨e', he', hid⟩ := List.mem_map.mp (hids ▸ List.mem_map_of_mem he)
    have := List.find?_eq_none.mp hnone e' (List.mem_reverse.mpr he')
    simp [hid] at this
  rw [Element.applyEach_of_none hother] at happly
  cases happly
  rfl

theorem effect_update (id : String) (changes : Changes α) (rebind : Bool) :
    Effect b (b.update id changes rebind) := by
  unfold update
  split
  · exact .refused ⟨rfl, rfl⟩
  · next elements ids happly =>
    dsimp only
    split
    · next hnone =>
      exact .idle ⟨rfl, rfl⟩ (b.elements_of_update_eq_none happly hnone) rfl
    · next result _ =>
      refine .of_followed ?_ [(id, changes)] rebind (some result)
      exact ⟨rfl, rfl⟩

theorem effect_updateAll (batch : Batch α) (rebind : Bool) :
    Effect b (b.updateAll batch rebind) := by
  unfold updateAll
  split
  · exact .idle (.refl b) rfl rfl
  · have happlied := b.unrecorded_applyBatch batch
    exact .andThen happlied fun _ => .of_followed happlied batch rebind ()

theorem effect_turnTogether (ids : List String) (angle : α) :
    Effect b (b.turnTogether ids angle) := by
  unfold turnTogether
  split
  · exact .refused (.refl b)
  · exact .of_refreshed (.withElements ..) ids ()

theorem effect_rotate (ids : List String) (angle : α) : Effect b (b.rotate ids angle) := by
  unfold rotate
  split
  · exact .idle (.refl b) rfl rfl
  · exact .of_refreshed (.withElements ..) ids ()
  · exact b.effect_turnTogether ids angle

theorem effect_setRotation (ids : List String) (target : α) :
    Effect b (b.setRotation ids target) := by
  unfold setRotation
  split
  · exact .idle (.refl b) rfl rfl
  · exact .of_refreshed (.withElements ..) ids ()
  · dsimp only
    split
    · exact .idle (.refl b) rfl rfl
    · exact b.effect_turnTogether ids _

theorem effect_updateViewport (changes : Changes α) : Effect b (b.updateViewport changes) := by
  unfold updateViewport
  dsimp only
  split
  · exact .refused (.refl b)
  · exact .done ⟨rfl, rfl⟩

theorem effect_copy : Effect b b.copy := by
  unfold copy copyable
  dsimp only
  split
  · exact .idle ⟨rfl, rfl⟩ rfl rfl
  · exact .refused (.refl b)

theorem effect_paste (v : β) : Effect b (.ok v, b.paste.2) := by
  unfold paste
  split
  · exact .idle (.refl b) rfl rfl
  · exact .done ⟨rfl, rfl⟩

theorem effect_create (kind : ElementKind) (draft : Draft α) : Effect b (b.create kind draft) := by
  unfold create
  split
  · exact .refused ⟨rfl, rfl⟩
  · exact .done ⟨rfl, rfl⟩

theorem effect_createArrow (start finish : Point α) (startBinding finishBinding : Option Binding) :
    Effect b (b.createArrow start finish startBinding finishBinding) := by
  unfold createArrow
  exact .andThen ⟨rfl, rfl⟩ fun _ => .done ⟨rfl, rfl⟩

theorem effect_moveEnd (id : String) (side : ArrowEnd) (p : Point α) (binding : Option Binding) :
    Effect b (b.moveEnd id side p binding) := by
  unfold moveEnd
  split
  · exact .idle (.refl b) rfl rfl
  · exact b.effect_update id _ false

theorem effect_group (ids : List String) : Effect b (b.group ids) := by
  unfold group
  dsimp only
  split
  · exact .idle (.refl b) rfl rfl
  · refine .andThen ⟨rfl, rfl⟩ fun g => .of_refreshed ?_ (ids ++ [g.id]) (some g)
    exact ⟨rfl, rfl⟩

theorem effect_ungroup (ids : List String) : Effect b (b.ungroup ids) := by
  unfold ungroup
  dsimp only
  split
  · exact .idle (.refl b) rfl rfl
  · refine .of_refreshed ?_ _ _
    exact ⟨rfl, rfl⟩

theorem effect_restack (ids : List String)
    (order : (Element α → Bool) → List (Element α) → List (Element α)) (v : β) :
    Effect b (.ok v, b.restack ids order) := by
  unfold restack
  split
  · exact .idle (.refl b) rfl rfl
  · exact .done (.withElements ..)

/-- Every plain edit records what it changed, and nothing else. -/
theorem effect_perform {e : Edit α} (he : e.isPlain = true) : Effect b (b.perform e) := by
  cases e with
  | add es => exact b.effect_add es _
  | insert es => exact b.effect_insert es _
  | update id changes rebind => exact (b.effect_update id changes rebind).map _
  | updateAll batch rebind => exact (b.effect_updateAll batch rebind).map _
  | delete ids => exact b.effect_delete ids _
  | load d reset =>
    cases reset with
    | false => exact .done ⟨rfl, rfl⟩
    | true => contradiction
  | rotate ids angle => exact (b.effect_rotate ids angle).map _
  | setRotation ids target => exact (b.effect_setRotation ids target).map _
  | select ids | toggle id | clearSelection => exact .idle ⟨rfl, rfl⟩ rfl rfl
  | view changes => exact (b.effect_updateViewport changes).map _
  | copy => exact b.effect_copy.map _
  | paste => exact b.effect_paste _
  | create kind draft => exact (b.effect_create kind draft).map _
  | createArrow start finish startBinding finishBinding =>
    exact (b.effect_createArrow start finish startBinding finishBinding).map _
  | moveEnd id side p binding => exact (b.effect_moveEnd id side p binding).map _
  | group ids => exact (b.effect_group ids).map _
  | ungroup ids => exact (b.effect_ungroup ids).map _
  | bringToFront ids | sendToBack ids | bringForward ids | sendBackward ids =>
    exact b.effect_restack ids _ _
  | undo | redo | beginBatch | endBatch => contradiction

end Board

end Whiteboard

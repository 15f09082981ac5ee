import Whiteboard.Proofs.Board.Effect
import Whiteboard.Proofs.Board.Reachable
import Whiteboard.Proofs.Scalar.Double

/-!
# Refused edits

What is left of an edit that is refused because a value did not pass its checks. The selection, the
viewport, the clipboard and the history always stay. The elements stay if those that had taken their
changes by then came out as they were, and only then (`Board.refused_of_error`). An update that goes
through several elements of one id writes each of them before it asks the next.
-/

namespace Whiteboard

theorem Outcome.andThen_eq_error {α β γ : Type} {o : Outcome α β} {f : β → Board α → Outcome α γ}
    {err : EditError} {c : Board α} (h : o.andThen f = (.error err, c)) :
    o = (.error err, c) ∨ ∃ v d, o = (.ok v, d) ∧ f v d = (.error err, c) := by
  obtain ⟨e | v, d⟩ := o
  · cases h
    exact .inl rfl
  · exact .inr ⟨v, d, rfl, h⟩

theorem Outcome.map_eq_error {α β γ : Type} {o : Outcome α β} {f : β → γ} {err : EditError}
    {c : Board α} (h : o.map f = (.error err, c)) : o = (.error err, c) := by
  obtain ⟨e | v, d⟩ := o
  · cases h
    rfl
  · cases h

namespace Element

variable {α : Type} [Scalar α]

/-- Up to the first element that refuses its changes, all come out of them as they were. -/
def Unmoved (changesOf : Element α → Option (Changes α)) (ids : IdSupply) :
    List (Element α) → Prop
  | [] => True
  | e :: rest =>
    match changesOf e with
    | none => Unmoved changesOf ids rest
    | some changes =>
      match e.apply ids changes with
      | (.error _, _) => True
      | (.ok e', ids) => e' = e ∧ Unmoved changesOf ids rest

variable {changesOf : Element α → Option (Changes α)}

theorem applyEach_eq_self_iff (ids : IdSupply) (es : List (Element α)) :
    (applyEach changesOf ids es).2.1 = es ↔ Unmoved changesOf ids es := by
  induction es generalizing ids with
  | nil => exact iff_of_true rfl trivial
  | cons e rest ih =>
    rw [applyEach, Unmoved]
    cases changesOf e with
    | none =>
      rw [← ih, List.cons.injEq]
      exact and_iff_right rfl
    | some changes =>
      dsimp only
      obtain ⟨err | e', ids'⟩ := e.apply ids changes
      · exact iff_of_true rfl trivial
      · dsimp only
        rw [← ih, List.cons.injEq]

/-- If no two elements share an id, the first that has changes is the only one. -/
theorem applyEach_eq_self_of_nodup {id : String} {changes : Changes α} {ids ids' : IdSupply}
    {es es' : List (Element α)} {err : EditError} (hes : (es.map Element.id).Nodup)
    (h : applyEach (Batch.changesOf [(id, changes)]) ids es = (some err, es', ids')) :
    es' = es := by
  induction es generalizing ids es' with
  | nil => cases h
  | cons e rest ih =>
    rw [List.map_cons, List.nodup_cons] at hes
    rw [applyEach, Batch.changesOf_singleton] at h
    by_cases hid : id = e.id
    · rw [if_pos hid] at h
      have hrest : ∀ r ∈ rest, Batch.changesOf [(id, changes)] r = none := by
        intro r hr
        rw [Batch.changesOf_singleton, if_neg]
        rintro rfl
        exact hes.1 (hid ▸ List.mem_map_of_mem hr)
      dsimp only at h
      split at h
      · cases h
        rfl
      · rw [applyEach_of_none hrest] at h
        cases h
    · rw [if_neg hid] at h
      rcases hr : applyEach (Batch.changesOf [(id, changes)]) ids rest with ⟨failure, es₁, ids₁⟩
      rw [hr] at h
      cases h
      rw [ih hes.2 hr]

end Element

/-- Whether an edit reads values that may not pass the checks, and nothing but them. -/
def Edit.isChecked {α : Type} : Edit α → Bool
  | .update .. | .updateAll .. | .view .. | .create .. | .createArrow .. | .moveEnd .. => true
  | _ => false

/-- Whether arrows are to follow what an edit moves. -/
def Edit.rebinds {α : Type} : Edit α → Bool
  | .update _ _ rebind | .updateAll _ rebind => rebind
  | _ => false

namespace Board

variable {α β : Type}

/-- The same apart from the elements and the supply of ids. -/
structure KeptBesides (b c : Board α) : Prop where
  selected : c.selected = b.selected
  viewport : c.viewport = b.viewport
  clipboard : c.clipboard = b.clipboard
  history : c.history = b.history
  batching : c.batching = b.batching
  changes : c.changes = b.changes

theorem KeptBesides.withElements (b : Board α) (es : List (Element α)) (ids : IdSupply) :
    KeptBesides b { b.withElements es with ids } := ⟨rfl, rfl, rfl, rfl, rfl, rfl⟩

theorem KeptBesides.withIds (b : Board α) (ids : IdSupply) : KeptBesides b { b with ids } :=
  ⟨rfl, rfl, rfl, rfl, rfl, rfl⟩

variable [Scalar α] {b c : Board α} {err : EditError}

/-- What an edit has done to the elements by the time it is refused leaves them as they are. -/
def Spared (b : Board α) : Edit α → Prop
  | .update id changes _ => Element.Unmoved (Batch.changesOf [(id, changes)]) b.ids b.elements
  | .updateAll batch _ =>
    (b.applyBatch batch).1.toBool = true → Element.Unmoved batch.changesOf b.ids b.elements
  | .moveEnd id side p binding =>
    ∀ changes, ((b.element? id).bind fun e => endChanges? e side p binding) = some changes →
      Element.Unmoved (Batch.changesOf [(id, changes)]) b.ids b.elements
  | _ => True

/-- A batch that one element refuses is not applied to any. -/
theorem eq_of_applyBatch_refused {batch : Batch α} (h : b.applyBatch batch = (.error err, c)) :
    c = { b with ids := c.ids } := by
  unfold applyBatch at h
  split at h
  · cases h
  · cases h
    rfl

theorem eq_of_applyBatch {batch : Batch α} (h : b.applyBatch batch = (.ok (), c)) :
    c = { b.withElements (Element.applyEach batch.changesOf b.ids b.elements).2.1 with
      ids := c.ids } := by
  unfold applyBatch at h
  split at h
  · next elements ids happly =>
    cases h
    rw [happly]
  · cases h

/-- Where arrows cannot follow, they and all others stay. -/
theorem eq_of_follow_refused {batch : Batch α} {rebind : Bool} {v : β}
    (h : (if rebind then b.followBatch batch else (.ok (), b)).andThen
      (fun _ d => (.ok v, d.changed)) = (.error err, c)) :
    rebind = true ∧ c = { b with ids := c.ids } := by
  rcases Outcome.andThen_eq_error h with h | ⟨_, _, -, h⟩
  · cases rebind with
    | false => cases h
    | true => exact ⟨rfl, eq_of_applyBatch_refused h⟩
  · cases h

theorem eq_of_update_refused {id : String} {changes : Changes α} {rebind : Bool}
    (h : b.update id changes rebind = (.error err, c)) :
    c = { b.withElements
        (Element.applyEach (Batch.changesOf [(id, changes)]) b.ids b.elements).2.1 with
      ids := c.ids } := by
  unfold update at h
  split at h
  · next happly =>
    cases h
    rw [happly]
  · next happly =>
    dsimp only at h
    split at h
    · cases h
    · rw [happly]
      exact (eq_of_follow_refused h).2

/-- Where ids are unique, an update that no arrows follow changes the only element, or none. -/
theorem elements_of_update_refused {id : String} {changes : Changes α}
    (hes : (b.elements.map Element.id).Nodup)
    (h : b.update id changes false = (.error err, c)) : c.elements = b.elements := by
  unfold update at h
  split at h
  · next happly =>
    cases h
    exact Element.applyEach_eq_self_of_nodup hes happly
  · dsimp only at h
    split at h <;> cases h

/-- Either the batch itself was refused, or it had been applied when arrows could not follow. -/
theorem eq_of_updateAll_refused {batch : Batch α} {rebind : Bool}
    (h : b.updateAll batch rebind = (.error err, c)) :
    (b.applyBatch batch).1.toBool = false ∧ c = { b with ids := c.ids } ∨
      rebind = true ∧ (b.applyBatch batch).1.toBool = true ∧
        c = { b.withElements (Element.applyEach batch.changesOf b.ids b.elements).2.1 with
          ids := c.ids } := by
  unfold updateAll at h
  split at h
  · cases h
  · rcases Outcome.andThen_eq_error h with h | ⟨v, d, hd, h⟩
    · exact .inl ⟨by rw [h]; rfl, eq_of_applyBatch_refused h⟩
    · obtain ⟨hrebind, hc⟩ := eq_of_follow_refused h
      refine .inr ⟨hrebind, by rw [hd]; rfl, ?_⟩
      rw [hc, eq_of_applyBatch hd]

theorem eq_of_updateViewport_refused {changes : Changes α}
    (h : b.updateViewport changes = (.error err, c)) : c = b := by
  unfold updateViewport at h
  dsimp only at h
  split at h
  · cases h
    rfl
  · cases h

theorem eq_of_create_refused {kind : ElementKind} {draft : Draft α}
    (h : b.create kind draft = (.error err, c)) : c = { b with ids := c.ids } := by
  unfold create at h
  split at h
  · cases h
    rfl
  · cases h

theorem eq_of_createArrow_refused {start finish : Point α}
    {startBinding finishBinding : Option Binding}
    (h : b.createArrow start finish startBinding finishBinding = (.error err, c)) :
    c = { b with ids := c.ids } := by
  rcases Outcome.andThen_eq_error h with h | ⟨_, _, -, h⟩
  · have hc : { b with ids := b.ids.next } = c := congrArg Prod.snd h
    subst hc
    rfl
  · cases h

/-- What is left of an edit that was refused. -/
structure Refused (b : Board α) (e : Edit α) (c : Board α) : Prop where
  kept : KeptBesides b c
  /-- No element came, went or changed places. -/
  order : c.elements.map Element.id = b.elements.map Element.id
  elements_iff : c.elements = b.elements ↔ b.Spared e
  /-- Where ids are unique, only arrows that cannot follow leave a mark. -/
  elements_of_nodup : (b.elements.map Element.id).Nodup → e.rebinds = false →
    c.elements = b.elements

theorem Refused.of_withIds {e : Edit α} (h : c = { b with ids := c.ids }) (he : b.Spared e) :
    Refused b e c := by
  rw [h]
  exact ⟨.withIds b c.ids, rfl, iff_of_true rfl he, fun _ _ => rfl⟩

/-- The elements that took their changes, and those after them that did not, are left. -/
theorem Refused.of_applyEach {e : Edit α} {changesOf : Element α → Option (Changes α)}
    (h : c = { b.withElements (Element.applyEach changesOf b.ids b.elements).2.1 with
      ids := c.ids })
    (he : b.Spared e ↔ Element.Unmoved changesOf b.ids b.elements)
    (hes : (b.elements.map Element.id).Nodup → e.rebinds = false → c.elements = b.elements) :
    Refused b e c := by
  refine ⟨?_, ?_, ?_, hes⟩
  · rw [h]
    exact .withElements ..
  · rw [h]
    exact Element.map_id_applyEach changesOf b.ids b.elements
  · rw [h, he]
    exact Element.applyEach_eq_self_iff b.ids b.elements

/-- A refused edit changes nothing besides the elements, and these only where some of them had
taken their changes. -/
theorem refused_of_error {e : Edit α} (he : e.isChecked = true)
    (h : b.perform e = (.error err, c)) : Refused b e c := by
  cases e with
  | update id changes rebind =>
    have h := Outcome.map_eq_error h
    refine .of_applyEach (eq_of_update_refused h) .rfl fun hes hrebind => ?_
    cases hrebind
    exact elements_of_update_refused hes h
  | updateAll batch rebind =>
    rcases eq_of_updateAll_refused (Outcome.map_eq_error h) with ⟨hbatch, hc⟩ | ⟨hr, hbatch, hc⟩
    · exact .of_withIds hc fun happlied =>
        absurd (hbatch.symm.trans happlied) Bool.false_ne_true
    · refine .of_applyEach hc ⟨fun hspared => hspared hbatch, fun hsame _ => hsame⟩ ?_
      exact fun _ hrebind => absurd (hrebind.symm.trans hr) Bool.false_ne_true
  | view changes =>
    rw [eq_of_updateViewport_refused (Outcome.map_eq_error h)]
    exact .of_withIds rfl trivial
  | create kind draft => exact .of_withIds (eq_of_create_refused (Outcome.map_eq_error h)) trivial
  | createArrow start finish startBinding finishBinding =>
    exact .of_withIds (eq_of_createArrow_refused (Outcome.map_eq_error h)) trivial
  | moveEnd id side p binding =>
    have h := Outcome.map_eq_error h
    unfold moveEnd at h
    split at h
    · cases h
    · next changes hchanges =>
      refine .of_applyEach (eq_of_update_refused h) ⟨fun hspared => hspared changes hchanges, ?_⟩
        fun hes _ => elements_of_update_refused hes h
      intro hsame changes' hchanges'
      cases hchanges.symm.trans hchanges'
      exact hsame
  | _ => contradiction

/-! ## Elements of one id -/

/-- A rectangle and an image that share an id. -/
def twins : Board Double :=
  Board.start .counting
    [.newShape "a" .rectangle { x := 0, y := 0 }, .image ⟨"a", 0, 0, 10, 10, 0, 0⟩ ⟨"s", .none⟩]
    .initial 50

/-- Changes that a rectangle takes and an image does not. -/
def misfit : Edit Double := .update "a" [("x", .num 5), ("filter", .str "nope")] false

theorem refused_of_error_twins : ∃ err c, twins.perform misfit = (.error err, c) ∧
    misfit.isChecked = true ∧ Refused twins misfit c := by
  have hrefused : (twins.perform misfit).1.toBool = false := by decide +kernel
  rcases h : twins.perform misfit with ⟨err | y, c⟩
  · exact ⟨err, c, rfl, rfl, refused_of_error rfl h⟩
  · rw [h] at hrefused
    contradiction

/-- The image refuses, and the rectangle has moved. -/
theorem not_kept_twins : Reachable 50 twins ∧ ∃ err c, twins.perform misfit = (.error err, c) ∧
    c.elements ≠ twins.elements := by
  have hstart : Reachable 50 twins := by
    refine .start (List.forall_mem_cons.mpr ⟨Element.valid_newShape .., ?_⟩) (by decide +kernel)
      (by decide +kernel)
    exact List.forall_mem_singleton.mpr
      (.image ⟨by decide +kernel, by decide +kernel, Scalar.normalizeAngle_zero⟩)
  have hrest : (twins.elements.all fun e => e.frame.x == 0) = true := by decide +kernel
  have hmoved : ((twins.perform misfit).2.elements.all fun e => e.frame.x == 0) = false := by
    decide +kernel
  have hrefused : (twins.perform misfit).1.toBool = false := by decide +kernel
  refine ⟨hstart, ?_⟩
  rcases h : twins.perform misfit with ⟨err | y, c⟩
  · rw [h] at hmoved
    exact ⟨err, c, rfl, fun hsame => Bool.false_ne_true ((hsame ▸ hmoved).symm.trans hrest)⟩
  · rw [h] at hrefused
    contradiction

end Board

end Whiteboard

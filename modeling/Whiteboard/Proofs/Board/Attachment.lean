import Mathlib
import Whiteboard.Proofs.Board.Identity
import Whiteboard.Proofs.Board.Range
import Whiteboard.Proofs.Board.Refusal
import Whiteboard.Proofs.Document.Attachment

/-!
# Arrows stay attached

With exact numbers, edits that let arrows follow leave every bound end on its anchor, as long as no
two elements share an id and no arrow is bound to an arrow (`Board.coherent_perform`).
-/

namespace Whiteboard

/-- Edits after which arrows follow what moved. -/
def Board.Follows {α : Type} (b : Board α) : Edit α → Prop
  | .update id changes rebind => rebind = true ∧ Batch.SparesArrows [(id, changes)] b.elements
  | .updateAll batch rebind => rebind = true ∧ batch.SparesArrows b.elements
  | .rotate .. | .setRotation .. | .group _ | .ungroup _ | .delete _ | .bringToFront _
  | .sendToBack _ | .bringForward _ | .sendBackward _ => True
  | _ => False

namespace Board

open Element

variable {α β : Type}

/-- Where a batch names no arrow, arrows are bound anew as if it were not there. -/
theorem changesOf_followed [Scalar α] {c : Board α} {batch : Batch α}
    (hids : (c.elements.map Element.id).Nodup)
    (hunnamed : ∀ t ∈ c.elements, t.isArrow = true → ¬ Entries.has t.id batch = true) :
    ∀ e ∈ c.elements, Batch.changesOf ((rebindings batch.movedIds c.elements false).filter
        fun m => !Entries.has m.1 batch) e
      = (e.rebound? batch.movedIds c.elements false).map ArrowGeometry.toChanges := by
  intro e he
  refine (Entries.get?_filter (fun id => !Entries.has id batch) e.id _).trans ?_
  split
  · exact get?_rebindings hids he
  · next hnamed =>
    have hnone : e.rebound? batch.movedIds c.elements false = none := by
      cases hrebound : e.rebound? batch.movedIds c.elements false with
      | none => rfl
      | some g =>
        obtain ⟨f, s, _, _, rfl, -⟩ := of_rebound?_eq_some hrebound
        simp at hnamed
        exact absurd hnamed (hunnamed _ he rfl)
    rw [hnone, Option.map_none]

variable [Field α] [LinearOrder α] [FloorRing α] [Trigonometry α] [IsStrictOrderedRing α]
  {b c : Board α} {es₀ : List (Element α)}

theorem elements_changed (c : Board α) : c.changed.elements = c.elements :=
  congrArg Document.elements (document_changed (finite_of_exact _))

/-! ## Steps of edits -/

section Steps

variable {moved : List String} {withMoved : Bool} {batch : Batch α}

/-- Valid arrows do not refuse to follow. -/
theorem applied_of_rebound {changesOf : Element α → Option (Changes α)}
    (hch : ∀ e ∈ c.elements, changesOf e
      = (e.rebound? moved c.elements withMoved).map ArrowGeometry.toChanges)
    (harrows : ∀ a ∈ c.elements, a.isArrow = true → a.Valid) :
    (applyEach changesOf c.ids c.elements).1 = none := by
  refine applyEach_of_places (fun e he changes hchanges => ?_) c.ids
  rw [hch e he, Option.map_eq_some_iff] at hchanges
  obtain ⟨g, hg, rfl⟩ := hchanges
  have hplaces := places_of_rebound? hg fun _ _ => rfl
  obtain ⟨f, s, _, _, rfl, -⟩ := of_rebound?_eq_some hg
  exact ⟨harrows _ he rfl, Nat.zero_le _, hplaces⟩

variable (withMoved) in
/-- When arrows have followed what moved, all are attached. -/
theorem coherent_applied (h₀ : Coherent es₀) (hids : (c.elements.map Element.id).Nodup)
    (hspare : SparesArrows c.elements)
    (hes : ∀ t ∈ c.elements, t.id ∉ moved → ∃ t₀ ∈ es₀, Alike t₀ t)
    (hself : withMoved = true ∨ ∀ t ∈ c.elements, t.isArrow = true → t.id ∉ moved)
    (hch : ∀ e ∈ c.elements, batch.changesOf e
      = (e.rebound? moved c.elements withMoved).map ArrowGeometry.toChanges) (v : β)
    (hok : (∀ a ∈ c.elements, a.isArrow = true → a.Valid) ∨
      ((c.applyBatch batch).andThen fun _ d => (.ok v, d.changed)).1.toBool = true) :
    Coherent ((c.applyBatch batch).andThen fun _ d => (.ok v, d.changed)).2.elements := by
  have hdone := applied_of_rebound hch
  unfold applyBatch at hok ⊢
  rcases happly : applyEach batch.changesOf c.ids c.elements with ⟨failure, es, ids⟩
  rw [happly] at hok hdone
  cases failure with
  | none =>
    have hcoherent : Coherent es := coherent_of_rebound hids hspare hch
      (fun e he => attached_of_rebound?_eq_none h₀ hes hself he) happly
    dsimp only [Outcome.andThen]
    rwa [elements_changed]
  | some err =>
    rcases hok with harrows | hok
    · exact absurd (hdone harrows) (Option.some_ne_none err)
    · exact absurd hok Bool.false_ne_true

theorem coherent_refreshed (h₀ : Coherent es₀) (hids : (c.elements.map Element.id).Nodup)
    (hspare : SparesArrows c.elements)
    (hes : ∀ t ∈ c.elements, t.id ∉ moved → ∃ t₀ ∈ es₀, Alike t₀ t) (v : β)
    (hok : (∀ a ∈ c.elements, a.isArrow = true → a.Valid) ∨
      ((c.refreshBindings moved).andThen fun _ d => (.ok v, d.changed)).1.toBool = true) :
    Coherent ((c.refreshBindings moved).andThen fun _ d => (.ok v, d.changed)).2.elements :=
  coherent_applied true h₀ hids hspare hes (.inl rfl) (fun _ he => get?_rebindings hids he) v hok

end Steps

/-! ## Updates -/

section Updates

variable {batch : Batch α}

/-- The end of an update that arrows follow. -/
theorem coherent_followed (h₀ : Coherent b.elements) (hids : (b.elements.map Element.id).Nodup)
    (hspare : SparesArrows b.elements) (hbatch : batch.SparesArrows b.elements)
    {ids ids' : IdSupply} {es : List (Element α)}
    (happly : applyEach batch.changesOf ids b.elements = (none, es, ids')) (v : β)
    (hc : c.elements = es)
    (hok : (∀ a ∈ b.elements, a.Valid) ∨
      ((c.followBatch batch).andThen fun _ d => (.ok v, d.changed)).1.toBool = true) :
    Coherent ((c.followBatch batch).andThen fun _ d => (.ok v, d.changed)).2.elements := by
  have htook : ∀ t ∈ c.elements, ∃ t₀ ∈ b.elements, Took batch.changesOf t₀ t :=
    hc ▸ exists_took happly
  have hstays : ∀ t ∈ c.elements, t.isArrow = true →
      t ∈ b.elements ∧ batch.changesOf t = none := by
    intro t ht harrow
    obtain ⟨t₀, hmem, htook⟩ := htook t ht
    obtain ⟨rfl, hnone⟩ := (alike_of_took hbatch hmem htook).1 harrow
    exact ⟨hmem, hnone⟩
  have hids' : (c.elements.map Element.id).Nodup := by
    have hmap := map_id_applyEach batch.changesOf ids b.elements
    rw [happly] at hmap
    rwa [hc, hmap]
  have hunnamed : ∀ t ∈ c.elements, t.isArrow = true → ¬ Entries.has t.id batch = true := by
    intro t ht harrow
    have hnone : Entries.get? t.id batch = none := (hstays t ht harrow).2
    rw [Entries.has, hnone]
    exact Bool.false_ne_true
  have hself : ∀ t ∈ c.elements, t.isArrow = true → t.id ∉ batch.movedIds :=
    fun t ht harrow hmoved => hunnamed t ht harrow (Batch.has_of_mem_movedIds hmoved)
  refine coherent_applied false h₀ hids' ?_ ?_ (.inr hself) ?_ v ?_
  · exact hspare.of_same fun t ht harrow =>
      ⟨t, (hstays t ht harrow).1, (Alike.refl t).same harrow⟩
  · intro t ht hmoved
    obtain ⟨t₀, hmem, htook⟩ := htook t ht
    exact ⟨t₀, hmem, (alike_of_took hbatch hmem htook).2 hmoved⟩
  · exact changesOf_followed hids' hunnamed
  · exact hok.imp_left fun hvalid t ht harrow => hvalid t (hstays t ht harrow).1

end Updates

/-! ## Edits -/

section Edits

variable (h : Coherent b.elements) (hids : (allIds b.elements).Nodup)
  (hspare : SparesArrows (partsOf b.elements))

include h

theorem coherent_delete (ids : List String) : Coherent (b.delete ids).elements := by
  rw [delete, elements_changed]
  exact h.of_alike fun t ht => ⟨t, List.mem_of_mem_filter ht, .refl t⟩

theorem coherent_restack (ids : List String)
    {order : (Element α → Bool) → List (Element α) → List (Element α)}
    (horder : ∀ chosen es, (order chosen es).Perm es) :
    Coherent (b.restack ids order).elements := by
  unfold restack
  split
  · exact h
  · dsimp only
    rw [elements_changed]
    refine h.of_alike fun t ht => ?_
    obtain ⟨⟨e, i⟩, hi, rfl⟩ := List.mem_map.mp ht
    have hmem := ((horder _ _).trans (stacked_perm b.elements)).subset
      (List.fst_mem_of_mem_zipIdx hi)
    exact ⟨e, hmem, alike_withFrame e rfl rfl⟩

include hids hspare

theorem coherent_update {id : String} {changes : Changes α}
    (hbatch : Batch.SparesArrows [(id, changes)] b.elements)
    (hok : (∀ a ∈ b.elements, a.Valid) ∨ (b.update id changes true).1.toBool = true) :
    Coherent (b.update id changes true).2.elements := by
  have hids := nodup_of_allIds hids
  have hspare := hspare.mono (subset_partsOf b.elements)
  unfold update at hok ⊢
  split
  · next happly =>
    rw [show Board.elements _ = b.elements from applyEach_eq_self_of_nodup hids happly]
    exact h
  · next es ids happly =>
    rw [happly] at hok
    dsimp only at hok ⊢
    split
    · next hnone =>
      rw [show Board.elements _ = b.elements from b.elements_of_update_eq_none happly hnone]
      exact h
    · next result hresult =>
      rw [hresult] at hok
      exact coherent_followed h hids hspare hbatch happly (some result) rfl hok

theorem coherent_updateAll {batch : Batch α} (hbatch : batch.SparesArrows b.elements)
    (hok : (∀ a ∈ b.elements, a.Valid) ∨ (b.updateAll batch true).1.toBool = true) :
    Coherent (b.updateAll batch true).2.elements := by
  have hids := nodup_of_allIds hids
  have hspare := hspare.mono (subset_partsOf b.elements)
  unfold updateAll at hok ⊢
  split
  · exact h
  · next hne =>
    rw [if_neg hne] at hok
    unfold applyBatch at hok ⊢
    rcases happly : applyEach batch.changesOf b.ids b.elements with ⟨failure, es, ids⟩
    rw [happly] at hok
    cases failure with
    | some err => exact h
    | none => exact coherent_followed h hids hspare hbatch happly () rfl hok

/-- Elements that turn take the arrows along that are bound to them. -/
theorem coherent_rotated (ids : List String) {change : Frame α → Frame α}
    (hid : ∀ f, (change f).id = f.id) (hvalid : ∀ f, f.Valid → (change f).Valid)
    (hok : (∀ a ∈ b.elements, a.Valid) ∨ ((b.mapFrames ids change).rotated ids).1.toBool = true) :
    Coherent ((b.mapFrames ids change).rotated ids).2.elements := by
  have hturned : ∀ t ∈ (b.mapFrames ids change).elements, ∃ e ∈ b.elements,
      t.id = e.id ∧ t.arrow? = e.arrow? ∧ (t.id ∉ ids → t = e) ∧ (e.Valid → t.Valid) := by
    intro t ht
    obtain ⟨e, hmem, rfl⟩ := List.mem_map.mp ht
    refine ⟨e, hmem, ?_⟩
    split
    · next hchosen =>
      have hsame : (e.mapFrame change).id = e.id := by
        rw [Element.id, frame_mapFrame, hid]
        rfl
      refine ⟨hsame, e.arrow?_withFrame _, fun hnot => ?_, fun he => he.withFrame (hvalid _ he.frame)⟩
      exact absurd (List.contains_iff_mem.mp hchosen) (hsame ▸ hnot)
    · exact ⟨rfl, rfl, fun _ => rfl, fun he => he⟩
  have hids' := (sameRoster_mapFrames (b := b) ids hid).nodup_iff.mpr hids
  refine coherent_refreshed h (nodup_of_allIds hids') ?_ ?_ () ?_
  · refine hspare.of_same fun t ht harrow => ?_
    obtain ⟨e, hmem, hid, hsame, -, -⟩ := hturned t ht
    refine ⟨e, subset_partsOf _ hmem, hid, ?_, ?_⟩
    · rw [isArrow, ← hsame]
      exact harrow
    · rw [bindings, hsame, bindings]
  · intro t ht hmoved
    obtain ⟨e, hmem, -, -, hsame, -⟩ := hturned t ht
    exact ⟨e, hmem, hsame hmoved ▸ .refl t⟩
  · refine hok.imp_left fun hall t ht _ => ?_
    obtain ⟨e, hmem, -, -, -, hvalid⟩ := hturned t ht
    exact hvalid (hall e hmem)

theorem coherent_turnTogether (ids : List String) (angle : α)
    (hok : (∀ a ∈ b.elements, a.Valid) ∨ (b.turnTogether ids angle).1.toBool = true) :
    Coherent (b.turnTogether ids angle).2.elements := by
  unfold turnTogether at hok ⊢
  split
  · exact h
  · next hangle =>
    rw [if_neg hangle] at hok
    refine coherent_rotated h hids hspare ids (fun _ => rfl) (fun f hf => ?_) hok
    exact hf.proper_turned f.id _ _ _ f.zIndex fun _ _ => rfl

theorem coherent_rotate (ids : List String) (angle : α)
    (hok : (∀ a ∈ b.elements, a.Valid) ∨ (b.rotate ids angle).1.toBool = true) :
    Coherent (b.rotate ids angle).2.elements := by
  unfold rotate at hok ⊢
  rcases hchosen : among ids b.elements with _ | ⟨first, _ | ⟨second, rest⟩⟩
  · exact h
  · rw [hchosen] at hok
    refine coherent_rotated h hids hspare ids (fun _ => rfl) (fun f hf => ?_) hok
    exact hf.proper_turned f.id _ _ _ f.zIndex fun _ _ => rfl
  · rw [hchosen] at hok
    exact coherent_turnTogether h hids hspare ids angle hok

theorem coherent_setRotation (ids : List String) (target : α)
    (hok : (∀ a ∈ b.elements, a.Valid) ∨ (b.setRotation ids target).1.toBool = true) :
    Coherent (b.setRotation ids target).2.elements := by
  unfold setRotation at hok ⊢
  rcases hchosen : among ids b.elements with _ | ⟨first, _ | ⟨second, rest⟩⟩
  · exact h
  · rw [hchosen] at hok
    refine coherent_rotated h hids hspare ids (fun _ => rfl) (fun f hf => ?_) hok
    exact hf.proper_turned f.id _ _ _ f.zIndex fun _ _ => rfl
  · rw [hchosen] at hok
    dsimp only at hok ⊢
    split
    · exact h
    · next hturns =>
      rw [if_neg hturns] at hok
      exact coherent_turnTogether h hids hspare ids _ hok

theorem coherent_group (hfresh : b.ids.elementId ∉ allIds b.elements) (ids : List String)
    (hok : (∀ a ∈ b.elements, a.Valid) ∨ (b.group ids).1.toBool = true) :
    Coherent (b.group ids).2.elements := by
  unfold group at hok ⊢
  dsimp only at hok ⊢
  split
  · exact h
  · next hmany =>
    rw [if_neg hmany] at hok
    rcases hmade : groupOf b.ids.elementId (among ids b.elements) with g | issues
    · rw [hmade] at hok
      have hgroup : g.isArrow = false := by
        obtain ⟨f, -, rfl⟩ := Checked.map_eq_ok_iff.mp hmade
        rfl
      have hmem : ∀ t ∈ without ids b.elements ++ [g], t.isArrow = true ∨ t.id ≠ g.id →
          t ∈ b.elements := by
        intro t ht hother
        rcases List.mem_append.mp ht with ht | ht
        · exact List.mem_of_mem_filter ht
        · obtain rfl := List.mem_singleton.mp ht
          rcases hother with harrow | hne
          · exact absurd (hgroup.symm.trans harrow) Bool.false_ne_true
          · exact absurd rfl hne
      have hnodup : (allIds (without ids b.elements ++ [g])).Nodup := by
        have hroster := (rosterOf_grouped hmade).map Prod.fst
        rw [← allIds_eq, List.map_cons, ← allIds_eq] at hroster
        exact hroster.nodup_iff.mpr (List.nodup_cons.mpr ⟨hfresh, hids⟩)
      refine coherent_refreshed h ?_ ?_ ?_ (some g) ?_
      · exact nodup_of_allIds hnodup
      · exact hspare.of_same fun t ht harrow =>
          ⟨t, subset_partsOf _ (hmem t ht (.inl harrow)), (Alike.refl t).same harrow⟩
      · intro t ht hmoved
        rw [List.mem_append, List.mem_singleton, not_or] at hmoved
        exact ⟨t, hmem t ht (.inr hmoved.2), .refl t⟩
      · exact hok.imp_left fun hvalid t ht harrow => hvalid t (hmem t ht (.inl harrow))
    · exact h

/-- What is released from groups binds as it did inside, and is bound anew. -/
theorem coherent_ungroup (ids : List String)
    (hok : (∀ a ∈ b.elements, a.Valid) ∨ (b.ungroup ids).1.toBool = true) :
    Coherent (b.ungroup ids).2.elements := by
  have hroster := rosterOf_ungrouped (nodup_of_allIds hids) ids
  unfold ungroup at hok ⊢
  dsimp only at hroster hok ⊢
  split
  · exact h
  · next hsome =>
    rw [if_neg hsome] at hok
    generalize hgs : (among ids b.elements).filter Element.isGroup = gs at hroster hok
    have hgroup : ∀ g ∈ gs, g ∈ b.elements := by
      intro g hg
      rw [← hgs] at hg
      exact List.mem_of_mem_filter (List.mem_of_mem_filter hg)
    have hreleased : ∀ t ∈ gs.flatMap released, ∃ g ∈ b.elements, ∃ e ∈ g.children,
        t ∈ g.released ∧ t.id = e.id ∧ t.isArrow = e.isArrow ∧ t.bindings = e.bindings := by
      intro t ht
      obtain ⟨g, hg, ht⟩ := List.mem_flatMap.mp ht
      obtain ⟨e, he, rfl⟩ := List.mem_map.mp ht
      obtain ⟨hid, harrow, hbindings⟩ := same_rescaled _ _ e _
      exact ⟨g, hgroup g hg, e, he, ht, hid, harrow, hbindings⟩
    have hnodup : (allIds (without (gs.map Element.id) b.elements ++ gs.flatMap released)).Nodup := by
      have hperm := hroster.map Prod.fst
      rw [List.map_append, ← allIds_eq, ← allIds_eq] at hperm
      exact (List.nodup_append'.mp (hperm.nodup_iff.mp hids)).2.1
    refine coherent_refreshed h ?_ ?_ ?_ _ ?_
    · exact nodup_of_allIds hnodup
    · refine hspare.of_same fun t ht harrow => ?_
      rcases List.mem_append.mp ht with ht | ht
      · exact ⟨t, subset_partsOf _ (List.mem_of_mem_filter ht), (Alike.refl t).same harrow⟩
      · obtain ⟨g, hg, e, he, -, hid, hsame, hbindings⟩ := hreleased t ht
        exact ⟨e, mem_partsOf_of_child hg he, hid, hsame ▸ harrow, hbindings⟩
    · intro t ht hmoved
      rw [List.mem_append, not_or] at hmoved
      rcases List.mem_append.mp ht with ht | ht
      · exact ⟨t, List.mem_of_mem_filter ht, .refl t⟩
      · exact absurd (List.mem_map_of_mem ht) hmoved.2
    · refine hok.imp_left fun hvalid t ht _ => ?_
      rcases List.mem_append.mp ht with ht | ht
      · exact hvalid t (List.mem_of_mem_filter ht)
      · obtain ⟨g, hg, -, -, ht, -⟩ := hreleased t ht
        exact (hvalid g hg).proper_released t ht fun _ _ => rfl

end Edits

/-- Every edit after which arrows follow leaves them attached. It is enough that the edit is not
refused; where all elements are valid, nothing is asked of it. -/
theorem coherent_perform {e : Edit α} (he : b.Follows e) (hids : (allIds b.elements).Nodup)
    (hfresh : b.ids.elementId ∉ allIds b.elements) (hspare : SparesArrows (partsOf b.elements))
    (hok : (∀ a ∈ b.elements, a.Valid) ∨ (b.perform e).1.toBool = true)
    (h : Coherent b.elements) : Coherent (b.perform e).2.elements := by
  cases e with
  | update id changes rebind =>
    obtain ⟨rfl, hbatch⟩ := he
    exact coherent_update h hids hspare hbatch (hok.imp_right (Outcome.toBool_map ..).symm.trans)
  | updateAll batch rebind =>
    obtain ⟨rfl, hbatch⟩ := he
    exact coherent_updateAll h hids hspare hbatch (hok.imp_right (Outcome.toBool_map ..).symm.trans)
  | delete ids => exact coherent_delete h ids
  | rotate ids angle =>
    exact coherent_rotate h hids hspare ids angle (hok.imp_right (Outcome.toBool_map ..).symm.trans)
  | setRotation ids target =>
    exact coherent_setRotation h hids hspare ids target
      (hok.imp_right (Outcome.toBool_map ..).symm.trans)
  | group ids =>
    exact coherent_group h hids hspare hfresh ids (hok.imp_right (Outcome.toBool_map ..).symm.trans)
  | ungroup ids =>
    exact coherent_ungroup h hids hspare ids (hok.imp_right (Outcome.toBool_map ..).symm.trans)
  | bringToFront ids =>
    exact coherent_restack h ids fun chosen es =>
      List.perm_append_comm.trans (List.filter_append_perm chosen es)
  | sendToBack ids => exact coherent_restack h ids List.filter_append_perm
  | bringForward ids => exact coherent_restack h ids stepUp_perm
  | sendBackward ids => exact coherent_restack h ids stepDown_perm
  | _ => contradiction

/-- An arrow between the corners of two rectangles, which are turned around the middle between
them. -/
theorem coherent_perform_rotate :
    let r : Element ℝ := .newShape "r" .rectangle { x := 0, y := 0 }
    let q : Element ℝ := .newShape "q" .rectangle { x := 180, y := 0 }
    let arrow : Element ℝ := .shape (Draft.frame { x := 0, y := 0 } "a" 180 60) .arrow
      { Shape.blankArrow with
        start := some ⟨0, 0⟩
        finish := some ⟨180, 0⟩
        startBinding := some ⟨"r", .topLeft⟩
        finishBinding := some ⟨"q", .topLeft⟩ }
    let b : Board ℝ := Board.start .counting [r, q, arrow] .initial 50
    Coherent b.elements ∧ (∀ a ∈ b.elements, a.Valid) ∧
      Coherent (b.perform (.rotate ["r", "q"] 90)).2.elements := by
  intro r q arrow b
  have hes : b.elements = [r, q, arrow] :=
    congrArg Document.elements (Document.settled_eq_self (fun _ => rfl) _)
  have hids : (allIds b.elements).Nodup := by decide
  have hfresh : b.ids.elementId ∉ allIds b.elements := by decide
  have hr : ∀ t ∈ b.elements, t.id = "r" → t = r := fun t ht hid =>
    List.inj_on_of_nodup_map (nodup_of_allIds hids) ht (hes ▸ List.mem_cons_self) hid
  have hq : ∀ t ∈ b.elements, t.id = "q" → t = q := fun t ht hid =>
    List.inj_on_of_nodup_map (nodup_of_allIds hids) ht
      (hes ▸ List.mem_cons_of_mem _ List.mem_cons_self) hid
  have harrow : ∀ e ∈ b.elements, e.arrow? ≠ none → e = arrow := by
    rw [hes]
    refine List.forall_mem_cons.mpr ⟨fun h => absurd rfl h, List.forall_mem_cons.mpr
      ⟨fun h => absurd rfl h, List.forall_mem_singleton.mpr fun _ => rfl⟩⟩
  have hcoherent : Coherent b.elements := by
    intro e he s hs p₁ hp₁ p₂ hp₂
    obtain rfl := harrow e he fun hnone => by simp [hnone] at hs
    cases hs
    cases hp₁
    cases hp₂
    constructor
    · rintro bd ⟨⟩ t ht hid
      rw [hr t ht hid]
      exact congrArg₂ Point.mk (zero_add 0) (zero_add 0)
    · rintro bd ⟨⟩ t ht hid
      rw [hq t ht hid]
      exact congrArg₂ Point.mk (zero_add 180) (zero_add 0)
  have hvalid : ∀ a ∈ b.elements, a.Valid := by
    rw [hes]
    refine List.forall_mem_cons.mpr ⟨valid_newShape .., List.forall_mem_cons.mpr
      ⟨valid_newShape .., List.forall_mem_singleton.mpr (.shape ?_ ?_)⟩⟩
    · refine Draft.valid_frame _ "a" ?_ ?_ <;>
      · simp only [Scalar.instOfNat_eq, Nat.cast_zero]
        exact Nat.cast_nonneg _
    · exact Shape.valid_of_curve_eq_zero rfl
  have hspare : SparesArrows (partsOf b.elements) := by
    have hparts : partsOf b.elements = b.elements := by
      rw [hes]
      rfl
    rw [hparts]
    intro a ha bd hbd t ht hid
    obtain rfl := harrow a ha fun hnone => by simp [bindings, hnone] at hbd
    rcases (mem_bindings rfl _).mp hbd with hbd | hbd
    · cases hbd
      rw [hr t ht hid]
      rfl
    · cases hbd
      rw [hq t ht hid]
      rfl
  exact ⟨hcoherent, hvalid, coherent_perform trivial hids hfresh hspare (.inl hvalid) hcoherent⟩

end Board

end Whiteboard

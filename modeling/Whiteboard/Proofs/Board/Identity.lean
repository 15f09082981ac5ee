import Mathlib.Data.List.Perm.Subperm
import Whiteboard.Proofs.Board.Lasting
import Whiteboard.Proofs.Document.Made
import Whiteboard.Proofs.Document.Rebinding
import Whiteboard.Proofs.Scalar.Double

/-!
# Identity of elements

No two elements of a board share an id, at whatever depth of groups, as long as new ids are fresh
(`Board.distinct_of_run`). An edit leaves no more ids than there were and were made
(`Board.traced_perform`), and edits that only rearrange elements neither lose nor double one
(`Board.leafIds_perform`).
-/

namespace Whiteboard

namespace Board

variable {α β γ : Type}

open Element

/-- The same elements, at whatever depth and in whatever order, and no new id. -/
structure SameRoster (b c : Board α) : Prop where
  roster : (rosterOf c.elements).Perm (rosterOf b.elements)
  ids : c.ids = b.ids

theorem SameRoster.refl (b : Board α) : SameRoster b b := ⟨.refl _, rfl⟩

theorem SameRoster.trans {a b c : Board α} (hab : SameRoster a b) (hbc : SameRoster b c) :
    SameRoster a c :=
  ⟨hbc.roster.trans hab.roster, hbc.ids.trans hab.ids⟩

theorem SameRoster.nodup_iff {b c : Board α} (h : SameRoster b c) :
    (allIds c.elements).Nodup ↔ (allIds b.elements).Nodup := by
  rw [allIds_eq, allIds_eq]
  exact (h.roster.map Prod.fst).nodup_iff

theorem SameRoster.withElements {b : Board α} {es : List (Element α)}
    (h : (rosterOf es).Perm (rosterOf b.elements)) : SameRoster b (b.withElements es) := ⟨h, rfl⟩

theorem sameRoster_mapFrames {b : Board α} (ids : List String) {change : Frame α → Frame α}
    (h : ∀ f, (change f).id = f.id) : SameRoster b (b.mapFrames ids change) := by
  refine .withElements (.of_eq (rosterOf_map fun e _ => ?_))
  split
  · exact roster_withFrame e (h e.frame)
  · rfl

/-- The ids that were issued from one board to another. -/
def newIds (b c : Board α) : List String := b.ids.elementIds (c.ids.issued - b.ids.issued)

/-- Each id stood there before or is new, no more often than it stands there now. -/
def Traced (b c : Board α) : Prop :=
  (allIds c.elements).Subperm (allIds b.elements ++ newIds b c)

theorem Traced.of_perm {b c : Board α} (h : (rosterOf c.elements).Perm (rosterOf b.elements)) :
    Traced b c := by
  have hids : (allIds c.elements).Perm (allIds b.elements) := by
    rw [allIds_eq, allIds_eq]
    exact h.map Prod.fst
  exact hids.subperm.trans (List.sublist_append_left _ _).subperm

theorem Traced.of_issued {b c : Board α} {n : Nat} (hids : c.ids = b.ids.advance n)
    (hes : (allIds c.elements).Subperm (allIds b.elements ++ b.ids.elementIds n)) :
    Traced b c := by
  have hissued : newIds b c = b.ids.elementIds n := by
    rw [newIds, hids, IdSupply.advance, Nat.add_sub_cancel_left]
  rwa [Traced, hissued]

theorem Traced.trans_same {b c d : Board α} (h : Traced b c) (hcd : SameRoster c d) :
    Traced b d := by
  have hids : (allIds d.elements).Perm (allIds c.elements) := by
    rw [allIds_eq, allIds_eq]
    exact hcd.roster.map Prod.fst
  rw [Traced, newIds, hcd.ids]
  exact hids.subperm.trans h

variable [Scalar α] {b : Board α}

theorem sameRoster_changed (b : Board α) : SameRoster b b.changed := by
  rw [changed, notify, commit]
  split
  · exact ⟨.refl _, rfl⟩
  · exact ⟨.of_eq (rosterOf_mapAll Scalar.settle b.elements), rfl⟩

/-- The last step of an edit that may have been refused. -/
theorem SameRoster.of_changed {o : Outcome α β} (h : SameRoster b o.2) (f : β → γ) :
    SameRoster b (o.andThen fun v c => (.ok (f v), c.changed)).2 := by
  obtain ⟨err | v, c⟩ := o
  · exact h
  · exact h.trans (sameRoster_changed c)

theorem sameRoster_applyEach {changesOf : Element α → Option (Changes α)}
    (h : ∀ e changes, changesOf e = some changes → changes.KeepsTree) {failure : Option EditError}
    {es : List (Element α)} {ids : IdSupply}
    (happly : applyEach changesOf b.ids b.elements = (failure, es, ids)) :
    SameRoster b { b.withElements es with ids } := by
  have heach := rosterOf_applyEach h b.ids b.elements
  rw [happly] at heach
  exact ⟨.of_eq heach.1, heach.2⟩

theorem sameRoster_applyBatch {batch : Batch α} (h : ∀ m ∈ batch, m.2.KeepsTree) :
    SameRoster b (b.applyBatch batch).2 := by
  have hbatch : ∀ e changes, batch.changesOf e = some changes → changes.KeepsTree :=
    fun e changes hchanges => h _ (Entries.mem_of_get? hchanges)
  unfold applyBatch
  split
  · next happly => exact sameRoster_applyEach hbatch happly
  · next happly => exact ⟨.refl _, (sameRoster_applyEach hbatch happly).ids⟩

theorem keepsTree_rebindings {moved : List String} {es : List (Element α)} {withMoved : Bool} :
    ∀ m ∈ rebindings moved es withMoved, m.2.KeepsTree := by
  intro m hm
  obtain ⟨e, g, -, rfl⟩ := exists_of_mem_rebindings hm
  exact ⟨rfl, rfl⟩

theorem sameRoster_refreshBindings (moved : List String) :
    SameRoster b (b.refreshBindings moved).2 := sameRoster_applyBatch keepsTree_rebindings

/-- Arrows follow, and the edit ends. -/
theorem sameRoster_refreshed (moved : List String) (v : β) :
    SameRoster b ((b.refreshBindings moved).andThen fun _ c => (.ok v, c.changed)).2 :=
  (sameRoster_refreshBindings moved).of_changed fun _ => v

theorem sameRoster_followBatch (batch : Batch α) : SameRoster b (b.followBatch batch).2 :=
  sameRoster_applyBatch fun m hm => keepsTree_rebindings m (List.mem_filter.mp hm).1

/-- Arrows follow if they are to, and the edit ends. -/
theorem SameRoster.of_followed {c : Board α} (h : SameRoster b c) (batch : Batch α)
    (rebind : Bool) (f : Unit → γ) :
    SameRoster b ((if rebind then c.followBatch batch else (.ok (), c)).andThen
      fun v d => (.ok (f v), d.changed)).2 := by
  cases rebind with
  | false => exact h.of_changed (o := (.ok (), c)) f
  | true => exact (h.trans (sameRoster_followBatch batch)).of_changed f

/-! ## Edits that keep all elements -/

theorem sameRoster_update {id : String} {changes : Changes α} (h : changes.KeepsTree)
    (rebind : Bool) : SameRoster b (b.update id changes rebind).2 := by
  have hchanges : ∀ e changes', Batch.changesOf [(id, changes)] e = some changes' →
      changes'.KeepsTree := by
    intro e changes' he
    rw [Batch.changesOf_singleton] at he
    split at he
    · cases he
      exact h
    · contradiction
  unfold update
  split
  · next happly => exact sameRoster_applyEach hchanges happly
  · next happly =>
    have hes := sameRoster_applyEach hchanges happly
    dsimp only
    split
    · exact hes
    · exact hes.of_followed _ rebind _

theorem sameRoster_updateAll {batch : Batch α} (h : ∀ m ∈ batch, m.2.KeepsTree) (rebind : Bool) :
    SameRoster b (b.updateAll batch rebind).2 := by
  have happlied : SameRoster b (b.applyBatch batch).2 := sameRoster_applyBatch h
  unfold updateAll
  split
  · exact .refl b
  · generalize b.applyBatch batch = o at happlied
    obtain ⟨err | _, c⟩ := o
    · exact happlied
    · exact happlied.of_followed batch rebind _

theorem sameRoster_moveEnd (id : String) (side : ArrowEnd) (p : Point α)
    (binding : Option Binding) : SameRoster b (b.moveEnd id side p binding).2 := by
  unfold moveEnd
  split
  · exact .refl b
  · next changes hchanges =>
    refine sameRoster_update ?_ false
    obtain ⟨e, -, he⟩ := Option.bind_eq_some_iff.mp hchanges
    unfold endChanges? at he
    split at he
    · cases he
      cases side <;> exact ⟨rfl, rfl⟩
    · contradiction

theorem SameRoster.rotated {c : Board α} (h : SameRoster b c) (ids : List String) :
    SameRoster b (c.rotated ids).2 := (h.trans (sameRoster_refreshBindings ids)).of_changed _

theorem sameRoster_turnTogether (ids : List String) (angle : α) :
    SameRoster b (b.turnTogether ids angle).2 := by
  unfold turnTogether
  split
  · exact .refl b
  · refine SameRoster.rotated ?_ ids
    exact sameRoster_mapFrames ids fun _ => rfl

theorem sameRoster_rotate (ids : List String) (angle : α) :
    SameRoster b (b.rotate ids angle).2 := by
  unfold rotate
  split
  · exact .refl b
  · refine SameRoster.rotated ?_ ids
    exact sameRoster_mapFrames ids fun _ => rfl
  · exact sameRoster_turnTogether ids angle

theorem sameRoster_setRotation (ids : List String) (target : α) :
    SameRoster b (b.setRotation ids target).2 := by
  unfold setRotation
  split
  · exact .refl b
  · refine SameRoster.rotated ?_ ids
    exact sameRoster_mapFrames ids fun _ => rfl
  · dsimp only
    split
    · exact .refl b
    · exact sameRoster_turnTogether ids _

theorem sameRoster_restack (ids : List String)
    {order : (Element α → Bool) → List (Element α) → List (Element α)}
    (h : ∀ chosen es, (order chosen es).Perm es) : SameRoster b (b.restack ids order) := by
  unfold restack
  split
  · exact .refl b
  · refine SameRoster.trans (.withElements ?_) (sameRoster_changed _)
    rw [rosterOf_renumbered]
    exact rosterOf_perm ((h _ _).trans (stacked_perm b.elements))

theorem sameRoster_bringToFront (ids : List String) : SameRoster b (b.bringToFront ids) :=
  sameRoster_restack ids fun chosen es =>
    List.perm_append_comm.trans (List.filter_append_perm chosen es)

theorem sameRoster_sendToBack (ids : List String) : SameRoster b (b.sendToBack ids) :=
  sameRoster_restack ids List.filter_append_perm

theorem sameRoster_bringForward (ids : List String) : SameRoster b (b.bringForward ids) :=
  sameRoster_restack ids stepUp_perm

theorem sameRoster_sendBackward (ids : List String) : SameRoster b (b.sendBackward ids) :=
  sameRoster_restack ids stepDown_perm

theorem sameRoster_updateViewport (changes : Changes α) :
    SameRoster b (b.updateViewport changes).2 := by
  unfold updateViewport
  dsimp only
  split
  · exact .refl b
  · next viewport _ =>
    have hview : SameRoster b { b with document := { b.document with viewport } } := ⟨.refl _, rfl⟩
    exact hview.trans (sameRoster_changed _)

omit [Scalar α] in
theorem sameRoster_copy : SameRoster b b.copy.2 := by
  unfold copy copyable
  dsimp only
  split <;> exact ⟨.refl _, rfl⟩

/-! ## Edits that make or take elements -/

theorem traced_delete (ids : List String) : Traced b (b.delete ids) := by
  have hes : (allIds (without ids b.elements)).Sublist (allIds b.elements) := by
    rw [allIds_eq, allIds_eq]
    exact (rosterOf_sublist List.filter_sublist).map Prod.fst
  refine Traced.trans_same ?_ (sameRoster_changed _)
  exact hes.subperm.trans (List.sublist_append_left _ _).subperm

/-- Elements that are added have the ids that were issued for them. -/
theorem traced_insert {c : Board α} (hc : c.elements = b.elements) {n : Nat}
    (hids : c.ids = b.ids.advance n) {es : List (Element α)}
    (hes : allIds es = b.ids.elementIds n) : Traced b (c.insert es) := by
  have hmade : Traced b ((c.withElements (c.elements ++ es)).withSelected (es.map Element.id)) := by
    refine .of_issued hids ?_
    rw [← hes, ← allIds_append, ← hc]
    exact .refl _
  exact hmade.trans_same (sameRoster_changed _)

theorem traced_paste : Traced b b.paste.2 := by
  unfold paste
  split
  · exact .of_perm (.refl _)
  · obtain ⟨hids, hsupply⟩ := allIds_renamedAll b.ids b.clipboard
    refine traced_insert (by rfl) hsupply ?_
    rw [← hids, allIds_eq, allIds_eq]
    exact congrArg _ (rosterOf_map fun e _ => roster_withFrame e rfl)

theorem traced_create (kind : ElementKind) (draft : Draft α) :
    Traced b (b.create kind draft).2 := by
  unfold create
  split
  · exact .of_perm (.refl _)
  · next e ids hcreate =>
    obtain ⟨hid, rfl⟩ := allIds_of_create hcreate
    refine traced_insert (n := 1) (by rfl) (by rfl) hid

theorem traced_createArrow (start finish : Point α) (startBinding finishBinding : Option Binding) :
    Traced b (b.createArrow start finish startBinding finishBinding).2 := by
  unfold createArrow
  dsimp only
  generalize hframe : Frame.checked (α := α) _ = checked
  cases checked with
  | bad issues => exact .of_perm (.refl _)
  | ok f =>
    have hid := Frame.id_of_checked hframe
    exact traced_insert (n := 1) (by rfl) (by rfl) (congrArg (fun id => [id]) hid)

/-- If a group is made, it is the only new element. -/
theorem roster_group (ids : List String) :
    (rosterOf (b.group ids).2.elements).Perm (rosterOf b.elements) ∨
      (b.group ids).2.ids = b.ids.next ∧ (rosterOf (b.group ids).2.elements).Perm
        ((b.ids.elementId, true) :: rosterOf b.elements) := by
  unfold group
  dsimp only
  split
  · exact .inl (.refl _)
  · generalize hmade : groupOf b.ids.elementId (among ids b.elements) = made
    cases made with
    | bad issues => exact .inl (.refl _)
    | ok g =>
      have hroster := rosterOf_grouped hmade
      exact .inr ⟨(sameRoster_refreshed ..).ids, (sameRoster_refreshed ..).roster.trans hroster⟩

theorem traced_group (ids : List String) : Traced b (b.group ids).2 := by
  rcases roster_group (b := b) ids with h | ⟨hids, h⟩
  · exact .of_perm h
  · refine .of_issued (n := 1) hids ?_
    have hroster := h.map Prod.fst
    rw [← allIds_eq, List.map_cons, ← allIds_eq] at hroster
    exact (hroster.trans (List.perm_append_singleton _ _).symm).subperm

/-- Where groups are dissolved, nothing goes but the groups. -/
theorem roster_ungroup (h : (b.elements.map Element.id).Nodup) (ids : List String) :
    ∃ gs : List String, (rosterOf b.elements).Perm
      (gs.map (·, true) ++ rosterOf (b.ungroup ids).2.elements) := by
  unfold ungroup
  dsimp only
  split
  · exact ⟨[], .refl _⟩
  · have hroster := rosterOf_ungrouped h ids
    refine ⟨_, hroster.trans (List.Perm.append_left _ ?_)⟩
    exact List.Perm.symm (SameRoster.roster (sameRoster_refreshed (α := α) ..))

theorem traced_ungroup (h : (b.elements.map Element.id).Nodup) (ids : List String) :
    Traced b (b.ungroup ids).2 := by
  obtain ⟨gs, hroster⟩ := roster_ungroup h ids
  have hids := hroster.map Prod.fst
  rw [List.map_append, ← allIds_eq, ← allIds_eq] at hids
  refine ((List.sublist_append_right _ _).subperm.trans hids.symm.subperm).trans ?_
  exact (List.sublist_append_left _ _).subperm

end Board

/-- Whether an edit brings no elements along and tells no element another kind or children. -/
def Edit.KeepsTree {α : Type} : Edit α → Prop
  | .add _ | .insert _ | .load .. => False
  | .update _ changes _ => changes.KeepsTree
  | .updateAll batch _ => ∀ m ∈ batch, m.2.KeepsTree
  | _ => True

/-- Whether an edit only turns, stacks or groups what is there. -/
def Edit.rearranges {α : Type} : Edit α → Bool
  | .rotate .. | .setRotation .. | .bringToFront _ | .sendToBack _ | .bringForward _
  | .sendBackward _ | .group _ | .ungroup _ => true
  | _ => false

namespace Board

open Element

variable {α β : Type}

/-- No two elements of the document share an id, nor do any in a state of the history. -/
structure Distinct (b : Board α) : Prop where
  document : (allIds b.elements).Nodup
  timeline : ∀ d ∈ b.history.timeline, (allIds d.elements).Nodup

theorem nodup_of_allIds {es : List (Element α)} (h : (allIds es).Nodup) :
    (es.map Element.id).Nodup := by
  refine List.Sublist.nodup ?_ h
  rw [allIds]
  exact (List.Sublist.map Element.id (sublist_partsOf es))

variable [Scalar α] {b : Board α}

/-- The ids that an edit makes differ from each other and from those that are there. -/
structure Fresh (b : Board α) (e : Edit α) : Prop where
  distinct : (newIds b (b.perform e).2).Nodup
  unused : ∀ id ∈ newIds b (b.perform e).2, id ∉ allIds b.elements

/-- The ids that edits make are fresh, one edit after the other. -/
def FreshAlong (b : Board α) : List (Edit α) → Prop
  | [] => True
  | e :: rest => Fresh b e ∧ (b.perform e).2.FreshAlong rest

instance (b : Board α) (e : Edit α) : Decidable (Fresh b e) :=
  decidable_of_iff ((newIds b (b.perform e).2).Nodup ∧
      ∀ id ∈ newIds b (b.perform e).2, id ∉ allIds b.elements)
    ⟨fun h => ⟨h.1, h.2⟩, fun h => ⟨h.distinct, h.unused⟩⟩

def decidableFreshAlong (b : Board α) : (edits : List (Edit α)) → Decidable (b.FreshAlong edits)
  | [] => .isTrue trivial
  | e :: rest => @instDecidableAnd _ _ _ (decidableFreshAlong (b.perform e).2 rest)

instance (b : Board α) (edits : List (Edit α)) : Decidable (b.FreshAlong edits) :=
  decidableFreshAlong b edits

/-! ## One edit -/

theorem traced_perform (h : (allIds b.elements).Nodup) {e : Edit α} (he : e.isPlain = true)
    (htree : e.KeepsTree) : Traced b (b.perform e).2 := by
  have hnodup := nodup_of_allIds h
  cases e with
  | update id changes rebind => exact .of_perm (sameRoster_update htree rebind).roster
  | updateAll batch rebind => exact .of_perm (sameRoster_updateAll htree rebind).roster
  | delete ids => exact traced_delete ids
  | rotate ids angle => exact .of_perm (sameRoster_rotate ids angle).roster
  | setRotation ids target => exact .of_perm (sameRoster_setRotation ids target).roster
  | select ids | toggle id | clearSelection => exact .of_perm (.refl _)
  | view changes => exact .of_perm (sameRoster_updateViewport changes).roster
  | copy => exact .of_perm sameRoster_copy.roster
  | paste => exact traced_paste
  | create kind draft => exact traced_create kind draft
  | createArrow start finish startBinding finishBinding =>
    exact traced_createArrow start finish startBinding finishBinding
  | moveEnd id side p binding => exact .of_perm (sameRoster_moveEnd id side p binding).roster
  | group ids => exact traced_group ids
  | ungroup ids => exact traced_ungroup hnodup ids
  | bringToFront ids => exact .of_perm (sameRoster_bringToFront ids).roster
  | sendToBack ids => exact .of_perm (sameRoster_sendToBack ids).roster
  | bringForward ids => exact .of_perm (sameRoster_bringForward ids).roster
  | sendBackward ids => exact .of_perm (sameRoster_sendBackward ids).roster
  | _ => contradiction

/-- Elements that are turned, stacked, grouped or set free are all still there, each once. -/
theorem leafIds_perform (h : (allIds b.elements).Nodup) {e : Edit α} (he : e.rearranges = true) :
    (leafIds (b.perform e).2.elements).Perm (leafIds b.elements) := by
  have hkept {c : Board α} (hc : SameRoster b c) : (leafIds c.elements).Perm (leafIds b.elements) :=
    leafIds_perm [] hc.roster
  cases e with
  | rotate ids angle => exact hkept (sameRoster_rotate ids angle)
  | setRotation ids target => exact hkept (sameRoster_setRotation ids target)
  | bringToFront ids => exact hkept (sameRoster_bringToFront ids)
  | sendToBack ids => exact hkept (sameRoster_sendToBack ids)
  | bringForward ids => exact hkept (sameRoster_bringForward ids)
  | sendBackward ids => exact hkept (sameRoster_sendBackward ids)
  | group ids =>
    rcases roster_group (b := b) ids with hroster | ⟨-, hroster⟩
    · exact leafIds_perm [] hroster
    · exact leafIds_perm [b.ids.elementId] hroster
  | ungroup ids =>
    obtain ⟨gs, hroster⟩ := roster_ungroup (nodup_of_allIds h) ids
    exact (leafIds_perm gs hroster).symm
  | _ => contradiction

/-! ## Runs of edits -/

theorem Fresh.nodup {e : Edit α} (h : Fresh b e) (hb : (allIds b.elements).Nodup)
    (ht : Traced b (b.perform e).2) : (allIds (b.perform e).2.elements).Nodup := by
  obtain ⟨ids, hperm, hsub⟩ := ht
  have hall : (allIds b.elements ++ newIds b (b.perform e).2).Nodup :=
    List.nodup_append'.mpr ⟨hb, h.distinct, fun id hold hnew => h.unused id hnew hold⟩
  exact hperm.nodup_iff.mp (hsub.nodup hall)

/-- Neither settling a document nor reading it back touches ids. -/
theorem lasting_nodup_allIds :
    Document.Lasting fun d : Document α => (allIds d.elements).Nodup where
  settled_iff d := by
    rw [allIds_eq, allIds_eq, ← rosterOf_mapAll Scalar.settle d.elements]
    rfl
  reread hread h := by
    rw [allIds_eq] at h ⊢
    rwa [Document.rosterOf_of_reread hread]

theorem Distinct.perform (h : b.Distinct) {e : Edit α} (htree : e.KeepsTree) (hfresh : Fresh b e) :
    (b.perform e).2.Distinct := by
  have hnow : b.Throughout fun d => (allIds d.elements).Nodup := ⟨h.document, h.timeline⟩
  have hload : ∀ d, e = .load d true → (allIds d.elements).Nodup := by
    rintro d rfl
    contradiction
  obtain ⟨hdocument, htimeline⟩ := hnow.perform lasting_nodup_allIds
    (fun he => hfresh.nodup h.document (traced_perform h.document he htree)) hload
  exact ⟨hdocument, htimeline⟩

/-- No element is lost, doubled or given another id, whatever edits are made. -/
theorem distinct_of_run {edits : List (Edit α)} (h : b.Distinct)
    (htree : ∀ e ∈ edits, e.KeepsTree) (hfresh : b.FreshAlong edits) :
    (b.performAll edits).Distinct ∧ ∀ e : Edit α, e.rearranges = true →
      (leafIds ((b.performAll edits).perform e).2.elements).Perm
        (leafIds (b.performAll edits).elements) := by
  have hrun : (b.performAll edits).Distinct := by
    induction edits generalizing b with
    | nil => exact h
    | cons e rest ih =>
      rw [List.forall_mem_cons] at htree
      exact ih (h.perform htree.1 hfresh.1) htree.2 hfresh.2
  exact ⟨hrun, fun e => leafIds_perform hrun.document⟩

/-- A group that is turned, copied twice and set free, a step back, and a new circle. -/
theorem distinct_of_run_regroup :
    let b : Board Double := Board.start .counting
      [.newShape "a" .rectangle { x := 0, y := 0 }, .newShape "b" .arrow { x := 90, y := 30 }]
      .initial 50
    let edits : List (Edit Double) :=
      [.group ["a", "b"], .rotate ["el000000001000"] 45, .copy, .paste, .paste,
        .ungroup ["el000000001000"], .undo, .redo, .create (.shape .circle) { x := 5, y := 5 },
        .delete ["a"]]
    b.Distinct ∧ (b.performAll edits).Distinct ∧
      (leafIds ((b.performAll edits).perform (.group ["b", "el000000008000"])).2.elements).Perm
        (leafIds (b.performAll edits).elements) := by
  intro b edits
  have hstart : b.Distinct := by
    refine ⟨by decide +kernel, fun d hd => ?_⟩
    obtain rfl := List.mem_singleton.mp hd
    decide +kernel
  have htree : ∀ e ∈ edits, e.KeepsTree := by
    intro e he
    simp only [edits, List.mem_cons, List.not_mem_nil, or_false] at he
    rcases he with rfl | rfl | rfl | rfl | rfl | rfl | rfl | rfl | rfl | rfl <;> trivial
  have hfresh : b.FreshAlong edits := by decide +kernel
  have hrun := distinct_of_run hstart htree hfresh
  exact ⟨hstart, hrun.1, hrun.2 _ rfl⟩

end Board

end Whiteboard

import Whiteboard.Proofs.Board.Lasting
import Whiteboard.Proofs.Document.Placed
import Whiteboard.Proofs.Document.Proper
import Whiteboard.Proofs.Scalar.Double

/-!
# What is selected is there

No selection dangles: as long as whoever selects names elements of the board, every selected id is
that of an element at top level, in the document and in all states that can be undone or redone
(`Board.selectsPresent_of_run`). Most edits keep the selection and lose no id
(`Board.Retains`); those that take elements away select anew.
-/

namespace Whiteboard

variable {α β γ : Type}

/-- The ids of the elements at top level. -/
def Document.topIds (d : Document α) : List String := d.elements.map Element.id

/-- Every selected id is that of an element at top level. -/
def Document.SelectsPresent (d : Document α) : Prop := ∀ id ∈ d.selected, id ∈ d.topIds

instance (d : Document α) : Decidable d.SelectsPresent :=
  inferInstanceAs (Decidable (∀ id ∈ d.selected, id ∈ d.topIds))

namespace Element

theorem map_id_mapAll (f : α → β) (es : List (Element α)) :
    (mapAll f es).map id = es.map id := by
  induction es with
  | nil => rfl
  | cons e rest ih =>
    have hid : (e.map f).id = e.id := by cases e <;> rfl
    rw [mapAll, List.map_cons, List.map_cons, hid, ih]

theorem map_id_renumbered (es : List (Element α)) : (renumbered es).map id = es.map id := by
  have hids : ∀ m : Element α × Nat, (m.1.withZIndex m.2).id = m.1.id := by
    intro m
    cases m.1 <;> rfl
  rw [renumbered, List.map_map, ← List.zipIdx_map_fst 0 es, List.map_map, List.zipIdx_map_fst]
  exact List.map_congr_left fun m _ => hids m

variable [Scalar α]

/-- Elements that are read back have the ids that were written. -/
theorem map_id_of_ofJsons {room start : Nat} {es es' : List (Element α)}
    (h : ofJsons room start (toJsons es) = .ok es') : es'.map id = es.map id := by
  induction es generalizing start es' with
  | nil =>
    cases h
    rfl
  | cons e es ih =>
    simp only [toJsons, ofJsons, Checked.seq_eq_ok_iff, Checked.map_eq_ok_iff,
      Checked.under_eq_ok_iff] at h
    obtain ⟨_, es', ⟨e', he, rfl⟩, hes, rfl⟩ := h
    rw [toJson_eq] at he
    rw [List.map_cons, List.map_cons, ih hes, id_of_ofJson (get?_id_toMembers e) he]

end Element

namespace Document

variable [Scalar α]

/-- A document that is read back has the ids and the selection that were written. -/
theorem topIds_of_reread {d d' : Document α} (h : d.reread = .ok d') :
    d'.topIds = d.topIds ∧ d'.selected = d.selected := by
  obtain ⟨ms, hms, h⟩ := Checked.andThen_eq_ok_iff.mp (Checked.toEdit_eq_ok_iff.mp h)
  cases hms
  simp only [Checked.seq_eq_ok_iff, Checked.map_eq_ok_iff] at h
  obtain ⟨_, _, ⟨_, _, ⟨es, hes, rfl⟩, hselected, rfl⟩, -, rfl⟩ := h
  have hlist : Schema.listOf Schema.text (.ofStrings d.selected : Json α) = .ok d.selected :=
    Schema.listOf_arr fun _ _ => rfl
  have hread := hlist.symm.trans (Checked.under_eq_ok_iff.mp hselected)
  injection hread with hsame
  exact ⟨Element.map_id_of_ofJsons (Checked.under_eq_ok_iff.mp hes), hsame.symm⟩

theorem lasting_selectsPresent : Lasting (SelectsPresent (α := α)) where
  settled_iff d := by
    have hids : d.settled.topIds = d.topIds := Element.map_id_mapAll Scalar.settle d.elements
    rw [SelectsPresent, hids]
    rfl
  reread h hd := by
    obtain ⟨hids, hselected⟩ := topIds_of_reread h
    rw [SelectsPresent, hids, hselected]
    exact hd

end Document

/-- Whether what an edit selects is there: the ids it names are those of elements at top level, and
a document that is taken over selects elements of its own. -/
def Edit.NamesPresent (b : Board α) : Edit α → Prop
  | .select ids => ∀ id ∈ ids, id ∈ b.document.topIds
  | .toggle id => id ∈ b.document.topIds
  | .load d _ => d.SelectsPresent
  | _ => True

instance (b : Board α) (e : Edit α) : Decidable (e.NamesPresent b) := by
  cases e <;> unfold Edit.NamesPresent <;> infer_instance

namespace Board

open Document

/-- The same selection, and no id at top level is lost. -/
structure Retains (b c : Board α) : Prop where
  selected : c.selected = b.selected
  ids : b.document.topIds ⊆ c.document.topIds

theorem Retains.refl (b : Board α) : Retains b b := ⟨rfl, fun _ => id⟩

theorem Retains.trans {a b c : Board α} (hab : Retains a b) (hbc : Retains b c) : Retains a c :=
  ⟨hbc.selected.trans hab.selected, fun _ hid => hbc.ids (hab.ids hid)⟩

theorem Retains.selectsPresent {b c : Board α} (h : Retains b c)
    (hb : b.document.SelectsPresent) : c.document.SelectsPresent := by
  intro id hid
  have hsame : c.document.selected = b.document.selected := h.selected
  rw [hsame] at hid
  exact h.ids (hb id hid)

/-- Other elements with the same ids. -/
theorem Retains.of_map_id {b c : Board α} (hs : c.selected = b.selected)
    (hids : c.elements.map Element.id = b.elements.map Element.id) : Retains b c := by
  refine ⟨hs, fun id hid => ?_⟩
  change id ∈ c.elements.map Element.id
  rwa [hids]

theorem retains_mapFrames (b : Board α) (ids : List String) {change : Frame α → Frame α}
    (h : ∀ f, (change f).id = f.id) : Retains b (b.mapFrames ids change) := by
  refine .of_map_id rfl ?_
  have hid : ∀ e : Element α, (if ids.contains e.id then e.mapFrame change else e).id = e.id := by
    intro e
    split
    · cases e <;> exact h _
    · rfl
  rw [mapFrames, withElements, elements, List.map_map]
  exact List.map_congr_left fun e _ => hid e

variable [Scalar α] {b c : Board α}

theorem retains_changed (b : Board α) : Retains b b.changed := by
  rw [Board.changed, notify, Board.commit]
  split
  · exact .of_map_id rfl rfl
  · exact .of_map_id rfl (Element.map_id_mapAll Scalar.settle b.elements)

/-- The last step of an edit that may have been refused. -/
theorem Retains.of_changed {o : Outcome α β} (h : Retains b o.2) (f : β → γ) :
    Retains b (o.andThen fun v c => (.ok (f v), c.changed)).2 := by
  obtain ⟨err | v, c⟩ := o
  · exact h
  · exact h.trans (retains_changed c)

theorem retains_applyEach {changesOf : Element α → Option (Changes α)} {failure : Option EditError}
    {es : List (Element α)} {ids : IdSupply}
    (happly : Element.applyEach changesOf b.ids b.elements = (failure, es, ids)) :
    Retains b { b.withElements es with ids } := by
  have hids := Element.map_id_applyEach changesOf b.ids b.elements
  rw [happly] at hids
  exact .of_map_id rfl hids

theorem retains_applyBatch (b : Board α) (batch : Batch α) :
    Retains b (b.applyBatch batch).2 := by
  unfold applyBatch
  split
  · next happly => exact retains_applyEach happly
  · exact .of_map_id rfl rfl

/-- Arrows follow, and the edit ends. -/
theorem Retains.refreshed (h : Retains b c) (moved : List String) (v : β) :
    Retains b ((c.refreshBindings moved).andThen fun _ d => (.ok v, d.changed)).2 :=
  Retains.of_changed (h.trans (retains_applyBatch c _)) fun _ => v

/-- Arrows follow if they are to, and the edit ends. -/
theorem Retains.followed (h : Retains b c) (batch : Batch α) (rebind : Bool) (v : β) :
    Retains b ((if rebind then c.followBatch batch else (.ok (), c)).andThen
      fun _ d => (.ok v, d.changed)).2 := by
  cases rebind with
  | false => exact h.trans (retains_changed c)
  | true => exact Retains.of_changed (h.trans (retains_applyBatch c _)) fun _ => v

/-! ## Edits that keep the selection -/

theorem retains_add (b : Board α) (es : List (Element α)) : Retains b (b.add es) := by
  refine Retains.trans ?_ (retains_changed _)
  refine ⟨rfl, fun id hid => ?_⟩
  change id ∈ (b.elements ++ es).map Element.id
  rw [List.map_append]
  exact List.mem_append_left _ hid

theorem retains_update (b : Board α) (id : String) (changes : Changes α) (rebind : Bool) :
    Retains b (b.update id changes rebind).2 := by
  unfold Board.update
  split
  · next happly => exact retains_applyEach happly
  · next happly =>
    have hes := retains_applyEach happly
    dsimp only
    split
    · exact hes
    · exact hes.followed _ rebind _

theorem retains_updateAll (b : Board α) (batch : Batch α) (rebind : Bool) :
    Retains b (b.updateAll batch rebind).2 := by
  have happlied := retains_applyBatch b batch
  unfold updateAll
  split
  · exact .refl b
  · generalize b.applyBatch batch = o at happlied
    obtain ⟨err | _, c⟩ := o
    · exact happlied
    · exact happlied.followed batch rebind ()

theorem retains_turnTogether (b : Board α) (ids : List String) (angle : α) :
    Retains b (b.turnTogether ids angle).2 := by
  unfold turnTogether
  split
  · exact .refl b
  · refine Retains.refreshed ?_ ids ()
    exact retains_mapFrames b ids fun _ => rfl

theorem retains_rotate (b : Board α) (ids : List String) (angle : α) :
    Retains b (b.rotate ids angle).2 := by
  unfold rotate
  split
  · exact .refl b
  · refine Retains.refreshed ?_ ids ()
    exact retains_mapFrames b ids fun _ => rfl
  · exact retains_turnTogether b ids angle

theorem retains_setRotation (b : Board α) (ids : List String) (target : α) :
    Retains b (b.setRotation ids target).2 := by
  unfold setRotation
  split
  · exact .refl b
  · refine Retains.refreshed ?_ ids ()
    exact retains_mapFrames b ids fun _ => rfl
  · dsimp only
    split
    · exact .refl b
    · exact retains_turnTogether b ids _

theorem retains_updateViewport (b : Board α) (changes : Changes α) :
    Retains b (b.updateViewport changes).2 := by
  unfold updateViewport
  dsimp only
  split
  · exact .refl b
  · next viewport _ =>
    have hview : Retains b { b with document := { b.document with viewport } } :=
      .of_map_id rfl rfl
    exact hview.trans (retains_changed _)

omit [Scalar α] in
theorem retains_copy (b : Board α) : Retains b b.copy.2 := by
  unfold copy copyable
  dsimp only
  split <;> exact .of_map_id rfl rfl

theorem retains_moveEnd (b : Board α) (id : String) (side : ArrowEnd) (p : Point α)
    (binding : Option Binding) : Retains b (b.moveEnd id side p binding).2 := by
  unfold moveEnd
  split
  · exact .refl b
  · exact retains_update b id _ false

theorem retains_restack (b : Board α) (ids : List String)
    {order : (Element α → Bool) → List (Element α) → List (Element α)}
    (h : ∀ chosen es, (order chosen es).Perm es) : Retains b (b.restack ids order) := by
  unfold restack
  split
  · exact .refl b
  · refine Retains.trans ?_ (retains_changed _)
    refine ⟨rfl, fun id hid => ?_⟩
    change id ∈ (Element.renumbered _).map Element.id
    rw [Element.map_id_renumbered]
    exact (((h _ _).trans (Element.stacked_perm b.elements)).map Element.id).mem_iff.mpr hid

/-! ## Edits that select anew -/

omit [Scalar α] in
/-- The ids of elements at the end are there. -/
theorem selectsPresent_appended (b : Board α) (es added : List (Element α)) :
    ((b.withElements (es ++ added)).withSelected (added.map Element.id)).document.SelectsPresent := by
  intro id hid
  change id ∈ (es ++ added).map Element.id
  rw [List.map_append]
  exact List.mem_append_right _ hid

theorem selectsPresent_insert (b : Board α) (es : List (Element α)) :
    (b.insert es).document.SelectsPresent :=
  (retains_changed _).selectsPresent (selectsPresent_appended b b.elements es)

theorem selectsPresent_paste (h : b.document.SelectsPresent) :
    b.paste.2.document.SelectsPresent := by
  unfold paste
  split
  · exact h
  · exact selectsPresent_insert _ _

theorem selectsPresent_create (h : b.document.SelectsPresent) (kind : ElementKind)
    (draft : Draft α) : (b.create kind draft).2.document.SelectsPresent := by
  unfold create
  split
  · exact h
  · exact selectsPresent_insert _ _

theorem selectsPresent_createArrow (h : b.document.SelectsPresent) (start finish : Point α)
    (startBinding finishBinding : Option Binding) :
    (b.createArrow start finish startBinding finishBinding).2.document.SelectsPresent := by
  unfold createArrow
  dsimp only
  generalize Frame.checked (α := α) _ = checked
  cases checked with
  | bad issues => exact h
  | ok f => exact selectsPresent_insert _ _

/-- What is removed is removed from the selection. -/
theorem selectsPresent_delete (h : b.document.SelectsPresent) (ids : List String) :
    (b.delete ids).document.SelectsPresent := by
  refine (retains_changed _).selectsPresent fun id hid => ?_
  obtain ⟨hselected, hkept⟩ := List.mem_filter.mp hid
  obtain ⟨e, he, rfl⟩ := List.mem_map.mp (h id hselected)
  exact List.mem_map_of_mem (List.mem_filter.mpr ⟨he, hkept⟩)

/-- The new group is selected. -/
theorem selectsPresent_group (h : b.document.SelectsPresent) (ids : List String) :
    (b.group ids).2.document.SelectsPresent := by
  unfold group
  dsimp only
  split
  · exact h
  · generalize Element.groupOf b.ids.elementId (among ids b.elements) = made
    cases made with
    | bad issues => exact h
    | ok g =>
      have hgrouped := selectsPresent_appended { b with ids := b.ids.next }
        (without ids b.elements) [g]
      exact ((Retains.refl _).refreshed _ (some g)).selectsPresent hgrouped

/-- The elements that are set free are selected. -/
theorem selectsPresent_ungroup (h : b.document.SelectsPresent) (ids : List String) :
    (b.ungroup ids).2.document.SelectsPresent := by
  unfold ungroup
  dsimp only
  split
  · exact h
  · exact ((Retains.refl _).refreshed _ _).selectsPresent (selectsPresent_appended b _ _)

omit [Scalar α] in
theorem selectsPresent_toggle (h : b.document.SelectsPresent) {id : String}
    (hid : id ∈ b.document.topIds) : (b.toggle id).document.SelectsPresent := by
  intro id' hid'
  change id' ∈ (if b.selected.contains id then b.selected.filter (· != id)
    else b.selected ++ [id]) at hid'
  change id' ∈ b.document.topIds
  split at hid'
  · exact h id' (List.mem_of_mem_filter hid')
  · rcases List.mem_append.mp hid' with hold | hnew
    · exact h id' hold
    · rwa [List.mem_singleton.mp hnew]

/-! ## Runs of edits -/

theorem selectsPresent_perform (h : b.document.SelectsPresent) {e : Edit α}
    (he : e.isPlain = true) (hnames : e.NamesPresent b) :
    (b.perform e).2.document.SelectsPresent := by
  cases e with
  | add es => exact (retains_add b es).selectsPresent h
  | insert es => exact selectsPresent_insert b es
  | update id changes rebind => exact (retains_update b id changes rebind).selectsPresent h
  | updateAll batch rebind => exact (retains_updateAll b batch rebind).selectsPresent h
  | delete ids => exact selectsPresent_delete h ids
  | load d reset =>
    cases reset with
    | false => exact (retains_changed { b with document := d }).selectsPresent hnames
    | true => contradiction
  | rotate ids angle => exact (retains_rotate b ids angle).selectsPresent h
  | setRotation ids target => exact (retains_setRotation b ids target).selectsPresent h
  | select ids => exact hnames
  | toggle id => exact selectsPresent_toggle h hnames
  | clearSelection => exact fun _ hid => absurd hid List.not_mem_nil
  | view changes => exact (retains_updateViewport b changes).selectsPresent h
  | copy => exact (retains_copy b).selectsPresent h
  | paste => exact selectsPresent_paste h
  | create kind draft => exact selectsPresent_create h kind draft
  | createArrow start finish startBinding finishBinding =>
    exact selectsPresent_createArrow h start finish startBinding finishBinding
  | moveEnd id side p binding => exact (retains_moveEnd b id side p binding).selectsPresent h
  | group ids => exact selectsPresent_group h ids
  | ungroup ids => exact selectsPresent_ungroup h ids
  | bringToFront ids =>
    refine (retains_restack b ids fun chosen es => ?_).selectsPresent h
    exact List.perm_append_comm.trans (List.filter_append_perm chosen es)
  | sendToBack ids => exact (retains_restack b ids List.filter_append_perm).selectsPresent h
  | bringForward ids => exact (retains_restack b ids Element.stepUp_perm).selectsPresent h
  | sendBackward ids => exact (retains_restack b ids Element.stepDown_perm).selectsPresent h
  | undo | redo | beginBatch | endBatch => contradiction

/-- What is selected is there each time, one edit after the other. -/
def NamesPresentAlong (b : Board α) : List (Edit α) → Prop
  | [] => True
  | e :: rest => e.NamesPresent b ∧ (b.perform e).2.NamesPresentAlong rest

def decidableNamesPresentAlong (b : Board α) :
    (edits : List (Edit α)) → Decidable (b.NamesPresentAlong edits)
  | [] => .isTrue trivial
  | e :: rest => @instDecidableAnd _ _ _ (decidableNamesPresentAlong (b.perform e).2 rest)

instance (b : Board α) (edits : List (Edit α)) : Decidable (b.NamesPresentAlong edits) :=
  decidableNamesPresentAlong b edits

/-- An edit leaves no dangling selection, neither on the board nor in the history. -/
theorem throughout_selectsPresent_perform (h : b.Throughout SelectsPresent) {e : Edit α}
    (hnames : e.NamesPresent b) : (b.perform e).2.Throughout SelectsPresent := by
  refine h.perform lasting_selectsPresent
    (fun he => selectsPresent_perform h.document he hnames) ?_
  rintro d rfl
  exact hnames

theorem throughout_selectsPresent_performAll {edits : List (Edit α)}
    (h : b.Throughout SelectsPresent) (hnames : b.NamesPresentAlong edits) :
    (b.performAll edits).Throughout SelectsPresent := by
  induction edits generalizing b with
  | nil => exact h
  | cons e rest ih => exact ih (throughout_selectsPresent_perform h hnames.1) hnames.2

/-- No selection dangles, whatever edits are made, refused ones among them: neither on the board
nor in what can be undone or redone. -/
theorem selectsPresent_of_run {ids : IdSupply} {es : List (Element α)} {v : Viewport α}
    {limit : Int} {edits : List (Edit α)}
    (hnames : (Board.start ids es v limit).NamesPresentAlong edits) :
    let b := (Board.start ids es v limit).performAll edits
    b.document.SelectsPresent ∧ (∀ d ∈ b.history.undoStack, d.SelectsPresent) ∧
      ∀ d ∈ b.history.redoStack, d.SelectsPresent := by
  intro b
  have hstart : (Board.start ids es v limit).Throughout SelectsPresent :=
    throughout_start lasting_selectsPresent fun _ hid => absurd hid List.not_mem_nil
  have hrun : b.Throughout SelectsPresent := throughout_selectsPresent_performAll hstart hnames
  exact ⟨hrun.document, fun d hd => hrun.timeline d (History.mem_timeline.mpr (.inl hd)),
    fun d hd => hrun.timeline d (History.mem_timeline.mpr (.inr hd))⟩

/-- A selection is copied, grouped, set free and deleted in part; then steps back and forth, and a
document with a selection of its own. -/
theorem selectsPresent_of_run_regroup :
    let start : Board Double := Board.start .counting
      [.newShape "a" .rectangle { x := 0, y := 0 }, .newShape "b" .circle { x := 90, y := 30 }]
      .initial 50
    let edits : List (Edit Double) :=
      [.select ["a", "b"], .copy, .paste, .beginBatch, .group ["a", "b"],
        .ungroup ["el000000003000"], .toggle "el000000001000", .endBatch, .delete ["b"], .undo,
        .undo, .redo, .load ⟨[.newShape "c" .arrow { x := 5, y := 5 }], ["c"], .initial⟩ false]
    let b := start.performAll edits
    start.NamesPresentAlong edits ∧
      b.document.SelectsPresent ∧ (∀ d ∈ b.history.undoStack, d.SelectsPresent) ∧
        ∀ d ∈ b.history.redoStack, d.SelectsPresent := by
  intro start edits b
  have hnames : start.NamesPresentAlong edits := by decide +kernel
  exact ⟨hnames, selectsPresent_of_run hnames⟩

end Board

end Whiteboard

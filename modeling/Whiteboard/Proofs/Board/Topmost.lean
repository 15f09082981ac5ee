import Whiteboard.Proofs.Board.Lasting
import Whiteboard.Proofs.Board.Stack
import Whiteboard.Proofs.Document.Height
import Whiteboard.Proofs.Scalar.Double

/-!
# New elements on top

A new element gets the number of elements as its height. It lies on top exactly if no other one lies
higher than that (`Board.Makes.onTop_iff`). Heights do not exceed the greatest number of elements
that there have been (`Board.below_performAll`), so that new elements lie on top as long as at most
one of these was lost (`Board.onTop_of_run`).
-/

namespace Whiteboard

variable {α β γ : Type}

namespace Element

variable {es : List (Element α)} {e : Element α}

/-- An element at the end of a list comes last in the stack if none is higher. -/
theorem getLast?_stacked_concat :
    (stacked (es ++ [e])).getLast? = some e ↔ ∀ x ∈ es, x.zIndex ≤ e.zIndex := by
  have hsorted := pairwise_stacked (es ++ [e])
  have hmem (x : Element α) : x ∈ stacked (es ++ [e]) ↔ x ∈ es ∨ x = e := by
    rw [(stacked_perm _).mem_iff, List.mem_append, List.mem_singleton]
  have hfilter := filter_stacked e.zIndex (es ++ [e])
  generalize stacked (es ++ [e]) = ordered at hsorted hmem hfilter
  obtain ⟨lower, last, rfl⟩ := (List.eq_nil_or_concat ordered).resolve_left
    (List.ne_nil_of_mem ((hmem e).mpr (.inr rfl)))
  rw [List.concat_eq_append] at *
  have hlast (x : Element α) (hx : x ∈ es ∨ x = e) : x.zIndex ≤ last.zIndex := by
    rcases List.mem_append.mp ((hmem x).mpr hx) with hlower | hx
    · exact (List.pairwise_append.mp hsorted).2.2 x hlower last List.mem_cons_self
    · rw [List.mem_singleton.mp hx]
  rw [List.getLast?_concat, Option.some.injEq]
  constructor
  · rintro rfl x hx
    exact hlast x (.inl hx)
  · intro hall
    have hle : last.zIndex ≤ e.zIndex := by
      rcases (hmem last).mp (List.mem_append_right _ List.mem_cons_self) with hx | hx
      · exact hall last hx
      · rw [hx]
    have hz : last.zIndex = e.zIndex := Int.le_antisymm hle (hlast e (.inr rfl))
    rw [List.filter_append, List.filter_append, List.filter_singleton,
      List.filter_singleton] at hfilter
    simp only [hz, decide_true, cond_true] at hfilter
    exact (List.cons.inj (List.append_inj' hfilter rfl).2).1

end Element

/-- Whether an edit leaves heights to the editor. -/
def Edit.leavesHeights : Edit α → Bool
  | .add _ | .insert _ | .update .. | .updateAll .. | .load .. => false
  | _ => true

variable [Scalar α]

namespace Document

/-- No element at top level lies at or above a height. -/
def Below (m : Nat) (d : Document α) : Prop := Element.AllBelow m d.elements

theorem lasting_below (m : Nat) : Lasting (Below (α := α) m) where
  settled_iff d := by
    have hz := Element.map_zIndex_mapAll Scalar.settle d.elements
    exact ⟨fun h => h.of_map_zIndex hz.symm, fun h => h.of_map_zIndex hz⟩
  reread {d d'} h hd := by
    obtain ⟨ms, hms, h⟩ := Checked.andThen_eq_ok_iff.mp (Checked.toEdit_eq_ok_iff.mp h)
    cases hms
    simp only [Checked.seq_eq_ok_iff, Checked.map_eq_ok_iff] at h
    obtain ⟨_, _, ⟨_, _, ⟨es, hes, rfl⟩, -, rfl⟩, -, rfl⟩ := h
    exact hd.of_map_zIndex (Element.map_zIndex_of_ofJsons (Checked.under_eq_ok_iff.mp hes))

end Document

namespace Board

open Element

variable {b c : Board α} {m : Nat}

/-! ## Heights after an edit -/

/-- No element of the board or of the clipboard lies at or above a height. -/
structure Low (m : Nat) (b : Board α) : Prop where
  elements : AllBelow m b.elements
  clipboard : AllBelow m b.clipboard

theorem length_changed (b : Board α) : b.changed.elements.length = b.elements.length := by
  rw [elements_changed_eq, List.length_map]

theorem length_insert (b : Board α) (es : List (Element α)) :
    (b.insert es).elements.length = b.elements.length + es.length :=
  (length_changed _).trans List.length_append

theorem length_restack (b : Board α) (ids : List String)
    {order : (Element α → Bool) → List (Element α) → List (Element α)}
    (h : ∀ chosen es, (order chosen es).Perm es) :
    (b.restack ids order).elements.length = b.elements.length := by
  by_cases hids : ids = []
  · rw [restack, hids]
    rfl
  · have hz := congrArg List.length (map_zIndex_restack (b := b) hids h)
    simpa using hz

namespace Low

theorem changed (h : c.Low m) : c.changed.Low m where
  elements := (document_changed_iff (Document.lasting_below m) c).mpr h.elements
  clipboard := (clipboard_changed (b := c)).symm ▸ h.clipboard

omit [Scalar α] in
theorem withIds (h : c.Low m) (ids : IdSupply) : Low m { c with ids } := ⟨h.elements, h.clipboard⟩

/-- The outcome of an edit that ends with a change. -/
theorem andThen_changed {o : Outcome α β} (h : o.2.Low m) (f : β → γ) :
    (o.andThen fun v d => (.ok (f v), d.changed)).2.Low m := by
  obtain ⟨err | v, d⟩ := o
  · exact h
  · exact h.changed

/-- Changes that do not speak of heights, one element after the other. -/
theorem applyEach (h : c.Low m) {batch : Batch α}
    (hstill : ∀ n ∈ batch, ∀ k ∈ n.2, k.1 ≠ "z_index") {failure : Option EditError}
    {es : List (Element α)} {ids : IdSupply}
    (happly : Element.applyEach batch.changesOf c.ids c.elements = (failure, es, ids)) :
    Low m { c.withElements es with ids } := by
  have happlied := h.elements.applyEach hstill c.ids
  rw [happly] at happlied
  exact ⟨happlied, h.clipboard⟩

theorem applyBatch (h : c.Low m) {batch : Batch α}
    (hstill : ∀ n ∈ batch, ∀ k ∈ n.2, k.1 ≠ "z_index") : (c.applyBatch batch).2.Low m := by
  unfold Board.applyBatch
  split
  · next heq => exact h.applyEach hstill heq
  · exact ⟨h.elements, h.clipboard⟩

/-- Arrows follow, and the edit ends. -/
theorem refreshed (h : c.Low m) (moved : List String) (v : β) :
    ((c.refreshBindings moved).andThen fun _ d => (.ok v, d.changed)).2.Low m := by
  refine andThen_changed (h.applyBatch fun n hn => ?_) fun _ => v
  obtain ⟨e, g, -, rfl⟩ := exists_of_mem_rebindings hn
  simp [ArrowGeometry.toChanges]

omit [Scalar α] in
theorem mapFrames (h : c.Low m) (ids : List String) {change : Frame α → Frame α}
    (hchange : ∀ f, (change f).zIndex = f.zIndex) : (c.mapFrames ids change).Low m := by
  refine ⟨h.elements.of_map_zIndex (map_zIndex_map (fun e => ?_) c.elements), h.clipboard⟩
  split
  · exact zIndex_mapFrame hchange e
  · rfl

theorem turnTogether (h : c.Low m) (ids : List String) (angle : α) :
    (c.turnTogether ids angle).2.Low m := by
  unfold Board.turnTogether
  split
  · exact h
  · refine Low.refreshed ?_ ids ()
    exact h.mapFrames ids fun _ => rfl

theorem rotate (h : c.Low m) (ids : List String) (angle : α) : (c.rotate ids angle).2.Low m := by
  unfold Board.rotate
  split
  · exact h
  · refine Low.refreshed ?_ ids ()
    exact h.mapFrames ids fun _ => rfl
  · exact h.turnTogether ids angle

theorem setRotation (h : c.Low m) (ids : List String) (target : α) :
    (c.setRotation ids target).2.Low m := by
  unfold Board.setRotation
  split
  · exact h
  · refine Low.refreshed ?_ ids ()
    exact h.mapFrames ids fun _ => rfl
  · dsimp only
    split
    · exact h
    · exact h.turnTogether ids _

theorem delete (h : c.Low m) (ids : List String) : (c.delete ids).Low m := by
  refine Low.changed ⟨?_, h.clipboard⟩
  exact h.elements.filter _

theorem updateViewport (h : c.Low m) (changes : Changes α) :
    (c.updateViewport changes).2.Low m := by
  unfold Board.updateViewport
  dsimp only
  split
  · exact h
  · exact changed ⟨h.elements, h.clipboard⟩

omit [Scalar α] in
theorem copy (h : c.Low m) : c.copy.2.Low m := by
  unfold Board.copy copyable
  dsimp only
  split
  · exact ⟨h.elements, h.elements.filter _⟩
  · exact h

theorem insert (h : c.Low m) {es : List (Element α)} (hes : AllBelow m es) : (c.insert es).Low m :=
  changed ⟨h.elements.append hes, h.clipboard⟩

theorem paste (h : c.Low m) : c.paste.2.Low m := by
  unfold Board.paste
  split
  · exact h
  · have hcopies := h.clipboard.of_map_zIndex (map_zIndex_renamedAll c.ids c.clipboard)
    have hpasted : AllBelow m ((renamedAll c.ids c.clipboard).1.map
        (shift pasteOffset pasteOffset)) :=
      hcopies.of_map_zIndex (map_zIndex_map (fun e => by cases e <;> rfl) _)
    refine Low.insert ?_ hpasted
    exact ⟨h.elements, hpasted⟩

/-- A new element is as high as the others were many. -/
theorem place (h : c.Low m) {e : Element α} (hz : e.zIndex = c.elements.length)
    (hm : (c.place e).elements.length ≤ m) : (c.place e).Low m := by
  have hlt : c.elements.length < m := (length_insert c [e]).symm.trans_le hm
  refine h.insert (List.forall_mem_singleton.mpr ?_)
  exact hz ▸ Int.ofNat_lt.mpr hlt

theorem create (h : c.Low m) (kind : ElementKind) (draft : Draft α)
    (hm : (c.create kind draft).2.elements.length ≤ m) : (c.create kind draft).2.Low m := by
  unfold Board.create at hm ⊢
  generalize hmade : Element.create c.ids kind { draft with zIndex := c.elements.length } = made
    at hm ⊢
  obtain ⟨err | e, ids⟩ := made
  · exact h.withIds ids
  · exact (h.withIds ids).place (zIndex_of_create hmade) hm

theorem createArrow (h : c.Low m) (start finish : Point α)
    (startBinding finishBinding : Option Binding)
    (hm : (c.createArrow start finish startBinding finishBinding).2.elements.length ≤ m) :
    (c.createArrow start finish startBinding finishBinding).2.Low m := by
  unfold Board.createArrow at hm ⊢
  dsimp only at hm ⊢
  generalize hframe : Frame.checked (α := α) _ = checked at hm ⊢
  cases checked with
  | bad issues => exact h.withIds _
  | ok f => exact (h.withIds c.ids.next).place (Frame.zIndex_of_checked hframe) hm

theorem moveEnd (h : c.Low m) (id : String) (side : ArrowEnd) (p : Point α)
    (binding : Option Binding) : (c.moveEnd id side p binding).2.Low m := by
  unfold Board.moveEnd
  split
  · exact h
  · next changes hchanges =>
    obtain ⟨e, -, hchanges⟩ := Option.bind_eq_some_iff.mp hchanges
    have hstill : ∀ n ∈ ([(id, changes)] : Batch α), ∀ k ∈ n.2, k.1 ≠ "z_index" := by
      refine List.forall_mem_singleton.mpr ?_
      unfold endChanges? at hchanges
      split at hchanges
      · cases hchanges
        cases side <;> simp [ArrowGeometry.toChanges, ArrowEnd.bindingField]
      · contradiction
    unfold Board.update
    split
    · next heq => exact h.applyEach hstill heq
    · next heq =>
      have hes := h.applyEach hstill heq
      dsimp only
      split
      · exact hes
      · exact hes.changed

theorem group (h : c.Low m) (ids : List String) : (c.group ids).2.Low m := by
  unfold Board.group
  dsimp only
  split
  · exact h
  · next htwo =>
    have hsome : among ids c.elements ≠ [] := List.ne_nil_of_length_pos (by omega)
    generalize hmade : groupOf c.ids.elementId (among ids c.elements) = made
    cases made with
    | bad issues => exact h.withIds _
    | ok g =>
      obtain ⟨e, he, hz⟩ := exists_zIndex_eq_topIndex hsome
      have hg : AllBelow m [g] := by
        refine List.forall_mem_singleton.mpr ?_
        rw [zIndex_of_groupOf hmade, ← hz]
        exact h.elements e (List.mem_of_mem_filter he)
      have hgrouped : Low m (({ c with ids := c.ids.next }.withElements
          (without ids c.elements ++ [g])).withSelected [g.id]) :=
        ⟨(h.elements.filter _).append hg, h.clipboard⟩
      exact hgrouped.refreshed _ (some g)

theorem ungroup (h : c.Low m) (ids : List String) : (c.ungroup ids).2.Low m := by
  unfold Board.ungroup
  dsimp only
  split
  · exact h
  · have hreleased : AllBelow m
        (((among ids c.elements).filter isGroup).flatMap released) := fun e he => by
      obtain ⟨g, hg, he⟩ := List.mem_flatMap.mp he
      rw [zIndex_of_mem_released he]
      exact h.elements g (List.mem_of_mem_filter (List.mem_of_mem_filter hg))
    refine Low.refreshed ?_ _ _
    exact ⟨(h.elements.filter _).append hreleased, h.clipboard⟩

theorem restack (h : c.Low m) (ids : List String)
    {order : (Element α → Bool) → List (Element α) → List (Element α)}
    (horder : ∀ chosen es, (order chosen es).Perm es)
    (hm : (c.restack ids order).elements.length ≤ m) : (c.restack ids order).Low m := by
  by_cases hids : ids = []
  · rw [Board.restack, hids]
    exact h
  · rw [length_restack c ids horder] at hm
    have hz := map_zIndex_restack (b := c) hids horder
    refine ⟨fun e he => ?_, ?_⟩
    · have hmem : e.zIndex ∈ (c.restack ids order).elements.map zIndex := List.mem_map_of_mem he
      rw [hz] at hmem
      obtain ⟨i, hi, heq⟩ := List.mem_map.mp hmem
      have hlt := List.mem_range.mp hi
      rw [← heq]
      exact Int.ofNat_lt.mpr (hlt.trans_le hm)
    · rw [restack_eq hids]
      exact (clipboard_changed (b := c.withElements _)).symm ▸ h.clipboard

end Low

/-- Heights stay below what the number of elements has come to. -/
theorem low_perform (h : b.Low m) {e : Edit α} (he : e.leavesHeights = true)
    (hplain : e.isPlain = true) (hm : (b.perform e).2.elements.length ≤ m) :
    (b.perform e).2.Low m := by
  cases e with
  | add | insert | update | updateAll | load => contradiction
  | delete ids => exact h.delete ids
  | rotate ids angle => exact h.rotate ids angle
  | setRotation ids target => exact h.setRotation ids target
  | select | toggle | clearSelection => exact ⟨h.elements, h.clipboard⟩
  | view changes => exact h.updateViewport changes
  | copy => exact h.copy
  | paste => exact h.paste
  | create kind draft => exact h.create kind draft hm
  | createArrow start finish startBinding finishBinding =>
    exact h.createArrow start finish startBinding finishBinding hm
  | moveEnd id side p binding => exact h.moveEnd id side p binding
  | group ids => exact h.group ids
  | ungroup ids => exact h.ungroup ids
  | bringToFront ids =>
    exact h.restack ids (fun chosen es =>
      List.perm_append_comm.trans (List.filter_append_perm chosen es)) hm
  | sendToBack ids => exact h.restack ids List.filter_append_perm hm
  | bringForward ids => exact h.restack ids stepUp_perm hm
  | sendBackward ids => exact h.restack ids stepDown_perm hm
  | undo | redo | beginBatch | endBatch => contradiction

/-! ## Heights along a run -/

/-- No element of the board, of the clipboard or of a recorded state lies at or above a height. -/
structure Below (m : Nat) (b : Board α) : Prop where
  throughout : b.Throughout (Document.Below m)
  clipboard : AllBelow m b.clipboard

theorem clipboard_perform {e : Edit α} (hplain : e.isPlain = false) :
    (b.perform e).2.clipboard = b.clipboard := by
  have htravel (move : History (Document α) → Option (History (Document α))) :
      (b.travel move).2.clipboard = b.clipboard := by
    unfold Board.travel
    split
    · rfl
    · dsimp only
      split <;> rfl
  have hcommit (c : Board α) : c.commit.clipboard = c.clipboard := by
    rw [Board.commit]
    split <;> rfl
  cases e with
  | load d reset =>
    cases reset with
    | false => contradiction
    | true => rfl
  | undo => exact htravel History.undo?
  | redo => exact htravel History.redo?
  | beginBatch => exact hcommit b
  | endBatch => exact hcommit { b with batching := false }
  | _ => contradiction

theorem below_perform (h : b.Below m) {e : Edit α} (he : e.leavesHeights = true)
    (hm : (b.perform e).2.elements.length ≤ m) : (b.perform e).2.Below m := by
  have hlow (hplain : e.isPlain = true) : (b.perform e).2.Low m :=
    low_perform ⟨h.throughout.document, h.clipboard⟩ he hplain hm
  constructor
  · refine h.throughout.perform (Document.lasting_below m) (fun hplain => (hlow hplain).elements) ?_
    rintro d rfl
    contradiction
  · cases hplain : e.isPlain with
    | true => exact (hlow hplain).clipboard
    | false =>
      rw [clipboard_perform hplain]
      exact h.clipboard

/-- The greatest number of elements at top level during a run of edits. -/
def peak (b : Board α) : List (Edit α) → Nat
  | [] => b.elements.length
  | e :: rest => max b.elements.length ((b.perform e).2.peak rest)

theorem length_le_peak (b : Board α) (edits : List (Edit α)) :
    b.elements.length ≤ b.peak edits := by
  cases edits with
  | nil => exact Nat.le_refl _
  | cons e rest => exact Nat.le_max_left ..

theorem below_performAll {edits : List (Edit α)} (h : b.Below m)
    (hedits : ∀ e ∈ edits, e.leavesHeights = true) (hm : b.peak edits ≤ m) :
    (b.performAll edits).Below m := by
  induction edits generalizing b with
  | nil => exact h
  | cons e rest ih =>
    rw [List.forall_mem_cons] at hedits
    have hrest : (b.perform e).2.peak rest ≤ m := (Nat.le_max_right ..).trans hm
    have hstep := below_perform h hedits.1 ((length_le_peak _ rest).trans hrest)
    exact ih hstep hedits.2 hrest

/-! ## New elements -/

/-- A board puts up a new element. -/
inductive Makes (b : Board α) (e : Element α) (c : Board α) : Prop where
  | element (kind : ElementKind) (draft : Draft α) : b.create kind draft = (.ok e, c) → Makes b e c
  | arrow (start finish : Point α) (startBinding finishBinding : Option Binding) :
      b.createArrow start finish startBinding finishBinding = (.ok e, c) → Makes b e c

/-- An element comes last in the stable order of the stack. -/
def OnTop (b : Board α) (e : Element α) : Prop := (stacked b.elements).getLast? = some e

theorem Makes.elements_eq {e : Element α} (h : b.Makes e c) :
    e.zIndex = b.elements.length ∧ c.elements = (b.elements ++ [e]).map b.kept := by
  cases h with
  | element kind draft hmake =>
    unfold create at hmake
    generalize hmade : Element.create b.ids kind { draft with zIndex := b.elements.length } = made
      at hmake
    obtain ⟨err | e', ids⟩ := made <;> cases hmake
    exact ⟨zIndex_of_create hmade, elements_changed_eq _⟩
  | arrow start finish startBinding finishBinding hmake =>
    unfold createArrow at hmake
    dsimp only at hmake
    generalize hframe : Frame.checked (α := α) _ = checked at hmake
    cases checked with
    | bad issues => cases hmake
    | ok f =>
      cases hmake
      exact ⟨Frame.zIndex_of_checked hframe, elements_changed_eq _⟩

/-- A new element lies on top exactly if no other one is higher than there are elements. -/
theorem Makes.onTop_iff {e : Element α} (h : b.Makes e c) :
    c.OnTop (b.kept e) ↔ ∀ x ∈ b.elements, x.zIndex ≤ b.elements.length := by
  obtain ⟨hz, helements⟩ := h.elements_eq
  rw [OnTop, helements, List.map_append, List.map_singleton, getLast?_stacked_concat,
    List.forall_mem_map, zIndex_kept, hz]
  exact forall₂_congr fun x _ => by rw [zIndex_kept]

/-- In a run of edits from an empty board, all heights are below the greatest number of elements. -/
theorem onTop_of_run {ids : IdSupply} {v : Viewport α} {limit : Int} {edits : List (Edit α)}
    (hedits : ∀ e ∈ edits, e.leavesHeights = true) :
    let start := Board.start ids [] v limit
    let b := start.performAll edits
    (∀ x ∈ b.elements, x.zIndex < start.peak edits) ∧ ∀ e c, b.Makes e c →
      (c.OnTop (b.kept e) ↔ ∀ x ∈ b.elements, x.zIndex ≤ b.elements.length) ∧
      (start.peak edits ≤ b.elements.length + 1 → c.OnTop (b.kept e)) := by
  intro start b
  have hstart : start.Below (start.peak edits) := by
    refine ⟨throughout_start (Document.lasting_below _) ?_, ?_⟩
    · exact fun e he => absurd he List.not_mem_nil
    · exact fun e he => absurd he List.not_mem_nil
  have hbelow := (below_performAll hstart hedits (Nat.le_refl _)).throughout.document
  refine ⟨hbelow, fun e c hmakes => ⟨hmakes.onTop_iff, fun hpeak => ?_⟩⟩
  refine hmakes.onTop_iff.mpr fun x hx => ?_
  have hx := hbelow x hx
  omega

/-- One of three elements is gone. -/
theorem onTop_of_run_delete :
    let start : Board Double := Board.start .counting [] .initial 50
    let edits : List (Edit Double) := [.create (.shape .rectangle) { x := 0, y := 0 },
      .create (.shape .rectangle) { x := 20, y := 20 }, .create .text { x := 40, y := 40 },
      .delete ["el000000001000"]]
    (∀ e ∈ edits, e.leavesHeights = true) ∧ ∃ e c, (start.performAll edits).Makes e c ∧
      c.OnTop ((start.performAll edits).kept e) := by
  intro start edits
  have hedits : ∀ e ∈ edits, e.leavesHeights = true := by simp [edits, Edit.leavesHeights]
  have hmakes : ∃ e c, (start.performAll edits).Makes e c :=
    ⟨_, _, .element (.shape .circle) { x := 60, y := 60 } rfl⟩
  obtain ⟨e, c, hmakes⟩ := hmakes
  have hpeak : start.peak edits ≤ (start.performAll edits).elements.length + 1 := by
    decide +kernel
  exact ⟨hedits, e, c, hmakes, ((onTop_of_run hedits).2 e c hmakes).2 hpeak⟩

/-- Where two of three elements are gone, the new one has the height of the second. -/
theorem not_onTop_of_delete :
    let start : Board Double := Board.start .counting [] .initial 50
    let edits : List (Edit Double) := [.create (.shape .rectangle) { x := 0, y := 0 },
      .create (.shape .rectangle) { x := 20, y := 20 }, .create .text { x := 40, y := 40 },
      .delete ["el000000001000", "el000000002000"]]
    (∀ e ∈ edits, e.leavesHeights = true) ∧ ∃ e c, (start.performAll edits).Makes e c ∧
      ¬ c.OnTop ((start.performAll edits).kept e) := by
  intro start edits
  have hmakes : ∃ e c, (start.performAll edits).Makes e c :=
    ⟨_, _, .element (.shape .circle) { x := 60, y := 60 } rfl⟩
  obtain ⟨e, c, hmakes⟩ := hmakes
  have hhigher : ¬ ∀ x ∈ (start.performAll edits).elements,
      x.zIndex ≤ (start.performAll edits).elements.length := by decide +kernel
  refine ⟨by simp [edits, Edit.leavesHeights], e, c, hmakes, fun h => ?_⟩
  exact hhigher (hmakes.onTop_iff.mp h)

end Board

end Whiteboard

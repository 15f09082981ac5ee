import Whiteboard.Proofs.Board.Content
import Whiteboard.Proofs.Document.Rebound

/-!
# Elements that are held

A drag and a resize differ in what they do to the elements that they hold, and agree in what follows
from it: arrows that are bound to these elements are bound anew. A frame computed after other frames
leaves the elements as if it had been the first (`Hold.turned_turned`), as long as no arrow is bound
to an arrow and held elements forget their former places.
-/

namespace Whiteboard

variable {α β : Type}

/-- How a gesture changes the elements that it holds, each to a value of its own. -/
structure Hold (α β : Type) where
  /-- Where the frame of an element goes. -/
  frame : β → Frame α → Frame α
  changes : β → Changes α
  /-- What the changes make of an element. -/
  own : β → Element α → Element α
  /-- Whether held arrows that are bound are bound anew. -/
  bindsOwn : Bool

namespace Hold

section Frames

variable (H : Hold α β) (held : Entries β)

/-- An element with its frame where it goes. -/
def framed (e : Element α) : Element α :=
  (Entries.get? e.id (held.mapValues H.frame)).elim e e.mapFrame

/-- Ids and bindings are kept, and frames go to the same box from wherever they were. -/
structure Lawful : Prop where
  id_frame : ∀ v f, (H.frame v f).id = f.id
  id_own : ∀ v e, (H.own v e).id = e.id
  rebinds_own : ∀ moved v e, (H.own v e).rebinds moved true = e.rebinds moved true
  box_own : ∀ v v' e, (H.frame v' (H.own v e).frame).box = (H.frame v' e.frame).box

variable {H held} {e : Element α} {v : β}

theorem framed_of_eq_none (h : Entries.get? e.id held = none) : H.framed held e = e := by
  rw [framed, Entries.get?_mapValues, h]
  rfl

theorem framed_of_eq_some (h : Entries.get? e.id held = some v) :
    H.framed held e = e.withFrame (H.frame v e.frame) := by
  rw [framed, Entries.get?_mapValues, h]
  rfl

variable (hH : H.Lawful)

include hH

theorem id_framed (e : Element α) : (H.framed held e).id = e.id := by
  cases h : Entries.get? e.id held with
  | none => rw [framed_of_eq_none h]
  | some v =>
    rw [framed_of_eq_some h, Element.id, Element.frame_withFrame, hH.id_frame]
    rfl

theorem map_id_framed (held : Entries β) (es : List (Element α)) :
    (es.map (H.framed held)).map Element.id = es.map Element.id :=
  List.map_map.trans (List.map_congr_left fun e _ => id_framed hH e)

theorem rebinds_framed (e : Element α) (moved : List String) :
    (H.framed held e).rebinds moved true = e.rebinds moved true := by
  cases h : Entries.get? e.id held with
  | none => rw [framed_of_eq_none h]
  | some v =>
    rw [framed_of_eq_some h]
    exact Element.rebinds_withFrame (hH.id_frame v e.frame)

end Frames

/-! ## Frames of a gesture -/

section Turns

variable [Scalar α] (H : Hold α β) (held : Entries β) (es : List (Element α))

/-- What is asked of the elements in one frame. -/
def updates : Batch α :=
  Batch.merge (held.mapValues H.changes)
    ((Element.rebindings held.keys (es.map (H.framed held))).filter fun m =>
      H.bindsOwn || !Entries.has m.1 held)

/-- The new geometry of an arrow, if it is bound anew. -/
def anew (e : Element α) : Option (ArrowGeometry α) :=
  if H.bindsOwn || !Entries.has e.id held then
    (H.framed held e).rebound? held.keys (es.map (H.framed held)) true
  else none

/-- What becomes of an element in one frame. -/
def turned (e : Element α) : Element α :=
  match H.anew held es e with
  | some g => e.laid g
  | none => (Entries.get? e.id held).elim e fun v => H.own v e

variable {H held es} {e : Element α}

theorem turned_of_anew {g : ArrowGeometry α} (h : H.anew held es e = some g) :
    H.turned held es e = e.laid g := by
  rw [turned, h]

theorem turned_of_not_anew (h : H.anew held es e = none) :
    H.turned held es e = (Entries.get? e.id held).elim e fun v => H.own v e := by
  rw [turned, h]

variable (hH : H.Lawful)

include hH

/-- What is asked of an element that is bound anew, and of one that is not. -/
theorem changesOf_updates (hes : (es.map Element.id).Nodup) (he : e ∈ es) :
    (H.updates held es).changesOf e
      = ((H.anew held es e).map ArrowGeometry.toChanges).or
        ((Entries.get? e.id held).map H.changes) := by
  have hids : ((es.map (H.framed held)).map Element.id).Nodup :=
    (map_id_framed hH held es).symm ▸ hes
  have hnodup : (Entries.keys (Element.rebindings held.keys (es.map (H.framed held)))).Nodup :=
    Element.nodup_keys_rebindings
  have hrebound : Entries.get? e.id (Element.rebindings held.keys (es.map (H.framed held)))
      = ((H.framed held e).rebound? held.keys (es.map (H.framed held)) true).map
        ArrowGeometry.toChanges := by
    have hid : (H.framed held e).id = e.id := id_framed hH e
    exact hid ▸ Element.get?_rebindings hids (List.mem_map_of_mem he)
  rw [Batch.changesOf, updates, Batch.merge, Entries.get?_merge_of_nodup,
    Entries.get?_filter (fun id => H.bindsOwn || !Entries.has id held), Entries.get?_mapValues,
    hrebound, anew]
  · split <;> rfl
  · exact hnodup.sublist (List.filter_sublist.map _)

/-- Just the arrows that bind and may be bound anew are. -/
theorem isSome_anew (held : Entries β) (es : List (Element α)) (e : Element α) :
    (H.anew held es e).isSome
      = ((H.bindsOwn || !Entries.has e.id held) && e.rebinds held.keys true) := by
  unfold anew
  split
  · next h => rw [Element.isSome_rebound?, rebinds_framed hH, h, Bool.true_and]
  · next h => rw [Bool.eq_false_of_not_eq_true h, Bool.false_and, Option.isSome_none]

theorem anew_eq_none_iff : H.anew held es e = none ↔
    ((H.bindsOwn || !Entries.has e.id held) && e.rebinds held.keys true) = false := by
  rw [← isSome_anew hH held es e, Option.isSome_eq_false_iff, Option.isNone_iff_eq_none]

theorem binds_of_anew {g : ArrowGeometry α} (h : H.anew held es e = some g) :
    (H.bindsOwn || !Entries.has e.id held) = true ∧ e.rebinds held.keys true = true := by
  rw [← Bool.and_eq_true, ← isSome_anew hH held es e, h, Option.isSome_some]

theorem id_turned (held : Entries β) (es : List (Element α)) (e : Element α) :
    (H.turned held es e).id = e.id := by
  unfold turned
  split
  · cases e <;> rfl
  · cases Entries.get? e.id held with
    | none => rfl
    | some v => exact hH.id_own v e

/-- An arrow that binds goes on to do so. -/
theorem rebinds_turned (held : Entries β) (es : List (Element α)) (e : Element α) :
    (H.turned held es e).rebinds held.keys true = e.rebinds held.keys true := by
  cases hanew : H.anew held es e with
  | some g =>
    have hr := (binds_of_anew hH hanew).2
    rw [turned_of_anew hanew, Element.rebinds_laid hr, hr]
  | none =>
    rw [turned_of_not_anew hanew]
    cases Entries.get? e.id held with
    | none => rfl
    | some v => exact hH.rebinds_own _ v e

/-- What is neither held nor bound to what is held stays. -/
theorem turned_eq_self (hfree : Entries.has e.id held = false)
    (hr : e.rebinds held.keys true = false) : H.turned held es e = e := by
  have hanew : H.anew held es e = none := (anew_eq_none_iff hH).mpr (by rw [hr, Bool.and_false])
  rw [Entries.has, Option.isSome_eq_false_iff, Option.isNone_iff_eq_none] at hfree
  rw [turned_of_not_anew hanew, hfree]
  rfl

/-- What is no arrow is where its hold puts it. -/
theorem turned_of_isArrow_eq_false (h : e.isArrow = false) :
    H.turned held es e = (Entries.get? e.id held).elim e fun v => H.own v e := by
  refine turned_of_not_anew (Option.eq_none_iff_forall_ne_some.mpr fun g hanew => ?_)
  rw [Element.isArrow_of_rebinds (binds_of_anew hH hanew).2] at h
  contradiction

end Turns

/-! ## Frames after frames -/

/-- Elements that were held before forget it. -/
structure Forgets [Scalar α] (H : Hold α β) (held held' : Entries β) (es : List (Element α)) :
    Prop where
  keys : held'.keys = held.keys
  own : ∀ e ∈ es, ∀ v v', Entries.get? e.id held = some v → Entries.get? e.id held' = some v' →
    (H.bindsOwn && e.rebinds held.keys true) = false → H.own v' (H.own v e) = H.own v' e
  hangs : H.bindsOwn = true → ∀ e ∈ es, Entries.has e.id held = true →
    e.rebinds held.keys true = true → e.Hangs es

section Forgets

variable [Scalar α] {H : Hold α β} {held held' : Entries β} {es : List (Element α)}
  {e : Element α}

theorem Forgets.exists_get? (hheld : H.Forgets held held' es) {v : β}
    (hv : Entries.get? e.id held = some v) : ∃ v', Entries.get? e.id held' = some v' :=
  Entries.exists_get?_of_mem_keys (hheld.keys ▸ Entries.mem_keys_of_get? hv)

variable (hH : H.Lawful) (hheld : H.Forgets held held' es)

include hH hheld

theorem anew_eq_none_congr : H.anew held' es e = none ↔ H.anew held es e = none := by
  rw [anew_eq_none_iff hH, anew_eq_none_iff hH, Entries.has_congr hheld.keys, hheld.keys]

/-- What an element may be bound to is put where it would be put anyway. -/
theorem place?_turned (hspare : Element.SparesArrows es) (he : e ∈ es) {bd : Binding}
    (hbd : bd ∈ e.bindings) :
    bd.place? ((es.map (H.turned held es)).map (H.framed held'))
      = bd.place? (es.map (H.framed held')) := by
  rw [List.map_map]
  refine Binding.place?_map_congr (fun t _ => ?_) (fun t _ => id_framed hH t) fun t ht hid => ?_
  · exact (id_framed hH _).trans (id_turned hH held es t)
  · rw [Function.comp_apply, turned_of_isArrow_eq_false hH (hspare e he bd hbd t ht hid)]
    cases hv : Entries.get? t.id held with
    | none => rfl
    | some v =>
      obtain ⟨v', hv'⟩ := hheld.exists_get? hv
      have hown : Entries.get? (H.own v t).id held' = some v' := by rw [hH.id_own, hv']
      rw [Option.elim_some, framed_of_eq_some hv', framed_of_eq_some hown,
        Element.frame_withFrame, Element.frame_withFrame, hH.box_own]

end Forgets

section Exact

variable [Field α] [LinearOrder α] [FloorRing α] [Trigonometry α] {H : Hold α β}
  {held held' : Entries β} {es : List (Element α)} {e : Element α}
  (hH : H.Lawful) (hheld : H.Forgets held held' es)

include hH hheld

/-- An arrow that is not held and was bound anew is bound as if there had been no frame before. -/
theorem anew_laid_of_free (hspare : Element.SparesArrows es) (he : e ∈ es) {g : ArrowGeometry α}
    (hanew : H.anew held es e = some g) (hv : Entries.get? e.id held = none) :
    H.anew held' (es.map (H.turned held es)) (e.laid g) = H.anew held' es e := by
  have hown := (binds_of_anew hH hanew).1
  have hid : (e.laid g).id = e.id := by cases e <;> rfl
  have hv' : Entries.get? e.id held' = none := by
    have hhas := Entries.has_congr hheld.keys e.id
    rwa [Entries.has, Entries.has, hv, Option.isSome_none, Option.isSome_eq_false_iff,
      Option.isNone_iff_eq_none] at hhas
  have hlaid : Entries.get? (e.laid g).id held' = none := by rw [hid, hv']
  rw [anew, if_pos hown, framed_of_eq_none hv] at hanew
  rw [anew, anew, hid, Entries.has_congr hheld.keys, if_pos hown, if_pos hown, hheld.keys,
    framed_of_eq_none hv', framed_of_eq_none hlaid]
  refine Element.rebound?_laid hanew fun bd hbd => ⟨place?_turned hH hheld hspare he hbd, ?_⟩
  rw [Binding.place?_map_eq_none_iff fun t _ => id_framed hH t,
    Binding.place?_map_eq_none_iff fun t _ => id_framed hH t]
  exact id

/-- So is one that is held, since both its ends are bound. -/
theorem anew_laid_of_held (hspare : Element.SparesArrows es) (he : e ∈ es) {g : ArrowGeometry α}
    (hanew : H.anew held es e = some g) {v : β} (hv : Entries.get? e.id held = some v) :
    H.anew held' (es.map (H.turned held es)) (e.laid g) = H.anew held' es e := by
  obtain ⟨hown, hr⟩ := binds_of_anew hH hanew
  have hid : (e.laid g).id = e.id := by cases e <;> rfl
  have hhas : Entries.has e.id held = true := by rw [Entries.has, hv]; rfl
  have hbinds : H.bindsOwn = true := by rwa [hhas, Bool.not_true, Bool.or_false] at hown
  obtain ⟨v', hv'⟩ := hheld.exists_get? hv
  have hlaid : Entries.get? (e.laid g).id held' = some v' := by rw [hid, hv']
  rw [anew, anew, hid, Entries.has_congr hheld.keys, if_pos hown, if_pos hown, hheld.keys,
    framed_of_eq_some hv', framed_of_eq_some hlaid]
  have hhangs : e.Hangs (es.map (H.framed held')) :=
    (hheld.hangs hbinds e he hhas hr).map fun t _ => id_framed hH t
  exact Element.rebound?_laid_of_hangs hhangs hr g (hH.id_frame v' e.frame)
    ((hH.id_frame v' _).trans hid) fun bd hbd => place?_turned hH hheld hspare he hbd

/-- Arrows are bound anew as if there had been no frame before. -/
theorem anew_turned (hspare : Element.SparesArrows es) (he : e ∈ es) :
    H.anew held' (es.map (H.turned held es)) (H.turned held es e) = H.anew held' es e := by
  cases hanew : H.anew held es e with
  | none =>
    rw [(anew_eq_none_congr hH hheld).mpr hanew, anew_eq_none_iff hH, id_turned hH,
      Entries.has_congr hheld.keys, hheld.keys, rebinds_turned hH]
    exact (anew_eq_none_iff hH).mp hanew
  | some g =>
    rw [turned_of_anew hanew]
    cases hv : Entries.get? e.id held with
    | none => exact anew_laid_of_free hH hheld hspare he hanew hv
    | some v => exact anew_laid_of_held hH hheld hspare he hanew hv

/-- Of two frames the second counts. -/
theorem turned_turned (hspare : Element.SparesArrows es) (he : e ∈ es) :
    H.turned held' (es.map (H.turned held es)) (H.turned held es e) = H.turned held' es e := by
  have hnext := anew_turned hH hheld hspare he
  cases hanew : H.anew held es e with
  | some g =>
    obtain ⟨g', hanew'⟩ := Option.ne_none_iff_exists'.mp fun hnone =>
      absurd (hanew.symm.trans ((anew_eq_none_congr hH hheld).mp hnone)) nofun
    rw [hanew'] at hnext
    rw [turned_of_anew hnext, turned_of_anew hanew', turned_of_anew hanew, Element.laid_laid]
  | none =>
    have hanew' := (anew_eq_none_congr hH hheld).mpr hanew
    rw [hanew'] at hnext
    rw [turned_of_not_anew hnext, turned_of_not_anew hanew', id_turned hH, turned_of_not_anew hanew]
    cases hv : Entries.get? e.id held with
    | none => rfl
    | some v =>
      obtain ⟨v', hv'⟩ := hheld.exists_get? hv
      rw [hv', Option.elim_some, Option.elim_some, Option.elim_some]
      refine hheld.own e he v v' hv hv' (Bool.eq_false_iff.mpr fun h => ?_)
      rw [Bool.and_eq_true] at h
      rw [anew_eq_none_iff hH, h.1, h.2] at hanew
      contradiction

end Exact

section Taken

variable [Field α] [LinearOrder α] [FloorRing α] [Trigonometry α] [IsStrictOrderedRing α]
  {H : Hold α β} {held : Entries β} {es : List (Element α)} {e : Element α}

/-- The elements take what is asked of them. -/
theorem turns_updates (hH : H.Lawful) (hes : (es.map Element.id).Nodup)
    (hvalid : ∀ e ∈ es, e.Valid)
    (hown : ∀ e ∈ es, ∀ v, Entries.get? e.id held = some v →
      ∀ ids, e.apply ids (H.changes v) = (.ok (H.own v e), ids)) :
    ∀ e ∈ es, Element.Turns (H.updates held es).changesOf (H.turned held es) e := by
  intro e he
  unfold Element.Turns
  rw [changesOf_updates hH hes he]
  cases hanew : H.anew held es e with
  | some g =>
    obtain ⟨hown, hr⟩ := binds_of_anew hH hanew
    obtain ⟨f, s, -, -, rfl, -, -⟩ := Element.exists_of_rebinds hr
    rw [turned_of_anew hanew]
    rw [anew, if_pos hown] at hanew
    obtain ⟨hw, hh⟩ := Element.sides_of_rebound? hanew fun _ _ => rfl
    exact Element.apply_geometryChanges (hvalid _ he) hw hh
  | none =>
    rw [turned_of_not_anew hanew]
    cases hv : Entries.get? e.id held with
    | none => rfl
    | some v => exact hown e he v hv

end Taken

end Hold

end Whiteboard

import Whiteboard.Proofs.Board.Content
import Whiteboard.Proofs.Document.Parts
import Whiteboard.Proofs.Document.Placed

/-!
# Rosters

Which ids occur in elements, at every depth of groups, and which of them are those of groups. What
is written and read back has the same roster, and so has what comes of changes that tell neither a
kind nor children (`Element.roster_of_apply`).
-/

namespace Whiteboard

variable {α : Type}

namespace Element

/-- The ids of elements and of all that is inside them. -/
def allIds (es : List (Element α)) : List String := (partsOf es).map Element.id

/-- The ids of elements and of all that is inside them, groups left out. -/
def leafIds (es : List (Element α)) : List String :=
  ((partsOf es).filter fun p => !p.isGroup).map Element.id

/-- The ids of all parts of an element, and whether they are groups. -/
def roster (e : Element α) : List (String × Bool) := (parts e).map fun p => (p.id, p.isGroup)

def rosterOf (es : List (Element α)) : List (String × Bool) :=
  (partsOf es).map fun p => (p.id, p.isGroup)

theorem allIds_eq (es : List (Element α)) : allIds es = (rosterOf es).map Prod.fst := by
  simp [allIds, rosterOf]

theorem leafIds_eq (es : List (Element α)) :
    leafIds es = ((rosterOf es).filter fun m => !m.2).map Prod.fst := by
  rw [leafIds, rosterOf, List.filter_map, List.map_map]
  rfl

theorem rosterOf_cons (e : Element α) (es : List (Element α)) :
    rosterOf (e :: es) = roster e ++ rosterOf es := by
  simp [rosterOf, roster, partsOf]

theorem rosterOf_eq_flatMap (es : List (Element α)) : rosterOf es = es.flatMap roster := by
  induction es with
  | nil => rfl
  | cons e es ih => rw [rosterOf_cons, ih, List.flatMap_cons]

theorem rosterOf_append (es es' : List (Element α)) :
    rosterOf (es ++ es') = rosterOf es ++ rosterOf es' := by
  simp [rosterOf_eq_flatMap]

theorem rosterOf_map {f : Element α → Element α} {es : List (Element α)}
    (h : ∀ e ∈ es, roster (f e) = roster e) : rosterOf (es.map f) = rosterOf es := by
  induction es with
  | nil => rfl
  | cons e es ih =>
    rw [List.forall_mem_cons] at h
    rw [List.map_cons, rosterOf_cons, rosterOf_cons, h.1, ih h.2]

theorem rosterOf_perm {es es' : List (Element α)} (h : es.Perm es') :
    (rosterOf es).Perm (rosterOf es') := by
  rw [rosterOf_eq_flatMap, rosterOf_eq_flatMap]
  exact h.flatMap_right roster

theorem rosterOf_sublist {es es' : List (Element α)} (h : es.Sublist es') :
    (rosterOf es).Sublist (rosterOf es') := by
  induction h with
  | slnil => exact .slnil
  | cons e _ ih =>
    rw [rosterOf_cons]
    exact ih.trans (List.sublist_append_right _ _)
  | cons_cons e _ ih =>
    rw [rosterOf_cons, rosterOf_cons]
    exact ih.append_left _

/-- The element comes first in its roster, and then its children. -/
theorem roster_eq (e : Element α) : roster e = (e.id, e.isGroup) :: rosterOf e.children := by
  cases e <;> rfl

theorem isGroup_eq_of_kind {e e' : Element α} (h : e'.kind = e.kind) :
    e'.isGroup = e.isGroup := by
  cases e <;> cases e' <;> first | rfl | contradiction

theorem roster_withFrame (e : Element α) {f : Frame α} (hf : f.id = e.id) :
    roster (e.withFrame f) = roster e := by
  rw [roster_eq, roster_eq, Element.id, frame_withFrame, hf]
  cases e <;> rfl

mutual

theorem roster_map (f : α → α) (e : Element α) : roster (e.map f) = roster e := by
  cases e with
  | group r cs =>
    rw [map, roster_eq, roster_eq]
    exact congrArg _ (rosterOf_mapAll f cs)
  | _ => rfl

theorem rosterOf_mapAll (f : α → α) (es : List (Element α)) :
    rosterOf (mapAll f es) = rosterOf es := by
  cases es with
  | nil => rfl
  | cons e es => rw [mapAll, rosterOf_cons, rosterOf_cons, roster_map f e, rosterOf_mapAll f es]

end

/-! ## Reading back -/

theorem kindOf_toMembers (e : Element α) : kindOf e.toMembers = .ok e.kind := by
  cases e <;> exact kindOf_append ..

variable [Scalar α]

theorem kind_of_ofJson {room : Nat} {ms : Entries (Json α)} {e : Element α}
    (h : ofJson room (.obj ms) = .ok e) : kindOf ms = .ok e.kind := by
  rw [ofJson] at h
  split at h
  · contradiction
  · next k hk =>
    rw [hk]
    rw [Checked.under_eq_ok_iff] at h
    cases k with
    | group =>
      dsimp only at h
      split at h
      · contradiction
      · obtain ⟨_, _, hg, -, rfl⟩ := Checked.seq_eq_ok_iff.mp h
        obtain ⟨_, -, rfl⟩ := Checked.map_eq_ok_iff.mp hg
        rfl
    | _ =>
      obtain ⟨_, _, hg, -, rfl⟩ := Checked.seq_eq_ok_iff.mp h
      obtain ⟨_, -, rfl⟩ := Checked.map_eq_ok_iff.mp hg
      rfl

theorem childrenOf_of_ofJson {room : Nat} {ms : Entries (Json α)} {f : Frame α}
    {cs : List (Element α)} (h : ofJson room (.obj ms) = .ok (group f cs)) :
    childrenOf (room - 1) ms = .ok cs := by
  obtain ⟨f', -, ⟨k, s, -, heq⟩ | ⟨i, heq⟩ | ⟨t, heq⟩ | ⟨cs', -, hcs, heq⟩⟩ := ofJson_obj_eq_ok h
  · contradiction
  · contradiction
  · contradiction
  · cases heq
    exact hcs

/-- Members that tell the id, the kind and the children of an element. -/
structure TellsTree (ms : Entries (Json α)) (e : Element α) : Prop where
  id : Entries.get? "id" ms = Entries.get? "id" e.toMembers
  type : Entries.get? "type" ms = Entries.get? "type" e.toMembers
  children : Entries.get? "children" ms = Entries.get? "children" e.toMembers

mutual

theorem roster_of_ofJson (room : Nat) (ms : Entries (Json α)) (e e' : Element α)
    (ht : TellsTree ms e) (h : ofJson room (.obj ms) = .ok e') : roster e' = roster e := by
  have hid : e'.id = e.id := id_of_ofJson (ht.id.trans (get?_id_toMembers e)) h
  have hkind : e'.kind = e.kind := by
    have hread := kind_of_ofJson h
    rw [kindOf, ht.type, ← kindOf, kindOf_toMembers] at hread
    injection hread with heq
    exact heq.symm
  rw [roster_eq, roster_eq, hid, isGroup_eq_of_kind hkind]
  cases e with
  | group f cs =>
    cases e' with
    | group f' cs' =>
      have hcs := childrenOf_of_ofJson h
      rw [childrenOf_eq, ht.children] at hcs
      have hread := Checked.under_eq_ok_iff.mp hcs
      exact congrArg _ (rosterOf_of_ofJsons (room - 1) 0 cs cs' hread)
    | _ => contradiction
  | _ => cases e' <;> first | rfl | contradiction

theorem rosterOf_of_ofJsons (room start : Nat) (es es' : List (Element α))
    (h : ofJsons room start (toJsons es) = .ok es') : rosterOf es' = rosterOf es := by
  cases es with
  | nil =>
    cases h
    rfl
  | cons e es =>
    simp only [toJsons, ofJsons, Checked.seq_eq_ok_iff, Checked.map_eq_ok_iff,
      Checked.under_eq_ok_iff] at h
    obtain ⟨_, es', ⟨e', he, rfl⟩, hes, rfl⟩ := h
    rw [toJson_eq] at he
    rw [rosterOf_cons, rosterOf_cons, roster_of_ofJson room e.toMembers e e' ⟨rfl, rfl, rfl⟩ he,
      rosterOf_of_ofJsons room (start + 1) es es' hes]

end

end Element

theorem Document.rosterOf_of_reread [Scalar α] {d d' : Document α} (h : d.reread = .ok d') :
    Element.rosterOf d'.elements = Element.rosterOf d.elements := by
  obtain ⟨ms, hms, h⟩ := Checked.andThen_eq_ok_iff.mp (Checked.toEdit_eq_ok_iff.mp h)
  cases hms
  simp only [Checked.seq_eq_ok_iff, Checked.map_eq_ok_iff] at h
  obtain ⟨_, _, ⟨_, _, ⟨es, hes, rfl⟩, -, rfl⟩, -, rfl⟩ := h
  exact Element.rosterOf_of_ofJsons _ 0 d.elements es (Checked.under_eq_ok_iff.mp hes)

/-! ## Changes -/

/-- Changes that tell neither a kind nor children. -/
def Changes.KeepsTree (changes : Changes α) : Prop :=
  Entries.get? "type" changes = none ∧ Entries.get? "children" changes = none

namespace Element

variable [Scalar α] {changes : Changes α}

theorem get?_merge_completed {key : String} (hfields : key ∉ "id" :: Changes.completedFields)
    (hkey : Entries.get? key changes = none) {e : Element α} {changes' : Changes α}
    (h : Changes.completed e (Entries.erase "id" changes) = .ok changes') :
    Entries.get? key (Entries.merge e.toMembers changes') = Entries.get? key e.toMembers := by
  rw [List.mem_cons, not_or] at hfields
  refine Entries.get?_merge_of_eq_none ?_
  rw [Changes.get?_completed hfields.2 h, Entries.get?_erase, if_neg (Ne.symm hfields.1), hkey]

/-- Where the tree is kept no ids are asked for, and who is there stays. -/
theorem roster_of_apply (h : changes.KeepsTree) (ids : IdSupply) (e : Element α) :
    (e.apply ids changes).2 = ids ∧
      ∀ e', (e.apply ids changes).1 = .ok e' → roster e' = roster e := by
  unfold apply
  split
  · exact ⟨rfl, nofun⟩
  · next changes' hcompleted =>
    have hid : Entries.get? "id" (Entries.merge e.toMembers changes')
        = Entries.get? "id" e.toMembers := by
      refine Entries.get?_merge_of_eq_none ?_
      rw [Changes.get?_completed (by decide) hcompleted,
        Entries.get?_erase, if_pos rfl]
    have hchildren := get?_merge_completed (by decide) h.2 hcompleted
    have htells : TellsTree (Entries.merge e.toMembers changes') e :=
      ⟨hid, get?_merge_completed (by decide) h.1 hcompleted,
        hchildren⟩
    have hnamed : nameMissing maxNesting ids (.obj (Entries.merge e.toMembers changes'))
        = (.obj (Entries.merge e.toMembers changes'), ids) := by
      refine nameMissing_obj (hid.trans (get?_id_toMembers e)) fun items hitems => ?_
      rw [hchildren] at hitems
      cases get?_children_toMembers hitems
      exact nameAll_toJsons (maxNesting - 1) ids e.children
    simp only [read, hnamed]
    refine ⟨trivial, fun e' he' => ?_⟩
    exact roster_of_ofJson _ _ e e' htells (Checked.toEdit_eq_ok_iff.mp he')

theorem rosterOf_applyEach {changesOf : Element α → Option (Changes α)}
    (h : ∀ e changes, changesOf e = some changes → changes.KeepsTree) (ids : IdSupply)
    (es : List (Element α)) :
    rosterOf (applyEach changesOf ids es).2.1 = rosterOf es ∧
      (applyEach changesOf ids es).2.2 = ids := by
  induction es generalizing ids with
  | nil => exact ⟨rfl, rfl⟩
  | cons e rest ih =>
    rw [applyEach]
    split
    · dsimp only
      rw [rosterOf_cons, rosterOf_cons, (ih ids).1]
      exact ⟨rfl, (ih ids).2⟩
    · next changes hchanges =>
      obtain ⟨hids, hroster⟩ := roster_of_apply (h e changes hchanges) ids e
      split
      · next happly =>
        rw [happly] at hids
        exact ⟨rfl, hids⟩
      · next e' ids' happly =>
        rw [happly] at hids hroster
        obtain rfl : ids' = ids := hids
        dsimp only
        rw [rosterOf_cons, rosterOf_cons, hroster e' rfl, (ih ids').1]
        exact ⟨rfl, (ih ids').2⟩

end Element

end Whiteboard

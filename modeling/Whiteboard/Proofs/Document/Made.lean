import Mathlib.Data.List.Nodup
import Whiteboard.Proofs.Document.Proper
import Whiteboard.Proofs.Document.Roster

/-!
# Rosters of made elements

Which ids are in what an editor makes: in copies, in groups, and in what is released from groups.
-/

namespace Whiteboard

namespace IdSupply

/-- The ids of the next elements. -/
def elementIds (s : IdSupply) : Nat → List String
  | 0 => []
  | n + 1 => s.elementId :: s.next.elementIds n

/-- The supply after some codes were issued. -/
def advance (s : IdSupply) (n : Nat) : IdSupply := { s with issued := s.issued + n }

theorem next_advance (s : IdSupply) (n : Nat) : s.next.advance n = s.advance (n + 1) := by
  rw [next, advance, advance, Nat.add_right_comm, Nat.add_assoc]

theorem advance_advance (s : IdSupply) (m n : Nat) :
    (s.advance m).advance n = s.advance (m + n) := by
  rw [advance, advance, advance, Nat.add_assoc]

theorem elementIds_add (s : IdSupply) (m n : Nat) :
    s.elementIds (m + n) = s.elementIds m ++ (s.advance m).elementIds n := by
  induction m generalizing s with
  | zero => rw [Nat.zero_add]; rfl
  | succ m ih => rw [Nat.succ_add, elementIds, elementIds, ih, next_advance, List.cons_append]

end IdSupply

theorem Frame.id_of_checked {α : Type} [Scalar α] {f f' : Frame α} (h : f.checked = .ok f') :
    f'.id = f.id := congrArg Frame.id (checked_eq_ok_iff.mp h).1

namespace Element

variable {α : Type}

theorem allIds_append (es es' : List (Element α)) :
    allIds (es ++ es') = allIds es ++ allIds es' := by
  rw [allIds_eq, rosterOf_append, List.map_append, ← allIds_eq, ← allIds_eq]

/-! ## Copies -/

mutual

theorem ids_renamed (ids : IdSupply) (e : Element α) :
    (parts (renamed ids e).1).map Element.id = ids.elementIds (parts e).length ∧
      (renamed ids e).2 = ids.advance (parts e).length := by
  cases e with
  | group f cs =>
    obtain ⟨hids, hsupply⟩ := allIds_renamedAll ids.next cs
    rw [renamed, parts, parts, List.map_cons, List.length_cons, ← ids.next_advance, hsupply]
    exact ⟨congrArg _ hids, rfl⟩
  | _ => exact ⟨rfl, rfl⟩

/-- Copies have new ids, one for each part, in the order in which they are issued. -/
theorem allIds_renamedAll (ids : IdSupply) (es : List (Element α)) :
    allIds (renamedAll ids es).1 = ids.elementIds (partsOf es).length ∧
      (renamedAll ids es).2 = ids.advance (partsOf es).length := by
  cases es with
  | nil => exact ⟨rfl, rfl⟩
  | cons e rest =>
    obtain ⟨hids, hsupply⟩ := ids_renamed ids e
    obtain ⟨hids', hsupply'⟩ := allIds_renamedAll (renamed ids e).2 rest
    rw [hsupply] at hids' hsupply'
    rw [renamedAll, partsOf, List.length_append, ids.elementIds_add, ← ids.advance_advance]
    simp only [hsupply]
    refine ⟨?_, hsupply'⟩
    rw [allIds, partsOf, List.map_append, hids]
    exact congrArg _ hids'

end

/-! ## Changed frames -/

theorem rosterOf_renumbered (es : List (Element α)) : rosterOf (renumbered es) = rosterOf es := by
  have hfrom : ∀ (es : List (Element α)) (n : Nat),
      rosterOf ((es.zipIdx n).map fun m => m.1.withZIndex m.2) = rosterOf es := by
    intro es
    induction es with
    | nil => exact fun _ => rfl
    | cons e rest ih =>
      intro n
      rw [List.zipIdx_cons, List.map_cons, rosterOf_cons, rosterOf_cons, ih (n + 1)]
      exact congrArg (· ++ _) (roster_withFrame e rfl)
  exact hfrom es 0

theorem rosterOf_partition (p : Element α → Bool) (es : List (Element α)) :
    (rosterOf es).Perm (rosterOf (es.filter p) ++ rosterOf (es.filter (!p ·))) := by
  rw [← rosterOf_append]
  exact rosterOf_perm (List.filter_append_perm p es).symm

/-- Where groups come and go, the ids of all other elements stay. -/
theorem leafIds_perm (gs : List String) {es es' : List (Element α)}
    (h : (rosterOf es).Perm (gs.map (·, true) ++ rosterOf es')) :
    (leafIds es).Perm (leafIds es') := by
  have hleaves := (h.filter fun m => !m.2).map Prod.fst
  have hgroups : (gs.map fun id => (id, true)).filter (fun m => !m.2) = [] := by
    rw [List.filter_eq_nil_iff]
    intro m hm
    obtain ⟨id, -, rfl⟩ := List.mem_map.mp hm
    exact Bool.false_ne_true
  rwa [List.filter_append, hgroups, List.nil_append, ← leafIds_eq, ← leafIds_eq] at hleaves

/-! ## Groups -/

section Groups

variable [Scalar α]

theorem roster_of_groupOf {id : String} {members : List (Element α)} {g : Element α}
    (h : groupOf id members = .ok g) : roster g = (id, true) :: rosterOf members := by
  obtain ⟨f, hf, rfl⟩ := Checked.map_eq_ok_iff.mp h
  have hid : f.id = id := Frame.id_of_checked hf
  rw [roster_eq, ← hid]
  exact congrArg _ (rosterOf_map fun e _ => roster_withFrame e rfl)

theorem roster_rescaled (sx sy : α) (e : Element α) {f : Frame α} (hf : f.id = e.id) :
    roster (e.rescaled sx sy f) = roster e := by
  unfold rescaled
  split
  · rw [roster_eq, roster_eq]
    exact congrArg (fun id => (id, false) :: _) hf
  · exact roster_withFrame e hf

theorem rosterOf_released (g : Element α) : rosterOf g.released = rosterOf g.children :=
  rosterOf_map fun e _ => roster_rescaled _ _ e rfl

/-- What is released from groups is all that was in them but the groups. -/
theorem rosterOf_groups {gs : List (Element α)} (h : ∀ g ∈ gs, g.isGroup = true) :
    (rosterOf gs).Perm ((gs.map Element.id).map (·, true) ++ rosterOf (gs.flatMap released)) := by
  induction gs with
  | nil => exact .refl _
  | cons g rest ih =>
    rw [List.forall_mem_cons] at h
    rw [rosterOf_cons, roster_eq, h.1, List.flatMap_cons, rosterOf_append, rosterOf_released,
      List.cons_append]
    refine List.Perm.cons _ (((ih h.2).append_left _).trans ?_)
    exact List.perm_append_comm_assoc ..

/-- A group dissolved: where no two elements share an id, only the chosen groups go. -/
theorem rosterOf_ungrouped {es : List (Element α)} (hes : (es.map Element.id).Nodup)
    (ids : List String) :
    let groups := (Board.among ids es).filter Element.isGroup
    (rosterOf es).Perm ((groups.map Element.id).map (·, true) ++
      rosterOf (Board.without (groups.map Element.id) es ++ groups.flatMap released)) := by
  intro groups
  have hgroups : groups = es.filter fun e => ids.contains e.id && e.isGroup := by
    rw [show groups = _ from List.filter_filter ..]
    exact List.filter_congr fun e _ => Bool.and_comm ..
  have hrest : Board.without (groups.map Element.id) es
      = es.filter fun e => !(ids.contains e.id && e.isGroup) := by
    refine List.filter_congr fun e he => congrArg _ ?_
    rw [Bool.eq_iff_iff, List.contains_iff_mem, List.mem_map, hgroups]
    constructor
    · rintro ⟨g, hg, hid⟩
      rw [List.mem_filter] at hg
      rw [← List.inj_on_of_nodup_map hes hg.1 he hid]
      exact hg.2
    · intro hchosen
      exact ⟨e, List.mem_filter.mpr ⟨he, hchosen⟩, rfl⟩
  have hall : ∀ g ∈ groups, g.isGroup = true := fun g hg => (List.mem_filter.mp hg).2
  have hsplit := rosterOf_partition (fun e => ids.contains e.id && e.isGroup) es
  rw [← hgroups, ← hrest] at hsplit
  rw [rosterOf_append]
  refine hsplit.trans (((rosterOf_groups hall).append_right _).trans ?_)
  rw [List.append_assoc]
  exact List.perm_append_comm.append_left _

theorem rosterOf_grouped {id : String} {ids : List String} {es : List (Element α)} {g : Element α}
    (h : groupOf id (Board.among ids es) = .ok g) :
    (rosterOf (Board.without ids es ++ [g])).Perm ((id, true) :: rosterOf es) := by
  rw [rosterOf_append, rosterOf_cons, roster_of_groupOf h]
  refine (List.perm_append_comm.trans ?_).trans
    ((rosterOf_partition (fun e => ids.contains e.id) es).symm.cons _)
  rw [List.cons_append, List.cons_append]
  exact .of_eq (by rw [rosterOf, rosterOf, partsOf, List.map_nil, List.append_nil]; rfl)

end Groups

/-! ## New elements -/

theorem allIds_of_create [Scalar α] {ids ids' : IdSupply} {kind : ElementKind} {d : Draft α}
    {e : Element α} (h : create ids kind d = (.ok e, ids')) :
    allIds [e] = [ids.elementId] ∧ ids' = ids.next := by
  cases kind with
  | shape kind =>
    cases h
    cases kind <;> exact ⟨rfl, rfl⟩
  | text =>
    cases h
    exact ⟨rfl, rfl⟩
  | image =>
    have hmade := Checked.toEdit_eq_ok_iff.mp (congrArg Prod.fst h)
    obtain ⟨_, height, hrest, -, rfl⟩ := Checked.seq_eq_ok_iff.mp hmade
    obtain ⟨width, -, rfl⟩ := Checked.map_eq_ok_iff.mp hrest
    exact ⟨rfl, (congrArg Prod.snd h).symm⟩
  | group => cases h

end Element

end Whiteboard

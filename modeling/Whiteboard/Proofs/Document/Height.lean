import Mathlib.Order.MinMax
import Whiteboard.Proofs.Document.Followed
import Whiteboard.Proofs.Document.Rebinding
import Whiteboard.Proofs.Document.Stack

/-!
# Heights of elements

Where the height of an element comes from. What is read back, copied, moved, or changed without a
word about its height keeps it (`Element.zIndex_of_apply`); a group has the greatest height of its
members (`Element.zIndex_of_groupOf`), and passes it on to them when they are set free
(`Element.zIndex_of_mem_released`).
-/

namespace Whiteboard

variable {α β : Type}

theorem Frame.zIndex_of_ofMembers [Scalar α] {ms : Entries (Json α)} {f : Frame α} {z : Int}
    (hz : Entries.get? "z_index" ms = some (.int z)) (h : ofMembers ms = .ok f) : f.zIndex = z := by
  revert f
  simp only [ofMembers, Checked.forall_seq, Checked.forall_map]
  intro _ _ _ _ _ _ _ _ _ _ _ _ read hread
  simp only [Schema.withDefault, hz, Schema.integer, Checked.under_ok, Checked.ok.injEq] at hread
  exact hread.symm

theorem Frame.zIndex_of_checked [Scalar α] {f f' : Frame α} (h : f.checked = .ok f') :
    f'.zIndex = f.zIndex := congrArg Frame.zIndex (checked_eq_ok_iff.mp h).1

namespace Element

/-- No element lies at or above a height. -/
def AllBelow (m : Nat) (es : List (Element α)) : Prop := ∀ e ∈ es, e.zIndex < m

instance (m : Nat) (es : List (Element α)) : Decidable (AllBelow m es) :=
  inferInstanceAs (Decidable (∀ e ∈ es, e.zIndex < m))

theorem AllBelow.mono {m n : Nat} {es : List (Element α)} (h : AllBelow m es) (hmn : m ≤ n) :
    AllBelow n es := fun e he => Int.lt_of_lt_of_le (h e he) (Int.ofNat_le.mpr hmn)

/-- Only the heights matter. -/
theorem AllBelow.of_map_zIndex {m : Nat} {es : List (Element α)} {es' : List (Element β)}
    (h : AllBelow m es) (heq : es'.map zIndex = es.map zIndex) : AllBelow m es' := by
  intro e he
  have hmem : e.zIndex ∈ es.map zIndex := heq ▸ List.mem_map_of_mem he
  obtain ⟨e', he', hz⟩ := List.mem_map.mp hmem
  exact hz ▸ h e' he'

theorem AllBelow.append {m : Nat} {es es' : List (Element α)} (h : AllBelow m es)
    (h' : AllBelow m es') : AllBelow m (es ++ es') := List.forall_mem_append.mpr ⟨h, h'⟩

theorem AllBelow.filter {m : Nat} {es : List (Element α)} (h : AllBelow m es)
    (p : Element α → Bool) : AllBelow m (es.filter p) :=
  fun e he => h e (List.mem_of_mem_filter he)

/-! ## Elements that are made of others -/

theorem map_zIndex_mapAll (f : α → β) (es : List (Element α)) :
    (mapAll f es).map zIndex = es.map zIndex := by
  induction es with
  | nil => rfl
  | cons e rest ih =>
    have hz : (e.map f).zIndex = e.zIndex := by cases e <;> rfl
    rw [mapAll, List.map_cons, List.map_cons, hz, ih]

theorem map_zIndex_renamedAll (ids : IdSupply) (es : List (Element α)) :
    (renamedAll ids es).1.map zIndex = es.map zIndex := by
  induction es generalizing ids with
  | nil => rfl
  | cons e rest ih =>
    have hz : (renamed ids e).1.zIndex = e.zIndex := by cases e <;> rfl
    rw [renamedAll]
    exact congrArg₂ List.cons hz (ih _)

theorem map_zIndex_map {f : Element α → Element α} (h : ∀ e, (f e).zIndex = e.zIndex)
    (es : List (Element α)) : (es.map f).map zIndex = es.map zIndex := by
  rw [List.map_map]
  exact List.map_congr_left fun e _ => h e

theorem zIndex_mapFrame {change : Frame α → Frame α} (h : ∀ f, (change f).zIndex = f.zIndex)
    (e : Element α) : (e.mapFrame change).zIndex = e.zIndex := by
  rw [zIndex, frame_mapFrame, h, zIndex]

theorem foldl_max_zIndex (es : List (Element α)) (z : Int) :
    es.foldl (fun z e => max z e.zIndex) z = z ∨
      ∃ e ∈ es, e.zIndex = es.foldl (fun z e => max z e.zIndex) z := by
  induction es generalizing z with
  | nil => exact .inl rfl
  | cons e rest ih =>
    rw [List.foldl_cons]
    rcases ih (max z e.zIndex) with heq | ⟨e', he', heq⟩
    · rcases max_choice z e.zIndex with hz | hz
      · exact .inl (heq.trans hz)
      · exact .inr ⟨e, List.mem_cons_self, (heq.trans hz).symm⟩
    · exact .inr ⟨e', List.mem_cons_of_mem e he', heq⟩

/-- One of the positions is the highest. -/
theorem exists_zIndex_eq_topIndex {es : List (Element α)} (hes : es ≠ []) :
    ∃ e ∈ es, e.zIndex = topIndex es := by
  obtain ⟨e, rest, rfl⟩ := List.exists_cons_of_ne_nil hes
  rcases foldl_max_zIndex rest e.zIndex with heq | ⟨e', he', heq⟩
  · exact ⟨e, List.mem_cons_self, heq.symm⟩
  · exact ⟨e', List.mem_cons_of_mem e he', heq⟩

variable [Scalar α]

theorem zIndex_of_groupOf {id : String} {members : List (Element α)} {g : Element α}
    (h : groupOf id members = .ok g) : g.zIndex = topIndex members := by
  obtain ⟨f, hf, rfl⟩ := Checked.map_eq_ok_iff.mp h
  exact Frame.zIndex_of_checked hf

theorem zIndex_of_mem_released {g e : Element α} (h : e ∈ g.released) : e.zIndex = g.zIndex := by
  obtain ⟨c, -, rfl⟩ := List.mem_map.mp h
  rw [zIndex, frame_rescaled]
  rfl

theorem zIndex_of_create {ids ids' : IdSupply} {kind : ElementKind} {d : Draft α} {e : Element α}
    (h : create ids kind d = (.ok e, ids')) : e.zIndex = d.zIndex := by
  cases kind with
  | shape kind =>
    cases h
    cases kind <;> rfl
  | text =>
    cases h
    rfl
  | image =>
    have hmade := Checked.toEdit_eq_ok_iff.mp (congrArg Prod.fst h)
    obtain ⟨_, height, hrest, -, rfl⟩ := Checked.seq_eq_ok_iff.mp hmade
    obtain ⟨width, -, rfl⟩ := Checked.map_eq_ok_iff.mp hrest
    rfl
  | group => simp [create] at h

/-! ## Elements that are read -/

omit [Scalar α] in
theorem get?_zIndex_toMembers (e : Element α) :
    Entries.get? "z_index" e.toMembers = some (.int e.zIndex) := by
  cases e <;> rfl

theorem map_zIndex_of_ofJsons {room start : Nat} {es es' : List (Element α)}
    (h : ofJsons room start (toJsons es) = .ok es') : es'.map zIndex = es.map zIndex := by
  induction es generalizing start es' with
  | nil =>
    cases h
    rfl
  | cons e es ih =>
    simp only [toJsons, ofJsons, Checked.seq_eq_ok_iff, Checked.map_eq_ok_iff,
      Checked.under_eq_ok_iff] at h
    obtain ⟨_, es', ⟨e', he, rfl⟩, hes, rfl⟩ := h
    rw [toJson_eq] at he
    have hz := Frame.zIndex_of_ofMembers (get?_zIndex_toMembers e) (frame_of_ofJson he)
    rw [List.map_cons, List.map_cons, ih hes]
    exact congrArg (· :: _) hz

/-- Changes that do not speak of the height leave it as it is. -/
theorem zIndex_of_apply {ids ids' : IdSupply} {e e' : Element α} {changes : Changes α}
    (h : e.apply ids changes = (.ok e', ids')) (hstill : ∀ m ∈ changes, m.1 ≠ "z_index") :
    e'.zIndex = e.zIndex := by
  obtain ⟨changes', ms, hcompleted, hkeys, hread⟩ := ofJson_of_apply h
  refine Frame.zIndex_of_ofMembers ?_ (frame_of_ofJson hread)
  rw [hkeys "z_index" (by decide), get?_merge_completed (by decide) ?_ hcompleted,
    get?_zIndex_toMembers]
  exact Entries.get?_eq_none_of_forall hstill

theorem AllBelow.applyEach {m : Nat} {es : List (Element α)} {batch : Batch α}
    (h : AllBelow m es) (hstill : ∀ n ∈ batch, ∀ c ∈ n.2, c.1 ≠ "z_index") (ids : IdSupply) :
    AllBelow m (Element.applyEach batch.changesOf ids es).2.1 := by
  refine forall_mem_applyEach h (fun e e' hreached he => ?_) ids
  cases hreached with
  | same => exact he
  | changed hchanges happly =>
    have hmem := Entries.mem_of_get? hchanges
    rwa [zIndex_of_apply happly (hstill _ hmem)]

end Element

end Whiteboard

import Whiteboard.Proofs.Document.Valid
import Whiteboard.Proofs.Entries

/-!
# Changed elements

Changes are merged into the members of an element, and the whole is read anew
(`Element.ofJson_of_apply`). The id stays (`Element.id_of_apply`).
-/

namespace Whiteboard

namespace Changes

variable {α : Type} [Scalar α] {key : String}

theorem get?_putEnd {name : String} (hne : name ≠ key) (p : Option (Point α)) (sx sy : α)
    (changes : Changes α) :
    Entries.get? key (putEnd name p sx sy changes) = Entries.get? key changes := by
  unfold putEnd
  split
  · split
    · rfl
    · rw [Entries.get?_set, if_neg hne]
  · rfl

theorem exists_of_putEnds {f : Frame α} {s : Shape α} {changes changes' : Changes α}
    (h : putEnds f s changes = .ok changes') : ∃ sx sy, changes'
      = putEnd "arrow_end" s.finish sx sy (putEnd "arrow_start" s.start sx sy changes) := by
  unfold putEnds at h
  cases hx : growth "width" f.width changes with
  | error err => simp [hx, bind, Except.bind] at h
  | ok sx =>
    cases hy : growth "height" f.height changes with
    | error err => simp [hx, hy, bind, Except.bind] at h
    | ok sy =>
      simp only [hx, hy, bind, Except.bind, pure, Except.pure, Except.ok.injEq] at h
      exact ⟨sx, sy, h.symm⟩

/-- Changes are completed by the ends of an arrow and by styles. -/
def completedFields : List String := ["arrow_start", "arrow_end", "style"]

theorem get?_completed (hkey : key ∉ completedFields) {e : Element α}
    {changes changes' : Changes α} (h : completed e changes = .ok changes') :
    Entries.get? key changes' = Entries.get? key changes := by
  simp only [completedFields, List.mem_cons, List.not_mem_nil, or_false, not_or] at hkey
  obtain ⟨hstart, hend, hstyle⟩ := hkey
  unfold completed at h
  split at h
  · next f s =>
    obtain ⟨sx, sy, rfl⟩ := exists_of_putEnds h
    rw [get?_putEnd (Ne.symm hend), get?_putEnd (Ne.symm hstart)]
  · next f t =>
    unfold putStyle at h
    split at h
    · cases h; rfl
    · cases h; rfl
    · cases h
      rw [Entries.get?_set, if_neg (Ne.symm hstyle)]
    · contradiction
  · cases h; rfl

end Changes

theorem Frame.id_of_ofMembers {α : Type} [Scalar α] {ms : Entries (Json α)} {f : Frame α}
    {id : String} (hid : Entries.get? "id" ms = some (.str id)) (h : ofMembers ms = .ok f) :
    f.id = id := by
  revert f
  simp only [ofMembers, Checked.forall_seq, Checked.forall_map]
  intro read hread _ _ _ _ _ _ _ _ _ _ _ _
  simp only [Schema.required, hid, Schema.text_str, Checked.under_ok, Checked.ok.injEq] at hread
  exact hread.symm

namespace Element

variable {α : Type}

theorem get?_id_toMembers (e : Element α) : Entries.get? "id" e.toMembers = some (.str e.id) := by
  cases e <;> rfl

theorem get?_nameChildren {key : String} (hkey : "children" ≠ key) (room : Nat) (s : IdSupply)
    (ms : Entries (Json α)) :
    Entries.get? key (nameChildren room s ms).1 = Entries.get? key ms := by
  induction ms generalizing s with
  | nil => rw [nameChildren]
  | cons m rest ih =>
    obtain ⟨k, v⟩ := m
    rw [nameChildren.eq_def]
    dsimp only
    split
    · next hk =>
      subst hk
      split <;> simp [Entries.get?, hkey]
    · rw [Entries.get?, Entries.get?, ih]

/-- Members with an id stay where ids are given to those that lack one, the children apart. -/
theorem get?_nameMissing (room : Nat) (s : IdSupply) {ms : Entries (Json α)} {v : Json α}
    (h : Entries.get? "id" ms = some v) :
    ∃ ms', (nameMissing room s (.obj ms)).1 = .obj ms' ∧
      ∀ key, "children" ≠ key → Entries.get? key ms' = Entries.get? key ms := by
  have hown : missingId s ms = ([], s) := if_pos (by rw [Entries.has, h]; rfl)
  rw [nameMissing.eq_def]
  dsimp only
  split
  · exact ⟨ms, rfl, fun _ _ => rfl⟩
  · split
    · exact ⟨ms, rfl, fun _ _ => rfl⟩
    · rw [hown]
      split
      · refine ⟨_, rfl, fun key hkey => ?_⟩
        rw [List.append_nil, get?_nameChildren hkey]
      · exact ⟨_, rfl, fun key _ => by rw [List.append_nil]⟩

variable [Scalar α]

theorem frame_of_ofJson {room : Nat} {ms : Entries (Json α)} {e : Element α}
    (h : ofJson room (.obj ms) = .ok e) : Frame.ofMembers ms = .ok e.frame := by
  obtain ⟨f, hf, ⟨k, s, -, rfl⟩ | ⟨i, rfl⟩ | ⟨t, rfl⟩ | ⟨cs, -, -, rfl⟩⟩ := ofJson_obj_eq_ok h <;>
    exact hf

theorem id_of_ofJson {room : Nat} {ms : Entries (Json α)} {e : Element α} {id : String}
    (hid : Entries.get? "id" ms = some (.str id)) (h : ofJson room (.obj ms) = .ok e) :
    e.id = id := Frame.id_of_ofMembers hid (frame_of_ofJson h)

/-- What comes of changes was read from the members of the element with the changes put in. -/
theorem ofJson_of_apply {ids ids' : IdSupply} {e e' : Element α} {changes : Changes α}
    (h : e.apply ids changes = (.ok e', ids')) :
    ∃ changes' ms, Changes.completed e (Entries.erase "id" changes) = .ok changes' ∧
      (∀ key, "children" ≠ key →
        Entries.get? key ms = Entries.get? key (Entries.merge e.toMembers changes')) ∧
      ofJson maxNesting (.obj ms) = .ok e' := by
  unfold apply at h
  split at h
  · simp at h
  · next changes' hcompleted =>
    have hchanges : Entries.get? "id" changes' = none := by
      rw [Changes.get?_completed (by decide) hcompleted,
        Entries.get?_erase, if_pos rfl]
    have hid : Entries.get? "id" (Entries.merge e.toMembers changes') = some (.str e.id) := by
      rw [Entries.get?_merge_of_eq_none hchanges, get?_id_toMembers]
    obtain ⟨ms, hms, hkeys⟩ := get?_nameMissing maxNesting ids hid
    refine ⟨changes', ms, hcompleted, hkeys, ?_⟩
    rw [← hms, ← Checked.toEdit_eq_ok_iff]
    exact congrArg Prod.fst h

theorem id_of_apply {ids ids' : IdSupply} {e e' : Element α} {changes : Changes α}
    (h : e.apply ids changes = (.ok e', ids')) : e'.id = e.id := by
  obtain ⟨changes', ms, hcompleted, hkeys, hread⟩ := ofJson_of_apply h
  refine id_of_ofJson ?_ hread
  rw [hkeys "id" (by decide), Entries.get?_merge_of_eq_none, get?_id_toMembers]
  rw [Changes.get?_completed (by decide) hcompleted, Entries.get?_erase,
    if_pos rfl]

mutual

/-- What is read is nested no deeper than there is room. -/
theorem nesting_le_of_read (room : Nat) (v : Json α) (e : Element α)
    (h : ofJson room v = .ok e) : nesting e ≤ room := by
  cases v with
  | obj ms =>
    obtain ⟨f, -, h⟩ := ofJson_obj_eq_ok h
    rcases h with ⟨k, s, -, rfl⟩ | ⟨i, rfl⟩ | ⟨t, rfl⟩ | ⟨cs, hroom, hcs, rfl⟩
    · exact Nat.zero_le room
    · exact Nat.zero_le room
    · exact Nat.zero_le room
    · have := nestingOf_le_of_childrenOf (room - 1) ms cs hcs
      rw [nesting]
      omega
  | _ => simp [ofJson, Checked.fail] at h

theorem nestingOf_le_of_childrenOf (room : Nat) (ms : List (String × Json α))
    (cs : List (Element α)) (h : childrenOf room ms = .ok cs) : nestingOf cs ≤ room := by
  match ms with
  | [] =>
    cases h
    exact Nat.zero_le room
  | (k, v) :: rest =>
    rw [childrenOf.eq_def] at h
    dsimp only at h
    split at h
    · cases v with
      | arr items => exact nestingOf_le_of_read room 0 items cs (Checked.under_eq_ok_iff.mp h)
      | _ => simp [Checked.fail] at h
    · exact nestingOf_le_of_childrenOf room rest cs h

theorem nestingOf_le_of_read (room start : Nat) (vs : List (Json α)) (cs : List (Element α))
    (h : ofJsons room start vs = .ok cs) : nestingOf cs ≤ room := by
  match vs with
  | [] =>
    cases h
    exact Nat.zero_le room
  | v :: rest =>
    simp only [ofJsons, Checked.seq_eq_ok_iff, Checked.map_eq_ok_iff, Checked.under_eq_ok_iff] at h
    obtain ⟨_, cs, ⟨c, hc, rfl⟩, hcs, rfl⟩ := h
    rw [nestingOf]
    exact Nat.max_le.mpr
      ⟨nesting_le_of_read room v c hc, nestingOf_le_of_read room (start + 1) rest cs hcs⟩

end

theorem nesting_le_of_apply {ids ids' : IdSupply} {e e' : Element α} {changes : Changes α}
    (h : e.apply ids changes = (.ok e', ids')) : nesting e' ≤ maxNesting := by
  obtain ⟨_, ms, -, -, hread⟩ := ofJson_of_apply h
  exact nesting_le_of_read maxNesting (.obj ms) e' hread

/-- What comes of changes is valid. -/
theorem valid_of_apply [LawfulScalar α] {ids ids' : IdSupply} {e e' : Element α}
    {changes : Changes α} (h : e.apply ids changes = (.ok e', ids')) (hfin : e'.Finite) :
    e'.Valid := by
  obtain ⟨_, ms, -, -, hread⟩ := ofJson_of_apply h
  exact valid_of_ofJson maxNesting (.obj ms) e' hread hfin

end Element

end Whiteboard

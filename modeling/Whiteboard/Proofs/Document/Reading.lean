import Whiteboard.Element.Change

/-!
# Reading JSON values

When a check succeeds, and what then holds of the value: inversion of the combinators of `Checked`,
and the readers of fields applied to fields as they are written.
-/

namespace Whiteboard

namespace Checked

variable {β γ : Type}

@[simp]
theorem map_ok (f : β → γ) (v : β) : f <$> (ok v : Checked β) = ok (f v) := rfl

@[simp]
theorem seq_ok (f : β → γ) (v : β) :
    (ok f : Checked (β → γ)) <*> (ok v : Checked β) = ok (f v) := rfl

@[simp]
theorem andThen_ok (v : β) (f : β → Checked γ) : (ok v).andThen f = f v := rfl

@[simp]
theorem under_ok (segment : String) (v : β) : (ok v).under segment = ok v := rfl

theorem map_eq_ok_iff {f : β → γ} {x : Checked β} {v : γ} :
    f <$> x = ok v ↔ ∃ w, x = ok w ∧ f w = v := by
  cases x with
  | ok w => simp
  | bad issues => exact ⟨nofun, nofun⟩

theorem seq_eq_ok_iff {f : Checked (β → γ)} {x : Checked β} {v : γ} :
    f <*> x = ok v ↔ ∃ g w, f = ok g ∧ x = ok w ∧ g w = v := by
  cases f <;> cases x
  case ok.ok => simp
  all_goals exact ⟨nofun, nofun⟩

theorem forall_map {P : γ → Prop} {f : β → γ} {x : Checked β} :
    (∀ v, f <$> x = ok v → P v) ↔ ∀ w, x = ok w → P (f w) := by
  simp only [map_eq_ok_iff, forall_exists_index, and_imp, forall_apply_eq_imp_iff₂]

/-- What holds of a value that was put together follows from its parts, one after the other. -/
theorem forall_seq {P : γ → Prop} {f : Checked (β → γ)} {x : Checked β} :
    (∀ v, f <*> x = ok v → P v) ↔ ∀ g, f = ok g → ∀ w, x = ok w → P (g w) := by
  constructor
  · intro h g hg w hw
    exact h _ (seq_eq_ok_iff.mpr ⟨g, w, hg, hw, rfl⟩)
  · intro h v hv
    obtain ⟨g, w, hg, hw, rfl⟩ := seq_eq_ok_iff.mp hv
    exact h g hg w hw

theorem andThen_eq_ok_iff {x : Checked β} {f : β → Checked γ} {v : γ} :
    x.andThen f = ok v ↔ ∃ w, x = ok w ∧ f w = ok v := by
  cases x with
  | ok w => simp
  | bad issues => exact ⟨nofun, nofun⟩

@[simp]
theorem under_eq_ok_iff {segment : String} {x : Checked β} {v : β} :
    x.under segment = ok v ↔ x = ok v := by
  cases x with
  | ok w => rfl
  | bad issues => exact ⟨nofun, nofun⟩

theorem toEdit_eq_ok_iff {x : Checked β} {v : β} : x.toEdit = .ok v ↔ x = .ok v := by
  cases x <;> simp [toEdit]

theorem collect_map_ok {δ : Type} {read : δ → Checked β} {write : β → δ} {xs : List β}
    (h : ∀ x ∈ xs, read (write x) = ok x) (start : Nat) :
    collect start ((xs.map write).map read) = ok xs := by
  induction xs generalizing start with
  | nil => rfl
  | cons x xs ih =>
    rw [List.forall_mem_cons] at h
    rw [List.map_cons, List.map_cons, collect, h.1, ih h.2]
    rfl

end Checked

namespace Schema

variable {α β : Type}

@[simp]
theorem text_str (s : String) : text (.str s : Json α) = .ok s := rfl

@[simp]
theorem members_obj (cause : Cause) (ms : Entries (Json α)) :
    members cause (.obj ms) = .ok ms := rfl

/-- A field with a default has what its reader ensures, if the default has it. -/
theorem withDefault_of_forall {key : String} {default y : β} {read : Json α → Checked β}
    {ms : Entries (Json α)} {P : β → Prop} (hd : P default) (hr : ∀ v x, read v = .ok x → P x)
    (h : withDefault key default read ms = .ok y) : P y := by
  unfold withDefault at h
  split at h
  · next v _ => exact hr v y (Checked.under_eq_ok_iff.mp h)
  · cases h; exact hd

/-- An optional value has what its reader ensures. -/
theorem optional_of_forall {read : Json α → Checked β} {v : Json α} {o : Option β} {P : β → Prop}
    (hr : ∀ w x, read w = .ok x → P x) (h : optional read v = .ok o) : ∀ x ∈ o, P x := by
  unfold optional at h
  split at h
  · cases h; simp
  · obtain ⟨x, hx, rfl⟩ := Checked.map_eq_ok_iff.mp h
    intro y hy
    cases hy
    exact hr _ _ hx

/-- A value that may be missing is read back as it is written. -/
theorem optional_ofOption {read : Json α → Checked β} {write : β → Json α} {o : Option β}
    (hn : ∀ x, (write x).isNull = false) (h : ∀ x ∈ o, read (write x) = .ok x) :
    optional read (.ofOption write o) = .ok o := by
  cases o with
  | none => rfl
  | some x =>
    have hx := h x rfl
    have hnull := hn x
    unfold Json.ofOption optional
    split
    · next heq => simp [heq, Json.isNull] at hnull
    · rw [hx]; rfl

theorem listOf_arr {read : Json α → Checked β} {write : β → Json α} {xs : List β}
    (h : ∀ x ∈ xs, read (write x) = .ok x) : listOf read (.arr (xs.map write)) = .ok xs :=
  Checked.collect_map_ok h 0

theorem named_name [Named β] {cause : Cause} {v : β} (h : Named.ofName? (Named.name v) = some v) :
    named cause (.str (Named.name v) : Json α) = .ok v := by
  simp [named, h]

variable [Scalar α]

@[simp]
theorem number_num (x : α) : number (.num x) = .ok x := rfl

@[simp]
theorem integer_int (i : Int) : integer (.int i : Json α) = .ok i := rfl

@[simp]
theorem truth_bool (b : Bool) : truth (.bool b : Json α) = .ok b := rfl

theorem notBelow_eq_ok_iff {low x y : α} : notBelow low x = .ok y ↔ low ≤ x ∧ x = y := by
  unfold notBelow
  split
  · next h => simp [h]
  · next h => simp [h, Checked.fail]

theorem le_of_atLeast {low y : α} {v : Json α} (h : atLeast low v = .ok y) : low ≤ y := by
  obtain ⟨x, -, hx⟩ := Checked.andThen_eq_ok_iff.mp h
  obtain ⟨hle, rfl⟩ := notBelow_eq_ok_iff.mp hx
  exact hle

theorem lt_of_above {low y : α} {v : Json α} (h : above low v = .ok y) : low < y := by
  obtain ⟨x, -, hx⟩ := Checked.andThen_eq_ok_iff.mp h
  split at hx
  · next hlt => cases hx; exact hlt
  · contradiction

theorem mem_of_between {low high y : α} {v : Json α} (h : between low high v = .ok y) :
    low ≤ y ∧ y ≤ high := by
  obtain ⟨x, -, hx⟩ := Checked.andThen_eq_ok_iff.mp h
  split at hx
  · next hhigh =>
    obtain ⟨hlow, rfl⟩ := notBelow_eq_ok_iff.mp hx
    exact ⟨hlow, hhigh⟩
  · contradiction

end Schema

theorem Anchor.ofName?_name (a : Anchor) : Named.ofName? (Named.name a) = some a := by
  cases a <;> decide

theorem ImageFilter.ofName?_name (f : ImageFilter) : Named.ofName? (Named.name f) = some f := by
  cases f <;> decide

theorem ElementKind.ofName?_name (k : ElementKind) : Named.ofName? (Named.name k) = some k := by
  rcases k with ⟨⟨⟩⟩ | _ | _ | _ <;> decide

end Whiteboard

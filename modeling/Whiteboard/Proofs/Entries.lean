import Mathlib.Data.List.Forall2
import Mathlib.Data.List.Nodup
import Whiteboard.Entries

/-!
# Maps with text keys

What stands under a key once entries were put in or merged, which keys there are then, and maps
with the same keys whose values are related.
-/

namespace Whiteboard

/-- Lists that are related item by item, in two steps. -/
theorem forall₂_comp {β γ δ : Type} {R : β → γ → Prop} {S : γ → δ → Prop} {T : β → δ → Prop}
    (hT : ∀ b c d, R b c → S c d → T b d) {bs : List β} {cs : List γ} {ds : List δ}
    (h : List.Forall₂ R bs cs) (h' : List.Forall₂ S cs ds) : List.Forall₂ T bs ds := by
  induction h generalizing ds with
  | nil =>
    cases h'
    exact .nil
  | cons hR _ ih =>
    cases h' with
    | cons hS h' => exact .cons (hT _ _ _ hR hS) (ih h')

theorem exists_of_mem_right {β γ : Type} {R : β → γ → Prop} {bs : List β} {cs : List γ}
    (h : List.Forall₂ R bs cs) {c : γ} (hc : c ∈ cs) : ∃ b ∈ bs, R b c := by
  induction h with
  | nil => cases hc
  | @cons b _ _ _ hR _ ih =>
    rcases List.mem_cons.mp hc with rfl | hc
    · exact ⟨b, List.mem_cons_self, hR⟩
    · obtain ⟨b', hb', hR'⟩ := ih hc
      exact ⟨b', List.mem_cons_of_mem _ hb', hR'⟩

namespace Entries

variable {β γ : Type} {key : String} {v : β} {es es' base changes : Entries β}

/-! ## Members -/

theorem mem_of_get? (h : get? key es = some v) : (key, v) ∈ es := by
  induction es with
  | nil => contradiction
  | cons e rest ih =>
    rw [get?] at h
    split at h
    · next hk =>
      cases h
      exact hk ▸ List.mem_cons_self
    · exact List.mem_cons_of_mem _ (ih h)

theorem get?_eq_some_iff (h : es.keys.Nodup) : get? key es = some v ↔ (key, v) ∈ es := by
  refine ⟨mem_of_get?, fun hmem => ?_⟩
  induction es with
  | nil => contradiction
  | cons e rest ih =>
    rw [keys, List.map_cons, List.nodup_cons] at h
    rw [get?]
    rcases List.mem_cons.mp hmem with rfl | hmem
    · exact if_pos rfl
    · have hne : e.1 ≠ key := fun heq => h.1 (heq ▸ List.mem_map_of_mem hmem)
      rw [if_neg hne]
      exact ih h.2 hmem

/-- Where no key stands twice, the keys lead to the values one by one. -/
theorem forall₂_get? (h : es.keys.Nodup) :
    List.Forall₂ (fun key v => get? key es = some v) es.keys (es.map (·.2)) := by
  rw [keys, List.forall₂_map_left_iff, List.forall₂_map_right_iff, List.forall₂_same]
  exact fun m hm => (get?_eq_some_iff h).mpr hm

/-- The order of the keys does not matter. -/
theorem get?_of_perm (h : es.keys.Nodup) (hperm : es'.Perm es) : get? key es' = get? key es := by
  have h' : es'.keys.Nodup := (hperm.map _).nodup_iff.mpr h
  exact Option.ext fun v => by rw [get?_eq_some_iff h, get?_eq_some_iff h', hperm.mem_iff]

theorem get?_eq_none_of_forall (h : ∀ m ∈ es, m.1 ≠ key) : get? key es = none := by
  cases hv : get? key es with
  | none => rfl
  | some v => exact absurd rfl (h _ (mem_of_get? hv))

theorem get?_filter (p : String → Bool) (key : String) (es : Entries β) :
    get? key (es.filter fun m => p m.1) = if p key then get? key es else none := by
  induction es with
  | nil => simp [get?]
  | cons e rest ih => grind [get?]

theorem get?_append (key : String) (es es' : Entries β) :
    get? key (es ++ es') = (get? key es).or (get? key es') := by
  induction es with
  | nil => rfl
  | cons e rest ih =>
    rw [List.cons_append, get?, get?]
    split
    · rfl
    · exact ih

theorem mem_of_mem_set {m : String × β} (h : m ∈ set key v es) : m = (key, v) ∨ m ∈ es := by
  induction es with
  | nil => exact .inl (List.mem_singleton.mp h)
  | cons e rest ih =>
    rw [set] at h
    split at h
    · exact (List.mem_cons.mp h).imp id (List.mem_cons_of_mem _)
    · rcases List.mem_cons.mp h with rfl | h
      · exact .inr List.mem_cons_self
      · exact (ih h).imp id (List.mem_cons_of_mem _)

theorem mem_of_mem_merge {m : String × β} (h : m ∈ merge base changes) :
    m ∈ changes ∨ m ∈ base := by
  induction changes generalizing base with
  | nil => exact .inr h
  | cons c rest ih =>
    rcases ih h with h | h
    · exact .inl (List.mem_cons_of_mem _ h)
    · rcases mem_of_mem_set h with rfl | h
      · exact .inl List.mem_cons_self
      · exact .inr h

/-! ## Merging -/

/-- What stands under a key comes with the changes, or stood there before. -/
theorem get?_merge (h : get? key (merge base changes) = some v) :
    (key, v) ∈ changes ∨ get? key base = some v := by
  induction changes generalizing base with
  | nil => exact .inr h
  | cons c rest ih =>
    rcases ih h with h | h
    · exact .inl (List.mem_cons_of_mem _ h)
    · rw [get?_set] at h
      split at h
      · next hk =>
        cases h
        exact .inl (hk ▸ List.mem_cons_self)
      · exact .inr h

theorem get?_merge_of_eq_none (h : get? key changes = none) :
    get? key (merge base changes) = get? key base := by
  induction changes generalizing base with
  | nil => rfl
  | cons c rest ih =>
    rw [get?] at h
    split at h
    · contradiction
    · next hne =>
      rw [merge, List.foldl_cons]
      exact (ih h).trans (by rw [get?_set, if_neg hne])

/-- Changes with no key twice stand over what was there. -/
theorem get?_merge_of_nodup (h : changes.keys.Nodup) :
    get? key (merge base changes) = (get? key changes).or (get? key base) := by
  induction changes generalizing base with
  | nil => rfl
  | cons c rest ih =>
    rw [keys, List.map_cons, List.nodup_cons] at h
    rw [merge, List.foldl_cons]
    refine (ih h.2).trans ?_
    rw [get?_set, get?]
    split
    · next hk =>
      have hrest : get? key rest = none := get?_eq_none_of_forall fun m hm heq =>
        h.1 (hk ▸ heq ▸ List.mem_map_of_mem hm)
      rw [hrest]
      rfl
    · rfl

/-! ## Keys -/

theorem exists_get?_of_mem_keys (h : key ∈ es.keys) : ∃ v, get? key es = some v :=
  Option.isSome_iff_exists.mp (has_eq_true_iff.mpr h)

theorem mem_keys_of_get? (h : get? key es = some v) : key ∈ es.keys :=
  has_eq_true_iff.mp (Option.isSome_iff_exists.mpr ⟨v, h⟩)

theorem keys_append : (es ++ es').keys = es.keys ++ es'.keys := List.map_append ..

theorem not_mem_of_nodup (h : (es ++ (key, v) :: es').keys.Nodup) : key ∉ es.keys := by
  intro hmem
  rw [keys_append, keys, keys, List.map_cons, List.nodup_append] at h
  exact h.2.2 key hmem key List.mem_cons_self rfl

theorem set_of_not_mem (h : key ∉ es.keys) : set key v es = es ++ [(key, v)] := by
  induction es with
  | nil => rfl
  | cons e es ih =>
    obtain ⟨k, v⟩ := e
    simp only [keys, List.map_cons, List.mem_cons, not_or] at h
    rw [set, if_neg (Ne.symm h.1), ih h.2, List.cons_append]

theorem mem_keys_set {other : String} :
    key ∈ (set other v es).keys ↔ key ∈ es.keys ∨ key = other := by
  rw [← has_eq_true_iff, ← has_eq_true_iff, has, has, get?_set]
  split
  · next h => simp [h]
  · next h => simp [Ne.symm h]

theorem mem_keys_merge :
    key ∈ (merge base changes).keys ↔ key ∈ base.keys ∨ key ∈ changes.keys := by
  induction changes generalizing base with
  | nil => simp [merge, keys]
  | cons c rest ih =>
    have hkeys : keys (c :: rest) = c.1 :: keys rest := rfl
    rw [merge, List.foldl_cons, ← merge, ih, mem_keys_set, hkeys, List.mem_cons, or_assoc]

theorem nodup_keys_set (h : es.keys.Nodup) (key : String) (v : β) : (set key v es).keys.Nodup := by
  induction es with
  | nil => exact List.nodup_singleton key
  | cons e rest ih =>
    have hkeys : keys (e :: rest) = e.1 :: keys rest := rfl
    rw [hkeys, List.nodup_cons] at h
    rw [set]
    split
    · next hk => exact List.nodup_cons.mpr (hk ▸ h)
    · next hne =>
      refine List.nodup_cons.mpr ⟨fun hmem => ?_, ih h.2⟩
      exact (mem_keys_set.mp hmem).elim h.1 hne

theorem has_congr {es : Entries β} {es' : Entries γ} (h : es.keys = es'.keys) (key : String) :
    has key es = has key es' := by
  rw [Bool.eq_iff_iff, has_eq_true_iff, has_eq_true_iff, h]

/-- New keys are put in at the end. -/
theorem merge_of_nodup (h : (base ++ changes).keys.Nodup) :
    merge base changes = base ++ changes := by
  induction changes generalizing base with
  | nil => exact (List.append_nil _).symm
  | cons c rest ih =>
    have hset : set c.1 c.2 base = base ++ [c] := set_of_not_mem (not_mem_of_nodup h)
    have hrest : merge (base ++ [c]) rest = base ++ c :: rest := by
      rw [ih, List.append_assoc, List.singleton_append]
      rwa [List.append_assoc]
    rw [← hrest, ← hset]
    rfl

/-! ## Other values -/

theorem get?_mapValues (f : β → γ) (key : String) (es : Entries β) :
    get? key (es.mapValues f) = (get? key es).map f := by
  induction es with
  | nil => rfl
  | cons e rest ih =>
    have hcons : mapValues f (e :: rest) = (e.1, f e.2) :: mapValues f rest := rfl
    rw [hcons, get?, get?, ih]
    split <;> rfl

theorem has_mapValues (f : β → γ) (key : String) (es : Entries β) :
    has key (es.mapValues f) = has key es := by
  rw [has, get?_mapValues, Option.isSome_map, has]

theorem keys_mapValues (f : β → γ) (es : Entries β) : (es.mapValues f).keys = es.keys := by
  rw [keys, keys, mapValues, List.map_map]
  rfl

/-! ## Related maps -/

/-- Two maps with the same keys in the same order, and related values. -/
def Alike (R : β → γ → Prop) : Entries β → Entries γ → Prop :=
  List.Forall₂ fun a b => a.1 = b.1 ∧ R a.2 b.2

namespace Alike

variable {R : β → β → Prop}

theorem refl (h : ∀ v, R v v) (es : Entries β) : Alike R es es :=
  List.forall₂_same.mpr fun _ _ => ⟨rfl, h _⟩

theorem keys_eq (h : Alike R es es') : es'.keys = es.keys := by
  induction h with
  | nil => rfl
  | cons h _ ih => exact congrArg₂ List.cons h.1.symm ih

theorem exists_get? (h : Alike R es es') (hv : get? key es' = some v) :
    ∃ u, get? key es = some u ∧ R u v := by
  induction h with
  | nil => cases hv
  | @cons a b _ _ hab _ ih =>
    rw [get?, ← hab.1] at hv
    rw [get?]
    split at hv
    · next hk =>
      cases hv
      exact ⟨a.2, if_pos hk, hab.2⟩
    · next hk =>
      rw [if_neg hk]
      exact ih hv

theorem exists_get?_right (h : Alike R es es') (hv : get? key es = some v) :
    ∃ w, get? key es' = some w ∧ R v w := by
  induction h with
  | nil => cases hv
  | @cons a b _ _ hab _ ih =>
    rw [get?, hab.1] at hv
    rw [get?]
    split at hv
    · next hk =>
      cases hv
      exact ⟨b.2, if_pos hk, hab.2⟩
    · next hk =>
      rw [if_neg hk]
      exact ih hv

/-- Related values have their place under the same keys. -/
theorem exists_of_forall₂ {vs : List β} (h : List.Forall₂ R (es.map (·.2)) vs) :
    ∃ es' : Entries β, Alike R es es' ∧ es'.map (·.2) = vs := by
  induction es generalizing vs with
  | nil =>
    cases h
    exact ⟨[], .nil, rfl⟩
  | cons e es ih =>
    cases h with
    | @cons _ v _ vs he h =>
      obtain ⟨es', halike, hvs⟩ := ih h
      exact ⟨(e.1, v) :: es', .cons ⟨rfl, he⟩ halike, congrArg (v :: ·) hvs⟩

/-- A value that is related to the first one may be put in its place. -/
theorem set {v' : β} (h : Alike R es es') (hv : get? key es = some v) (hR : R v v') :
    Alike R es (set key v' es') := by
  induction h with
  | nil => cases hv
  | @cons a b _ _ hab _ ih =>
    obtain ⟨k, w⟩ := b
    rw [get?, hab.1] at hv
    rw [Entries.set]
    split at hv
    · next hk =>
      cases hv
      rw [if_pos hk]
      exact .cons ⟨hab.1.trans hk, hR⟩ ‹_›
    · next hk =>
      rw [if_neg hk]
      exact .cons hab (ih hv)

theorem trans (hR : ∀ u v w, R u v → R v w → R u w) {es'' : Entries β} (h : Alike R es es')
    (h' : Alike R es' es'') : Alike R es es'' :=
  forall₂_comp (fun _ _ _ h h' => ⟨h.1.trans h'.1, hR _ _ _ h.2 h'.2⟩) h h'

end Alike

end Entries

end Whiteboard

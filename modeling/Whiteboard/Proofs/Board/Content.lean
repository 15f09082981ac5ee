import Mathlib.Data.List.Forall2
import Whiteboard.Board.Content
import Whiteboard.Proofs.Document.Apply

/-!
# Changed lists of elements

Where a batch is applied to elements one after the other, each of them stays or is changed in its
place, also when a later one refuses (`Element.forall₂_applyEach`). Ids and their order stay.
-/

namespace Whiteboard

namespace Element

variable {α : Type} [Scalar α]

/-- What may have become of an element by its changes. -/
inductive Reached (changesOf : Element α → Option (Changes α)) (e : Element α) :
    Element α → Prop where
  | same : Reached changesOf e e
  | changed {e' : Element α} {changes : Changes α} {ids ids' : IdSupply} :
      changesOf e = some changes → e.apply ids changes = (.ok e', ids') → Reached changesOf e e'

variable {changesOf : Element α → Option (Changes α)}

theorem Reached.id_eq {e e' : Element α} (h : Reached changesOf e e') : e.id = e'.id := by
  cases h with
  | same => rfl
  | changed _ happly => exact (id_of_apply happly).symm

theorem forall₂_reached_self (es : List (Element α)) : List.Forall₂ (Reached changesOf) es es :=
  List.forall₂_same.mpr fun _ _ => .same

/-- Each element stays or is changed in its place. -/
theorem forall₂_applyEach (changesOf : Element α → Option (Changes α)) (ids : IdSupply)
    (es : List (Element α)) :
    List.Forall₂ (Reached changesOf) es (applyEach changesOf ids es).2.1 := by
  induction es generalizing ids with
  | nil => exact .nil
  | cons e rest ih =>
    rw [applyEach]
    split
    · exact .cons .same (ih ids)
    · next changes hchanges =>
      split
      · exact forall₂_reached_self _
      · next e' ids' happly => exact .cons (.changed hchanges happly) (ih ids')

theorem map_id_of_reached {es es' : List (Element α)}
    (h : List.Forall₂ (Reached changesOf) es es') : es'.map Element.id = es.map Element.id := by
  induction h with
  | nil => rfl
  | cons he _ ih => rw [List.map_cons, List.map_cons, he.id_eq, ih]

/-- Ids and their order stay. -/
theorem map_id_applyEach (changesOf : Element α → Option (Changes α)) (ids : IdSupply)
    (es : List (Element α)) : (applyEach changesOf ids es).2.1.map Element.id = es.map Element.id :=
  map_id_of_reached (forall₂_applyEach changesOf ids es)

/-- What holds of all elements, and of each that comes of its changes, holds of all afterwards. -/
theorem forall_mem_applyEach {P : Element α → Prop} {es : List (Element α)} (hes : ∀ e ∈ es, P e)
    (hP : ∀ e e', Reached changesOf e e' → P e → P e') (ids : IdSupply) :
    ∀ e ∈ (applyEach changesOf ids es).2.1, P e := by
  have hreached := forall₂_applyEach changesOf ids es
  generalize (applyEach changesOf ids es).2.1 = es' at hreached
  induction hreached with
  | nil => nofun
  | cons he _ ih =>
    rw [List.forall_mem_cons] at hes ⊢
    exact ⟨hP _ _ he hes.1, ih hes.2⟩

/-- Without changes for any of them the elements stay. -/
theorem applyEach_of_none {ids : IdSupply} {es : List (Element α)}
    (h : ∀ e ∈ es, changesOf e = none) : applyEach changesOf ids es = (none, es, ids) := by
  induction es with
  | nil => rfl
  | cons e rest ih =>
    rw [List.forall_mem_cons] at h
    rw [applyEach, h.1, ih h.2]

/-! ## Changes that are taken -/

section Turns

variable {turn : Element α → Element α}

/-- An element takes its changes, and becomes what they make of it. -/
def Turns (changesOf : Element α → Option (Changes α)) (turn : Element α → Element α)
    (e : Element α) : Prop :=
  match changesOf e with
  | none => turn e = e
  | some changes => ∀ ids, e.apply ids changes = (.ok (turn e), ids)

theorem applyEach_eq_map {es : List (Element α)} (h : ∀ e ∈ es, Turns changesOf turn e)
    (ids : IdSupply) : applyEach changesOf ids es = (none, es.map turn, ids) := by
  induction es with
  | nil => rfl
  | cons e rest ih =>
    rw [List.forall_mem_cons] at h
    obtain ⟨he, hrest⟩ := h
    unfold Turns at he
    rw [applyEach]
    cases hchanges : changesOf e with
    | none =>
      rw [hchanges] at he
      rw [ih hrest, List.map_cons, he]
    | some changes =>
      rw [hchanges] at he
      simp only [he ids, ih hrest, List.map_cons]

end Turns

end Element

theorem Batch.changesOf_singleton {α : Type} (id : String) (changes : Changes α) (e : Element α) :
    changesOf [(id, changes)] e = if id = e.id then some changes else none := rfl

end Whiteboard

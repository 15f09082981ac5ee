import Whiteboard.Board.Content
import Whiteboard.Proofs.Document.Placed

/-!
# Arrows that follow

Which arrows are given a new geometry when elements moved. Where no two elements share an id, the
batch of these changes holds for each element what `Element.rebound?` finds for it
(`Element.get?_rebindings`). Such changes only place an arrow, so that no valid arrow refuses them.
-/

namespace Whiteboard

namespace Element

variable {α : Type}

section Fold

variable {f : Element α → Option (ArrowGeometry α)} {l : List (Element α)}

/-- One element's share in the batch. -/
private def share (f : Element α → Option (ArrowGeometry α)) (batch : Batch α) (e : Element α) :
    Batch α :=
  match f e with
  | some g => Entries.set e.id g.toChanges batch
  | none => batch

private theorem mem_foldl {batch : Batch α} {m : String × Changes α}
    (h : m ∈ l.foldl (share f) batch) :
    m ∈ batch ∨
      ∃ (e : Element α) (g : ArrowGeometry α), f e = some g ∧ m = (e.id, g.toChanges) := by
  induction l generalizing batch with
  | nil => exact .inl h
  | cons e rest ih =>
    rcases ih h with hm | hm
    · unfold share at hm
      split at hm
      · next g hg =>
        rcases Entries.mem_of_mem_set hm with rfl | hm
        · exact .inr ⟨e, g, hg, rfl⟩
        · exact .inl hm
      · exact .inl hm
    · exact .inr hm

private theorem get?_share_of_ne {id : String} (batch : Batch α) {e : Element α} (h : e.id ≠ id) :
    Entries.get? id (share f batch e) = Entries.get? id batch := by
  unfold share
  split
  · rw [Entries.get?_set, if_neg h]
  · rfl

private theorem get?_foldl_of_not_mem {id : String} (batch : Batch α)
    (h : id ∉ l.map Element.id) :
    Entries.get? id (l.foldl (share f) batch) = Entries.get? id batch := by
  induction l generalizing batch with
  | nil => rfl
  | cons e rest ih =>
    rw [List.map_cons, List.mem_cons, not_or] at h
    rw [List.foldl_cons, ih _ h.2, get?_share_of_ne batch (Ne.symm h.1)]

private theorem get?_foldl {batch : Batch α} (hl : (l.map Element.id).Nodup) {e : Element α}
    (he : e ∈ l) (hbatch : Entries.get? e.id batch = none) :
    Entries.get? e.id (l.foldl (share f) batch) = (f e).map ArrowGeometry.toChanges := by
  induction l generalizing batch with
  | nil => contradiction
  | cons first rest ih =>
    rw [List.map_cons, List.nodup_cons] at hl
    rw [List.foldl_cons]
    rcases List.mem_cons.mp he with rfl | he
    · rw [get?_foldl_of_not_mem _ hl.1, share]
      cases f e with
      | none => exact hbatch
      | some g => rw [Entries.get?_set, if_pos rfl, Option.map_some]
    · have hne : first.id ≠ e.id := fun heq => hl.1 (heq ▸ List.mem_map_of_mem he)
      exact ih hl.2 he ((get?_share_of_ne batch hne).trans hbatch)

private theorem nodup_keys_foldl {batch : Batch α} (h : (Entries.keys batch).Nodup) :
    (Entries.keys (l.foldl (share f) batch)).Nodup := by
  induction l generalizing batch with
  | nil => exact h
  | cons e rest ih =>
    rw [List.foldl_cons]
    refine ih ?_
    unfold share
    split
    · exact Entries.nodup_keys_set h _ _
    · exact h

end Fold

variable [Scalar α] {moved : List String} {es : List (Element α)} {withMoved : Bool}

theorem exists_of_mem_rebindings {m : String × Changes α}
    (h : m ∈ rebindings moved es withMoved) :
    ∃ (e : Element α) (g : ArrowGeometry α),
      e.rebound? moved es withMoved = some g ∧ m = (e.id, g.toChanges) :=
  (mem_foldl h).resolve_left List.not_mem_nil

theorem get?_rebindings (hes : (es.map Element.id).Nodup) {e : Element α} (he : e ∈ es) :
    Entries.get? e.id (rebindings moved es withMoved)
      = (e.rebound? moved es withMoved).map ArrowGeometry.toChanges :=
  get?_foldl hes he rfl

theorem get?_rebindings_of_not_mem {id : String} (h : id ∉ es.map Element.id) :
    Entries.get? id (rebindings moved es withMoved) = none :=
  get?_foldl_of_not_mem [] h

theorem mem_ids_of_mem_rebindings {m : String × Changes α}
    (h : m ∈ rebindings moved es withMoved) : m.1 ∈ es.map Element.id := by
  by_contra hnot
  have hhas := Entries.has_eq_true_iff.mpr (List.mem_map_of_mem h)
  rw [Entries.has, get?_rebindings_of_not_mem hnot] at hhas
  contradiction

theorem nodup_keys_rebindings : (Entries.keys (rebindings moved es withMoved)).Nodup :=
  nodup_keys_foldl List.nodup_nil

theorem between_of_rebound? {e : Element α} {g : ArrowGeometry α}
    (h : e.rebound? moved es withMoved = some g) :
    ∃ start finish, g = .between start finish ArrowGeometry.leastSide := by
  unfold rebound? at h
  split at h
  · dsimp only at h
    split at h
    · cases h
      exact ⟨_, _, rfl⟩
    · contradiction
  · contradiction

/-- Valid elements do not refuse to be placed anew, one after the other. -/
theorem applyEach_of_places {changesOf : Element α → Option (Changes α)}
    (h : ∀ e ∈ es, ∀ changes, changesOf e = some changes →
      e.Valid ∧ nesting e ≤ maxNesting ∧ changes.Places) (ids : IdSupply) :
    (applyEach changesOf ids es).1 = none := by
  induction es generalizing ids with
  | nil => rfl
  | cons e rest ih =>
    rw [List.forall_mem_cons] at h
    rw [applyEach]
    split
    · exact ih h.2 ids
    · next changes hchanges =>
      obtain ⟨hvalid, hroom, hplaces⟩ := h.1 changes hchanges
      obtain ⟨e', he'⟩ := apply_of_places hvalid hroom hplaces ids
      rw [he']
      exact ih h.2 ids

end Element

/-! ## Geometries place -/

variable {α : Type} [Scalar α]

/-- All numbers of some changes are finite. -/
def Changes.Finite (changes : Changes α) : Prop :=
  Json.AllMembers (fun x => Scalar.isFinite x = true) changes

/-- All changes of a batch place elements, if their numbers are finite. -/
def Batch.Proper (batch : Batch α) : Prop := ∀ m ∈ batch, Changes.Finite m.2 → Changes.Places m.2

variable [LawfulScalar α]

theorem greater_nonneg {a b : α} (hb : 0 ≤ b) (hself : b ≤ b)
    (h : Scalar.isFinite (Scalar.greater a b) = true) : 0 ≤ Scalar.greater a b :=
  LawfulScalar.le_trans hb (Scalar.le_greater_right hself (LawfulScalar.le_self h))

/-- The sides of the box of an arrow are not negative. -/
theorem ArrowGeometry.sides_between {start finish : Point α} {n : Nat} (hn : n < Nat.pow 2 53)
    (h : (between start finish (OfNat.ofNat n)).toChanges.Finite) :
    0 ≤ (between start finish (OfNat.ofNat n)).box.width ∧
      0 ≤ (between start finish (OfNat.ofNat n)).box.height := by
  have hleast : (0 : α) ≤ OfNat.ofNat n := Scalar.ofNat_nonneg hn
  have hself : (OfNat.ofNat n : α) ≤ OfNat.ofNat n :=
    LawfulScalar.le_self (Scalar.isFinite_ofNat hn)
  simp [toChanges, Changes.Finite] at h
  obtain ⟨-, -, hw, hh, -⟩ := h
  exact ⟨greater_nonneg hleast hself hw, greater_nonneg hleast hself hh⟩

theorem ArrowGeometry.places_between {start finish : Point α}
    (h : (between start finish leastSide).toChanges.Finite) :
    (between start finish leastSide).toChanges.Places := by
  obtain ⟨hw, hh⟩ := sides_between (n := 10) (by decide) h
  intro m hm
  simp only [toChanges, List.mem_cons, List.not_mem_nil, or_false] at hm
  rcases hm with rfl | rfl | rfl | rfl | rfl | rfl
  · exact .position (.inl rfl)
  · exact .position (.inr rfl)
  · exact .side (.inl rfl) hw
  · exact .side (.inr rfl) hh
  · exact .finish (.inl rfl)
  · exact .finish (.inr rfl)

namespace Element

section Rebound

variable {moved : List String} {es : List (Element α)} {withMoved : Bool} {e : Element α}
  {g : ArrowGeometry α}

theorem sides_of_rebound? (h : e.rebound? moved es withMoved = some g) (hfin : g.toChanges.Finite) :
    0 ≤ g.box.width ∧ 0 ≤ g.box.height := by
  obtain ⟨start, finish, rfl⟩ := between_of_rebound? h
  exact ArrowGeometry.sides_between (n := 10) (by decide) hfin

theorem places_of_rebound? (h : e.rebound? moved es withMoved = some g)
    (hfin : g.toChanges.Finite) : g.toChanges.Places := by
  obtain ⟨start, finish, rfl⟩ := between_of_rebound? h
  exact ArrowGeometry.places_between hfin

end Rebound

theorem proper_rebindings (moved : List String) (es : List (Element α)) (withMoved : Bool) :
    (rebindings moved es withMoved).Proper := by
  intro m hm
  obtain ⟨e, g, hg, rfl⟩ := exists_of_mem_rebindings hm
  exact places_of_rebound? hg

end Element

end Whiteboard

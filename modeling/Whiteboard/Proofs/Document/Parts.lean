import Whiteboard.Proofs.Document.Valid

/-!
# Parts of elements

An element and the elements inside it, at every depth of groups.
-/

namespace Whiteboard

namespace Element

variable {α : Type}

mutual

/-- The element itself and all elements inside it. -/
def parts : Element α → List (Element α)
  | group f cs => group f cs :: partsOf cs
  | e => [e]

def partsOf : List (Element α) → List (Element α)
  | [] => []
  | e :: rest => parts e ++ partsOf rest

end

theorem partsOf_eq_flatMap (es : List (Element α)) : partsOf es = es.flatMap parts := by
  induction es with
  | nil => rfl
  | cons e rest ih => rw [partsOf, ih, List.flatMap_cons]

theorem mem_partsOf {es : List (Element α)} {p : Element α} :
    p ∈ partsOf es ↔ ∃ e ∈ es, p ∈ parts e := by
  rw [partsOf_eq_flatMap, List.mem_flatMap]

theorem mem_parts_self (e : Element α) : e ∈ parts e := by
  cases e <;> exact List.mem_cons_self

theorem subset_partsOf (es : List (Element α)) : es ⊆ partsOf es := fun e he =>
  mem_partsOf.mpr ⟨e, he, mem_parts_self e⟩

theorem sublist_partsOf (es : List (Element α)) : es.Sublist (partsOf es) := by
  induction es with
  | nil => exact .slnil
  | cons e rest ih => exact (List.singleton_sublist.mpr (mem_parts_self e)).append ih

theorem mem_partsOf_of_child {es : List (Element α)} {g c : Element α} (hg : g ∈ es)
    (hc : c ∈ g.children) : c ∈ partsOf es := by
  refine mem_partsOf.mpr ⟨g, hg, ?_⟩
  cases g with
  | group f cs => exact List.mem_cons_of_mem _ (subset_partsOf cs hc)
  | _ => contradiction

variable [Scalar α]

/-- All parts of a valid element are valid. -/
theorem Valid.of_mem_parts {e p : Element α} (h : e.Valid) (hp : p ∈ parts e) : p.Valid := by
  induction h with
  | shape hf hs =>
    obtain rfl := List.mem_singleton.mp hp
    exact .shape hf hs
  | image hf =>
    obtain rfl := List.mem_singleton.mp hp
    exact .image hf
  | text hf =>
    obtain rfl := List.mem_singleton.mp hp
    exact .text hf
  | group hf hcs ih =>
    rcases List.mem_cons.mp hp with rfl | hp
    · exact .group hf hcs
    · obtain ⟨c, hc, hp⟩ := mem_partsOf.mp hp
      exact ih c hc hp

end Element

end Whiteboard

import Mathlib.Logic.Function.Iterate
import Whiteboard.Proofs.Document.Proper

/-!
# Stacks

Elements are stacked in the stable order of their heights (`Element.stackOf_stacked`). A step up
takes each chosen element over the next one that is not chosen, and no further
(`Element.raised_stepUp`); a step down is its mirror image. As many steps as there are elements
bring the chosen ones to an end of the stack (`Element.iterate_stepUp`, `Element.iterate_stepDown`).
-/

namespace Whiteboard

namespace Element

variable {α : Type} {chosen : Element α → Bool} {e : Element α} {es es' : List (Element α)}

/-! ## The order of a stack -/

/-- The elements from the lowest to the highest, those of one height in the order in which they
came. -/
structure StackOf (es ordered : List (Element α)) : Prop where
  perm : ordered.Perm es
  ascending : ordered.Pairwise fun e e' => e.zIndex ≤ e'.zIndex
  stable : ∀ z : Int, ordered.filter (·.zIndex = z) = es.filter (·.zIndex = z)

theorem height_trans (a b c : Element α) (hab : decide (a.zIndex ≤ b.zIndex) = true)
    (hbc : decide (b.zIndex ≤ c.zIndex) = true) : decide (a.zIndex ≤ c.zIndex) = true :=
  decide_eq_true (Int.le_trans (of_decide_eq_true hab) (of_decide_eq_true hbc))

theorem height_total (a b : Element α) :
    (decide (a.zIndex ≤ b.zIndex) || decide (b.zIndex ≤ a.zIndex)) = true := by
  rw [Bool.or_eq_true, decide_eq_true_iff, decide_eq_true_iff]
  exact Int.le_total a.zIndex b.zIndex

theorem pairwise_stacked (es : List (Element α)) :
    (stacked es).Pairwise fun e e' => e.zIndex ≤ e'.zIndex :=
  (List.pairwise_mergeSort height_trans height_total es).imp of_decide_eq_true

theorem filter_stacked (z : Int) (es : List (Element α)) :
    (stacked es).filter (·.zIndex = z) = es.filter (·.zIndex = z) := by
  have hlevel : (es.filter (·.zIndex = z)).Pairwise
      fun a b : Element α => decide (a.zIndex ≤ b.zIndex) = true := by
    refine List.pairwise_of_forall_mem_list fun a ha b hb => decide_eq_true ?_
    have ha := of_decide_eq_true (List.mem_filter.mp ha).2
    have hb := of_decide_eq_true (List.mem_filter.mp hb).2
    exact Int.le_of_eq (ha.trans hb.symm)
  have hsub : (es.filter (·.zIndex = z)).Sublist (stacked es) :=
    List.sublist_mergeSort height_trans height_total hlevel List.filter_sublist
  have hkept := hsub.filter (·.zIndex = z)
  rw [List.filter_filter] at hkept
  simp only [Bool.and_self] at hkept
  exact (hkept.eq_of_length ((stacked_perm es).filter _).length_eq.symm).symm

theorem stackOf_stacked (es : List (Element α)) : StackOf es (stacked es) :=
  ⟨stacked_perm es, pairwise_stacked es, fun z => filter_stacked z es⟩

/-- A stack that is in order stays. -/
theorem stacked_eq_self (h : es.Pairwise fun e e' => e.zIndex ≤ e'.zIndex) : stacked es = es :=
  List.mergeSort_of_pairwise (h.imp decide_eq_true)

/-! ## Steps up -/

/-- The chosen elements of a stack went a step up: by one place, unless all above are chosen. -/
structure Raised (chosen : Element α → Bool) (es es' : List (Element α)) : Prop where
  rises : ∀ i e, es[i]? = some e → chosen e = true → (∃ o ∈ es.drop (i + 1), chosen o = false) →
    es'[i + 1]? = some e
  stays : ∀ i e, es[i]? = some e → chosen e = true → (∀ o ∈ es.drop (i + 1), chosen o = true) →
    es'[i]? = some e
  chosen_order : es'.filter chosen = es.filter chosen
  other_order : es'.filter (!chosen ·) = es.filter (!chosen ·)

/-- A step up, seen from the bottom of the stack. -/
inductive Rise (chosen : Element α → Bool) : List (Element α) → List (Element α) → Prop where
  /-- A run of chosen elements at the top stays. -/
  | top {es : List (Element α)} : (∀ e ∈ es, chosen e = true) → Rise chosen es es
  | other {e : Element α} {es es' : List (Element α)} : chosen e = false → Rise chosen es es' →
      Rise chosen (e :: es) (e :: es')
  /-- A chosen element goes over the lowest one of what came of the rest. -/
  | past {e o : Element α} {es os : List (Element α)} : chosen e = true → chosen o = false →
      Rise chosen es (o :: os) → Rise chosen (e :: es) (o :: e :: os)

/-- What a step up leaves at the bottom is chosen only if all are. -/
theorem Rise.bottom (h : Rise chosen es es') :
    (∀ e ∈ es, chosen e = true) ∧ es' = es ∨ ∃ o os, es' = o :: os ∧ chosen o = false := by
  cases h with
  | top hall => exact .inl ⟨hall, rfl⟩
  | other he => exact .inr ⟨_, _, rfl, he⟩
  | past _ ho => exact .inr ⟨_, _, rfl, ho⟩

theorem stepUp_cons_of_other (he : chosen e = false) (es : List (Element α)) :
    stepUp chosen (e :: es) = e :: stepUp chosen es := by
  rw [stepUp]
  split
  · next h => simp [he, h]
  · next h => rw [h]

theorem rise_stepUp (chosen : Element α → Bool) (es : List (Element α)) :
    Rise chosen es (stepUp chosen es) := by
  induction es with
  | nil => exact .top (List.forall_mem_nil _)
  | cons e rest ih =>
    cases he : chosen e with
    | false =>
      rw [stepUp_cons_of_other he]
      exact .other he ih
    | true =>
      rcases ih.bottom with ⟨hall, hsame⟩ | ⟨o, os, hstep, ho⟩
      · have hstays : stepUp chosen (e :: rest) = e :: rest := by
          rw [stepUp, hsame]
          cases rest with
          | nil => rfl
          | cons r rest => simp [hall r List.mem_cons_self]
        rw [hstays]
        exact .top (List.forall_mem_cons.mpr ⟨he, hall⟩)
      · have hpast : stepUp chosen (e :: rest) = o :: e :: os := by simp [stepUp, hstep, he, ho]
        rw [hpast]
        exact .past he ho (hstep ▸ ih)

theorem Rise.filter_chosen (h : Rise chosen es es') : es'.filter chosen = es.filter chosen := by
  induction h with
  | top => rfl
  | other he _ ih =>
    rw [List.filter_cons_of_neg (by simp [he]), ih, List.filter_cons_of_neg (by simp [he])]
  | past he ho _ ih =>
    rw [List.filter_cons_of_neg (by simp [ho])] at ih ⊢
    rw [List.filter_cons_of_pos he, List.filter_cons_of_pos he, ih]

theorem Rise.filter_other (h : Rise chosen es es') :
    es'.filter (!chosen ·) = es.filter (!chosen ·) := by
  induction h with
  | top => rfl
  | other he _ ih =>
    rw [List.filter_cons_of_pos (by simp [he]), ih, List.filter_cons_of_pos (by simp [he])]
  | past he ho _ ih =>
    rw [List.filter_cons_of_pos (by simp [ho])] at ih ⊢
    rw [List.filter_cons_of_neg (by simp [he]), List.filter_cons_of_neg (by simp [he]), ih]

/-- No chosen element is left at the bottom where another one lies above it. -/
theorem Rise.raised (h : Rise chosen es es') : Raised chosen es es' := by
  refine ⟨?_, ?_, h.filter_chosen, h.filter_other⟩
  · induction h with
    | top hall =>
      rintro i e - - ⟨o, ho, hother⟩
      rw [hall o (List.mem_of_mem_drop ho)] at hother
      contradiction
    | @other x es es' hx _ ih =>
      intro i e hi he habove
      cases i with
      | zero =>
        cases hi
        exact absurd (he.symm.trans hx) Bool.noConfusion
      | succ i => exact ih i e hi he habove
    | @past x o es os hx ho _ ih =>
      intro i e hi he habove
      cases i with
      | zero => exact hi
      | succ i => exact ih i e hi he habove
  · induction h with
    | top => exact fun i e hi _ _ => hi
    | @other x es es' hx _ ih =>
      intro i e hi he habove
      cases i with
      | zero => exact hi
      | succ i => exact ih i e hi he habove
    | @past x o es os hx ho hrise ih =>
      intro i e hi he habove
      cases i with
      | zero =>
        have hmem : o ∈ es := List.mem_of_mem_filter (p := (!chosen ·))
          (hrise.filter_other ▸ List.mem_filter.mpr ⟨List.mem_cons_self, by simp [ho]⟩)
        exact absurd ((habove o hmem).symm.trans ho) Bool.noConfusion
      | succ i =>
        have hbelow := ih i e hi he habove
        cases i with
        | zero =>
          cases hbelow
          exact absurd (he.symm.trans ho) Bool.noConfusion
        | succ i => exact hbelow

theorem raised_stepUp (chosen : Element α → Bool) (es : List (Element α)) :
    Raised chosen es (stepUp chosen es) := (rise_stepUp chosen es).raised

theorem stepUp_map {f : Element α → Element α} (hf : ∀ e, chosen (f e) = chosen e)
    (es : List (Element α)) : stepUp chosen (es.map f) = (stepUp chosen es).map f := by
  induction es with
  | nil => rfl
  | cons e rest ih =>
    rw [List.map_cons, stepUp, stepUp, ih]
    cases stepUp chosen rest with
    | nil => rfl
    | cons above others =>
      simp only [List.map_cons, hf]
      split <;> rfl

/-- As many steps up as there are elements that are not chosen bring the chosen ones to the top. -/
theorem iterate_stepUp {n : Nat} (h : (es.filter (!chosen ·)).length ≤ n) :
    (stepUp chosen)^[n] es = es.filter (!chosen ·) ++ es.filter chosen := by
  induction n generalizing es with
  | zero =>
    have hnone := List.eq_nil_of_length_eq_zero (Nat.le_zero.mp h)
    have hall : es.filter chosen = es := by
      refine List.filter_eq_self.mpr fun e he => ?_
      simpa using List.filter_eq_nil_iff.mp hnone e he
    rw [hnone, hall]
    rfl
  | succ n ih =>
    have hrise := rise_stepUp chosen es
    rw [Function.iterate_succ_apply]
    rcases hrise.bottom with ⟨hall, hsame⟩ | ⟨o, os, hstep, ho⟩
    · have hnone : es.filter (!chosen ·) = [] := List.filter_eq_nil_iff.mpr fun e he => by
        simp [hall e he]
      rw [hsame]
      exact ih (hnone ▸ Nat.zero_le n)
    · have hother := hrise.filter_other
      have hchosen := hrise.filter_chosen
      rw [hstep, List.filter_cons_of_pos (by simp [ho])] at hother
      rw [hstep, List.filter_cons_of_neg (by simp [ho])] at hchosen
      -- the lowest element is not chosen, so that all further steps leave it where it is
      have hrest (m : Nat) (os : List (Element α)) :
          (stepUp chosen)^[m] (o :: os) = o :: (stepUp chosen)^[m] os := by
        induction m generalizing os with
        | zero => rfl
        | succ m ihm =>
          rw [Function.iterate_succ_apply, Function.iterate_succ_apply, stepUp_cons_of_other ho,
            ihm]
      rw [← hother, List.length_cons] at h
      rw [hstep, hrest, ih (Nat.le_of_succ_le_succ h), ← hother, ← hchosen, List.cons_append]

/-! ## Steps down -/

/-- The chosen elements of a stack went a step down: by one place, unless all below are chosen. -/
structure Lowered (chosen : Element α → Bool) (es es' : List (Element α)) : Prop where
  sinks : ∀ i e, es[i + 1]? = some e → chosen e = true →
    (∃ o ∈ es.take (i + 1), chosen o = false) → es'[i]? = some e
  stays : ∀ i e, es[i]? = some e → chosen e = true → (∀ o ∈ es.take i, chosen o = true) →
    es'[i]? = some e
  chosen_order : es'.filter chosen = es.filter chosen
  other_order : es'.filter (!chosen ·) = es.filter (!chosen ·)

/-- What lies at a place from below, seen from above. -/
theorem getElem?_reverse_of_eq_some {i : Nat} (h : es[i]? = some e) :
    es.reverse[es.length - 1 - i]? = some e ∧ es.reverse.drop (es.length - 1 - i + 1)
      = (es.take i).reverse := by
  obtain ⟨hi, -⟩ := List.getElem?_eq_some_iff.mp h
  rw [List.getElem?_reverse (by omega), List.drop_reverse]
  have hback : es.length - 1 - (es.length - 1 - i) = i := by omega
  have htake : es.length - (es.length - 1 - i + 1) = i := by omega
  rw [hback, htake]
  exact ⟨h, rfl⟩

/-- A step down is a step up with the stack upside down. -/
theorem Raised.lowered (h : Raised chosen es.reverse es'.reverse) : Lowered chosen es es' := by
  have hlength : es'.length = es.length := by
    have hchosen := congrArg List.length h.chosen_order
    have hother := congrArg List.length h.other_order
    simp only [List.filter_reverse, List.length_reverse] at hchosen hother
    rw [List.length_eq_length_filter_add chosen (l := es'), hchosen, hother,
      ← List.length_eq_length_filter_add]
  have hback {j i : Nat} {x : Element α} (hx : es'.reverse[j]? = some x)
      (hj : j + 1 + i = es.length) : es'[i]? = some x := by
    rw [List.getElem?_reverse (by omega)] at hx
    rwa [show es'.length - 1 - j = i by omega] at hx
  refine ⟨fun i e hi he habove => ?_, fun i e hi he habove => ?_, ?_, ?_⟩
  · obtain ⟨hi', hdrop⟩ := getElem?_reverse_of_eq_some hi
    obtain ⟨hlt, -⟩ := List.getElem?_eq_some_iff.mp hi
    refine hback (h.rises _ e hi' he ?_) (by omega)
    rw [hdrop]
    simpa only [List.mem_reverse] using habove
  · obtain ⟨hi', hdrop⟩ := getElem?_reverse_of_eq_some hi
    obtain ⟨hlt, -⟩ := List.getElem?_eq_some_iff.mp hi
    refine hback (h.stays _ e hi' he ?_) (by omega)
    rw [hdrop]
    simpa only [List.mem_reverse] using habove
  · simpa only [List.filter_reverse, List.reverse_inj] using h.chosen_order
  · simpa only [List.filter_reverse, List.reverse_inj] using h.other_order

theorem lowered_stepDown (chosen : Element α → Bool) (es : List (Element α)) :
    Lowered chosen es (stepDown chosen es) := by
  refine Raised.lowered ?_
  rw [stepDown, List.reverse_reverse]
  exact raised_stepUp chosen es.reverse

theorem stepDown_map {f : Element α → Element α} (hf : ∀ e, chosen (f e) = chosen e)
    (es : List (Element α)) : stepDown chosen (es.map f) = (stepDown chosen es).map f := by
  rw [stepDown, stepDown, ← List.map_reverse, stepUp_map hf, List.map_reverse]

theorem iterate_stepDown {n : Nat} (h : (es.filter (!chosen ·)).length ≤ n) :
    (stepDown chosen)^[n] es = es.filter chosen ++ es.filter (!chosen ·) := by
  have hmirror (m : Nat) (es : List (Element α)) :
      (stepDown chosen)^[m] es = ((stepUp chosen)^[m] es.reverse).reverse := by
    induction m generalizing es with
    | zero => exact es.reverse_reverse.symm
    | succ m ih =>
      rw [Function.iterate_succ_apply, Function.iterate_succ_apply, ih, stepDown,
        List.reverse_reverse]
  have hcount : (es.reverse.filter (!chosen ·)).length ≤ n := by
    rwa [List.filter_reverse, List.length_reverse]
  rw [hmirror, iterate_stepUp hcount, List.reverse_append, List.filter_reverse, List.filter_reverse,
    List.reverse_reverse, List.reverse_reverse]

/-! ## Numbers -/

theorem withZIndex_withZIndex (e : Element α) (z z' : Int) :
    (e.withZIndex z).withZIndex z' = e.withZIndex z' := by
  cases e <;> rfl

theorem zIndex_withZIndex (e : Element α) (z : Int) : (e.withZIndex z).zIndex = z := by
  cases e <;> rfl

theorem map_zIndex_renumbered (es : List (Element α)) :
    (renumbered es).map zIndex = (List.range es.length).map Nat.cast := by
  rw [renumbered, List.map_map, List.range_eq_range', ← List.zipIdx_map_snd 0 es, List.map_map]
  exact List.map_congr_left fun m _ => zIndex_withZIndex m.1 m.2

/-- Elements that were numbered are in the order of the stack. -/
theorem pairwise_renumbered (es : List (Element α)) :
    (renumbered es).Pairwise fun e e' => e.zIndex ≤ e'.zIndex := by
  refine List.pairwise_map.mp ?_
  rw [map_zIndex_renumbered, List.pairwise_map]
  exact List.pairwise_lt_range.imp fun h => Int.ofNat_le.mpr (Nat.le_of_lt h)

section Flat

variable {f : Element α → Element α}

/-- What a function makes of an element, whatever the heights. -/
def flat (f : Element α → Element α) (e : Element α) : Element α := (f e).withZIndex 0

variable (hheight : ∀ e z, f (e.withZIndex z) = (f e).withZIndex z)

include hheight

theorem map_renumbered (es : List (Element α)) :
    (renumbered es).map f = renumbered (es.map (flat f)) := by
  rw [renumbered, renumbered, List.map_map, List.zipIdx_map, List.map_map]
  refine List.map_congr_left fun m _ => ?_
  exact (hheight m.1 m.2).trans (withZIndex_withZIndex (f m.1) 0 m.2).symm

theorem map_flat_renumbered (hidem : ∀ e, f (f e) = f e) (es : List (Element α)) :
    ((renumbered es).map f).map (flat f) = es.map (flat f) := by
  rw [renumbered, List.map_map, List.map_map]
  conv_rhs => rw [← List.zipIdx_map_fst 0 es, List.map_map]
  refine List.map_congr_left fun m _ => ?_
  have hflat : flat f (f (m.1.withZIndex m.2)) = flat f m.1 := by
    rw [flat, hidem, hheight, withZIndex_withZIndex, flat]
  exact hflat

end Flat

end Element

end Whiteboard

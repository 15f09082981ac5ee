import Whiteboard.Proofs.Board.Sound
import Whiteboard.Proofs.Document.Stack
import Whiteboard.Proofs.Scalar.Double

/-!
# Stacking commands

A command takes the elements in the order of the stack, moves the chosen ones and numbers all anew
(`Board.restack_eq`). The next command finds the order that this one left, so that steps add up
(`Board.elements_iterate_restack`), and as many of them as there are elements are a jump to an end
of the stack (`Board.steps_restack`).
-/

namespace Whiteboard

namespace Board

open Element

variable {α : Type} [Scalar α] {b : Board α} {ids : List String}
  {order : (Element α → Bool) → List (Element α) → List (Element α)}

/-- An element as it is at the end of an edit. -/
def kept (b : Board α) (e : Element α) : Element α := if b.batching then e else e.map Scalar.settle

theorem elements_changed_eq (b : Board α) : b.changed.elements = b.elements.map b.kept := by
  cases hb : b.batching with
  | true =>
    have hkept : b.kept = fun e => e := funext fun e => if_pos hb
    rw [changed, commit_of_batching hb, hkept, List.map_id']
    rfl
  | false =>
    have hkept : b.kept = Element.map Scalar.settle := funext fun e => if_neg (by simp [hb])
    rw [changed, commit, hb, hkept, ← mapAll_eq_map]
    rfl

theorem kept_changed (b : Board α) : b.changed.kept = b.kept := by
  funext e
  rw [kept, kept, batching_changed]

theorem id_kept (b : Board α) (e : Element α) : (b.kept e).id = e.id := by
  unfold kept
  split
  · rfl
  · cases e <;> rfl

theorem zIndex_kept (b : Board α) (e : Element α) : (b.kept e).zIndex = e.zIndex := by
  unfold kept
  split
  · rfl
  · cases e <;> rfl

theorem kept_withZIndex (b : Board α) (e : Element α) (z : Int) :
    b.kept (e.withZIndex z) = (b.kept e).withZIndex z := by
  unfold kept
  split
  · rfl
  · cases e <;> rfl

theorem kept_kept (hsettle : ∀ x : α, Scalar.settle (Scalar.settle x) = Scalar.settle x)
    (b : Board α) (e : Element α) : b.kept (b.kept e) = b.kept e := by
  unfold kept
  split
  · rfl
  · exact map_map_self hsettle e

/-! ## One command -/

theorem restack_eq (hids : ids ≠ []) : b.restack ids order = (b.withElements
      (renumbered (order (fun e => ids.contains e.id) (stacked b.elements)))).changed :=
  if_neg (by simpa using hids)

theorem elements_restack (hids : ids ≠ []) : (b.restack ids order).elements
      = (renumbered (order (fun e => ids.contains e.id) (stacked b.elements))).map b.kept := by
  rw [restack_eq hids, elements_changed_eq]
  rfl

theorem kept_restack (hids : ids ≠ []) : (b.restack ids order).kept = b.kept := by
  rw [restack_eq hids, kept_changed]
  rfl

theorem map_zIndex_restack (hids : ids ≠ [])
    (hperm : ∀ chosen es, (order chosen es).Perm es) :
    (b.restack ids order).elements.map zIndex = (List.range b.elements.length).map Nat.cast := by
  have hlength := ((hperm (fun e => ids.contains e.id) _).trans (stacked_perm b.elements)).length_eq
  have hz : zIndex ∘ b.kept = zIndex := funext (zIndex_kept b)
  rw [elements_restack hids, List.map_map, hz, map_zIndex_renumbered, hlength]

/-! ## Many commands -/

/-- Commands of one sort in a row: the order that one leaves is the one that the next finds. -/
theorem elements_iterate_restack (hids : ids ≠ [])
    (hsettle : ∀ x : α, Scalar.settle (Scalar.settle x) = Scalar.settle x)
    (horder : ∀ (chosen : Element α → Bool) (f : Element α → Element α),
      (∀ e, chosen (f e) = chosen e) → ∀ es, order chosen (es.map f) = (order chosen es).map f)
    (b : Board α) (n : Nat) : ((restack ids order)^[n + 1] b).elements = (renumbered
      ((order fun e => ids.contains e.id)^[n + 1] (stacked b.elements))).map b.kept := by
  have hflat := horder (fun e => ids.contains e.id) (flat b.kept) fun e => by
    have hid : (flat b.kept e).id = e.id := by
      rw [flat, ← id_kept b e]
      cases b.kept e <;> rfl
    rw [hid]
  have hkept (m : Nat) : ((restack ids order)^[m] b).kept = b.kept := by
    induction m with
    | zero => rfl
    | succ m ih => rw [Function.iterate_succ_apply', kept_restack hids, ih]
  induction n with
  | zero => exact elements_restack hids
  | succ n ih =>
    have hstacked (es : List (Element α)) :
        stacked ((renumbered es).map b.kept) = (renumbered es).map b.kept := by
      rw [map_renumbered (kept_withZIndex b)]
      exact stacked_eq_self (pairwise_renumbered _)
    rw [Function.iterate_succ_apply', elements_restack hids, hkept, ih, hstacked,
      map_renumbered (kept_withZIndex b), ← hflat,
      map_flat_renumbered (kept_withZIndex b) (kept_kept hsettle b), hflat,
      ← map_renumbered (kept_withZIndex b), Function.iterate_succ_apply' _ (n + 1)]

/-- A step moves the chosen elements by one place, and as many steps as there are elements bring
them to an end of the stack. -/
theorem steps_restack (hsettle : ∀ x : α, Scalar.settle (Scalar.settle x) = Scalar.settle x)
    (hids : ids ≠ []) (b : Board α) : ∃ ordered raised lowered, StackOf b.elements ordered ∧
      Raised (fun e => ids.contains e.id) ordered raised ∧
      b.bringForward ids = (b.withElements (renumbered raised)).changed ∧
      Lowered (fun e => ids.contains e.id) ordered lowered ∧
      b.sendBackward ids = (b.withElements (renumbered lowered)).changed ∧
      (b.bringForward ids).elements.map zIndex = (List.range b.elements.length).map Nat.cast ∧
      (b.sendBackward ids).elements.map zIndex = (List.range b.elements.length).map Nat.cast ∧
      ((bringForward ids)^[b.elements.length] b).elements = (b.bringToFront ids).elements ∧
      ((sendBackward ids)^[b.elements.length] b).elements = (b.sendToBack ids).elements := by
  refine ⟨_, _, _, stackOf_stacked b.elements, raised_stepUp _ _, restack_eq hids,
    lowered_stepDown _ _, restack_eq hids, map_zIndex_restack hids stepUp_perm,
    map_zIndex_restack hids stepDown_perm, ?_⟩
  have hlength : (stacked b.elements).length = b.elements.length :=
    (stacked_perm b.elements).length_eq
  have hothers : ((stacked b.elements).filter fun e => !ids.contains e.id).length
      ≤ b.elements.length := hlength ▸ List.length_filter_le _ _
  cases hn : b.elements.length with
  | zero =>
    have hnil := List.eq_nil_of_length_eq_zero hn
    have hstacked : stacked b.elements = [] := List.eq_nil_of_length_eq_zero (hlength.trans hn)
    constructor
    · rw [bringToFront, elements_restack hids, hstacked]
      exact hnil
    · rw [sendToBack, elements_restack hids, hstacked]
      exact hnil
  | succ n =>
    rw [hn] at hothers
    constructor
    · refine (elements_iterate_restack hids hsettle (fun _ _ hf es => stepUp_map hf es) b n).trans
        ?_
      rw [iterate_stepUp hothers, bringToFront, elements_restack hids]
    · refine (elements_iterate_restack hids hsettle (fun _ _ hf es => stepDown_map hf es) b n).trans
        ?_
      rw [iterate_stepDown hothers, sendToBack, elements_restack hids]

/-- Two rectangles of one height over a third one, which is brought to the front step by step. -/
theorem steps_restack_tied :
    let rectangle (id : String) : Element Double := .newShape id .rectangle { x := 0, y := 0 }
    let b : Board Double := .start .counting [(rectangle "a").withZIndex 4,
      (rectangle "b").withZIndex 4, (rectangle "c").withZIndex (-2)] .initial 50
    (b.bringForward ["c"]).elements.map zIndex = [0, 1, 2] ∧
      ((bringForward ["c"])^[3] b).elements = (b.bringToFront ["c"]).elements := by
  intro rectangle b
  obtain ⟨_, _, _, -, -, -, -, -, hnumbers, -, hfront, -⟩ :=
    steps_restack Double.settle_settle (List.cons_ne_nil "c" []) b
  exact ⟨hnumbers, hfront⟩

end Board

end Whiteboard

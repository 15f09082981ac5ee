import Mathlib
import Whiteboard.Board.Creation
import Whiteboard.Proofs.Board.Attachment
import Whiteboard.Proofs.Document.BoundAnew
import Whiteboard.Proofs.Document.Laid

/-!
# Ends of arrows

The ends of a new arrow lie where they were put. When one of them is moved, the box is fitted around
both and both are written anew, relative to its corner, but only the one that is moved changes its
place on the board (`Board.ends_where_put`).
-/

namespace Whiteboard

variable {α : Type}

def ArrowEnd.other : ArrowEnd → ArrowEnd
  | start => finish
  | finish => start

namespace Shape

def endAt (side : ArrowEnd) (s : Shape α) : Option (Point α) :=
  match side with
  | .start => s.start
  | .finish => s.finish

def bindingAt (side : ArrowEnd) (s : Shape α) : Option Binding :=
  match side with
  | .start => s.startBinding
  | .finish => s.finishBinding

/-- The shape with another binding of an end. -/
def boundAt (side : ArrowEnd) (binding : Option Binding) (s : Shape α) : Shape α :=
  match side with
  | .start => { s with startBinding := binding }
  | .finish => { s with finishBinding := binding }

end Shape

namespace Element

def bindingAt (side : ArrowEnd) (e : Element α) : Option Binding :=
  e.arrow?.bind fun s => s.bindingAt side

/-- The element with another binding of an end, if it is one that has ends. -/
def boundAt (side : ArrowEnd) (binding : Option Binding) : Element α → Element α
  | shape f k s => shape f k (s.boundAt side binding)
  | e => e

theorem box_boundAt_laid (f : Frame α) (s : Shape α) (g : ArrowGeometry α) (side : ArrowEnd)
    (binding : Option Binding) :
    (((shape f .arrow s).laid g).boundAt side binding).frame.box = g.box := by
  cases side <;> rfl

section Definitions

variable [Scalar α]

/-- Where an end of an arrow lies on the board. -/
def tip? (side : ArrowEnd) (e : Element α) : Option (Point α) :=
  e.arrow?.bind fun s => (s.endAt side).map e.endPlace

/-- How an arrow changes when one end of it is moved to a point and bound anew. -/
structure EndMoved (side : ArrowEnd) (p : Point α) (binding : Option Binding)
    (e e' : Element α) : Prop where
  tip : e'.tip? side = some p
  bound : e'.bindingAt side = binding
  tip_other : e'.tip? side.other = e.tip? side.other
  bound_other : e'.bindingAt side.other = e.bindingAt side.other
  wide : 10 ≤ e'.width
  high : 10 ≤ e'.height
  rest : ∃ g : ArrowGeometry α, e' = (e.laid g).boundAt side binding

/-- The box and the ends of an arrow when one end is moved to a point, and the other one lies where
it is told. -/
def endGeometry (side : ArrowEnd) (p other : Point α) : ArrowGeometry α :=
  match side with
  | .start => .between p other ArrowGeometry.leastSide
  | .finish => .between other p ArrowGeometry.leastSide

end Definitions

section Changes

variable [Scalar α] {f : Frame α} {s : Shape α} {g : ArrowGeometry α} {side : ArrowEnd}
  {binding : Option Binding} {p q : Point α}

theorem endChanges?_eq (hmoved : (s.endAt side).isSome) (hother : s.endAt side.other = some q) :
    Board.endChanges? (shape f .arrow s) side p binding
      = some ((endGeometry side p ((shape f .arrow s).endPlace q)).toChanges
        ++ [(side.bindingField, .ofOption Binding.toJson binding)]) := by
  obtain ⟨_, _, _, _, _, _, _, start, finish, _, _, _, _, _⟩ := s
  cases side with
  | start =>
    obtain ⟨_, rfl⟩ := Option.isSome_iff_exists.mp (show start.isSome from hmoved)
    cases hother
    rfl
  | finish =>
    obtain ⟨_, rfl⟩ := Option.isSome_iff_exists.mp (show finish.isSome from hmoved)
    cases hother
    rfl

/-- An arrow takes over a new geometry together with a binding. -/
theorem apply_endChanges (he : (shape f .arrow s).Valid) (hw : 0 ≤ g.box.width)
    (hh : 0 ≤ g.box.height) (ids : IdSupply) :
    (shape f .arrow s).apply ids
        (g.toChanges ++ [(side.bindingField, .ofOption Binding.toJson binding)])
      = (.ok (((shape f .arrow s).laid g).boundAt side binding), ids) := by
  have hv : (((shape f .arrow s).laid g).boundAt side binding).Valid := by
    cases he with
    | shape hf hs => cases side <;> exact .shape ⟨hw, hh, hf.normal⟩ hs
  obtain ⟨changes', hc, hm⟩ : ∃ changes',
      Changes.completed (shape f .arrow s) (Entries.erase "id"
        (g.toChanges ++ [(side.bindingField, .ofOption Binding.toJson binding)])) = .ok changes' ∧
      Entries.merge (shape f .arrow s).toMembers changes'
        = (((shape f .arrow s).laid g).boundAt side binding).toMembers := by
    cases side <;>
    · refine ⟨_, completed_arrow (growth_of_num rfl) (growth_of_num rfl), ?_⟩
      rcases s with ⟨_, _, _, _, _, _, _, _ | start, _ | finish, _, _, _, _, _⟩ <;> rfl
  exact apply_of_toMembers hc hm hv (Nat.zero_le _) ids

end Changes

section Exact

variable [Field α] [LinearOrder α] [FloorRing α] [Trigonometry α] [IsStrictOrderedRing α]
  {f : Frame α} {s : Shape α} {side : ArrowEnd} {binding : Option Binding} {p q : Point α}

theorem sides_endGeometry (side : ArrowEnd) (p q : Point α) :
    Scalar.ofNat 0 ≤ (endGeometry side p q).box.width ∧
      Scalar.ofNat 0 ≤ (endGeometry side p q).box.height := by
  cases side <;> exact ArrowGeometry.sides_between (n := 10) (by decide) fun _ _ => rfl

omit [IsStrictOrderedRing α] in
theorem leastSide_le_endGeometry (side : ArrowEnd) (p q : Point α) :
    ArrowGeometry.leastSide ≤ (endGeometry side p q).box.width ∧
      ArrowGeometry.leastSide ≤ (endGeometry side p q).box.height := by
  cases side <;> exact ArrowGeometry.least_le_between ..

omit [IsStrictOrderedRing α] in
/-- The end that is moved lies where it was put, the other one where it lay. -/
theorem endMoved_laid (hother : s.endAt side.other = some q) :
    EndMoved side p binding (shape f .arrow s)
      (((shape f .arrow s).laid (endGeometry side p ((shape f .arrow s).endPlace q))).boundAt side
        binding) := by
  obtain ⟨hwide, hhigh⟩ := leastSide_le_endGeometry side p ((shape f .arrow s).endPlace q)
  have htip : (shape f .arrow s).tip? side.other = some ((shape f .arrow s).endPlace q) := by
    rw [tip?, arrow?, Option.bind_some, hother, Option.map_some]
  cases side with
  | start =>
    obtain ⟨hmoved, hstays⟩ := endPlace_between (box_boundAt_laid f s
      (.between p ((shape f .arrow s).endPlace q) ArrowGeometry.leastSide) .start binding)
    exact ⟨congrArg some hmoved, rfl, (congrArg some hstays).trans htip.symm, rfl,
      hwide, hhigh, _, rfl⟩
  | finish =>
    obtain ⟨hstays, hmoved⟩ := endPlace_between (box_boundAt_laid f s
      (.between ((shape f .arrow s).endPlace q) p ArrowGeometry.leastSide) .finish binding)
    exact ⟨congrArg some hmoved, rfl, (congrArg some hstays).trans htip.symm, rfl,
      hwide, hhigh, _, rfl⟩

end Exact

end Element

namespace Board

open Element

variable [Field α] [LinearOrder α] [FloorRing α] [Trigonometry α] [IsStrictOrderedRing α]
  {b : Board α} {e e' : Element α} {changes : Changes α}

/-- Where no two elements share an id, an update that is taken puts another element in the place of
one. -/
theorem exists_update (hids : (b.elements.map Element.id).Nodup) (he : e ∈ b.elements)
    (happly : ∀ ids, e.apply ids changes = (.ok e', ids)) :
    ∃ c, b.update e.id changes false = (.ok (some e'), c) ∧ c.document = { b.document with
      elements := b.elements.map fun t => if t.id = e.id then e' else t } := by
  have hid : e'.id = e.id := id_of_apply (happly b.ids)
  have hturns : ∀ t ∈ b.elements, Turns (Batch.changesOf [(e.id, changes)])
      (fun t => if t.id = e.id then e' else t) t := by
    intro t ht
    rw [Turns, Batch.changesOf_singleton]
    by_cases h : e.id = t.id
    · obtain rfl : e = t := List.inj_on_of_nodup_map hids he ht h
      rw [if_pos rfl, if_pos rfl]
      exact happly
    · rw [if_neg h]
      exact if_neg fun h' => h h'.symm
  have hmap : (b.elements.map fun t => if t.id = e.id then e' else t).map Element.id
      = b.elements.map Element.id := by
    have hmap := map_id_applyEach (Batch.changesOf [(e.id, changes)]) b.ids b.elements
    rwa [applyEach_eq_map hturns] at hmap
  have hmem : e' ∈ b.elements.map fun t => if t.id = e.id then e' else t :=
    List.mem_map.mpr ⟨e, he, if_pos rfl⟩
  have hlast : (b.elements.map fun t => if t.id = e.id then e' else t).reverse.find?
      (fun t => t.id == e.id) = some e' := by
    refine find?_id_of_mem ?_ (List.mem_reverse.mpr hmem) hid
    rw [List.map_reverse, List.nodup_reverse, hmap]
    exact hids
  have hupdate : b.update e.id changes false = (.ok (some e'),
      (b.withElements (b.elements.map fun t => if t.id = e.id then e' else t)).changed) := by
    rw [update, applyEach_eq_map hturns]
    dsimp only [withElements, Board.elements] at hlast ⊢
    rw [hlast]
    rfl
  exact ⟨_, hupdate, document_changed (finite_of_exact _)⟩

theorem exists_moveEnd (hids : (b.elements.map Element.id).Nodup) (he : e ∈ b.elements)
    (hvalid : e.Valid) {s : Shape α} (hs : e.arrow? = some s) {side : ArrowEnd}
    (hmoved : (s.endAt side).isSome) (hother : (s.endAt side.other).isSome) (p : Point α)
    (binding : Option Binding) : ∃ e' c, b.moveEnd e.id side p binding = (.ok (some e'), c) ∧
      EndMoved side p binding e e' ∧ c.document = { b.document with
        elements := b.elements.map fun t => if t.id = e.id then e' else t } := by
  obtain ⟨f, rfl⟩ := eq_of_arrow?_eq_some hs
  obtain ⟨q, hq⟩ := Option.isSome_iff_exists.mp hother
  obtain ⟨hw, hh⟩ := sides_endGeometry side p ((shape f .arrow s).endPlace q)
  obtain ⟨c, hc, hdocument⟩ := exists_update hids he (apply_endChanges hvalid hw hh)
  refine ⟨_, c, ?_, endMoved_laid hq, hdocument⟩
  have hfound : b.element? (shape f .arrow s).id = some (shape f .arrow s) :=
    find?_id_of_mem hids he rfl
  rw [moveEnd, hfound, Option.bind_some, endChanges?_eq hmoved hq]
  exact hc

theorem exists_createArrow (b : Board α) (start finish : Point α)
    (startBinding finishBinding : Option Binding) :
    let g := ArrowGeometry.between start finish leastArrowSide
    ∃ arrow : Element α, arrow.frame.box = g.box ∧
      arrow.arrow? = some { Shape.blankArrow with
        start := some g.start, finish := some g.finish, startBinding, finishBinding } ∧
      b.createArrow start finish startBinding finishBinding
        = (.ok arrow, { b with ids := b.ids.next }.place arrow) := by
  intro g
  let f : Frame α := ⟨b.ids.elementId, g.box.x, g.box.y, g.box.width, g.box.height, Scalar.ofNat 0,
    b.elements.length⟩
  have hchecked : f.checked = .ok f := Frame.checked_eq_ok_iff.mpr
    ⟨rfl, ArrowGeometry.sides_between (n := 50) (by decide) fun _ _ => rfl⟩
  refine ⟨.shape f .arrow _, rfl, rfl, ?_⟩
  change Outcome.andThen (f.checked.toEdit, _) _ = _
  rw [hchecked]
  rfl

/-- With exact numbers, the ends of arrows lie where they are put. Where no two elements share an
id, the end of an arrow that is moved is all that moves: the other end keeps its place and its
binding, and all other elements stay. -/
theorem ends_where_put (hids : (b.elements.map Element.id).Nodup) :
    (∀ e ∈ b.elements, e.Valid → ∀ s ∈ e.arrow?, s.start.isSome → s.finish.isSome →
      ∀ side p binding, ∃ e' c, b.moveEnd e.id side p binding = (.ok (some e'), c) ∧
        EndMoved side p binding e e' ∧ c.document = { b.document with
          elements := b.elements.map fun t => if t.id = e.id then e' else t }) ∧
    ∀ start finish startBinding finishBinding, ∃ arrow c,
      b.createArrow start finish startBinding finishBinding = (.ok arrow, c) ∧
      arrow.tip? .start = some start ∧ arrow.bindingAt .start = startBinding ∧
      arrow.tip? .finish = some finish ∧ arrow.bindingAt .finish = finishBinding ∧
      c.document = { b.document with
        elements := b.elements ++ [arrow], selected := [arrow.id] } := by
  constructor
  · intro e he hvalid s hs hstart hfinish side
    cases side with
    | start => exact exists_moveEnd hids he hvalid hs hstart hfinish
    | finish => exact exists_moveEnd hids he hvalid hs hfinish hstart
  · intro start finish startBinding finishBinding
    obtain ⟨arrow, hbox, harrow, hnew⟩ :=
      exists_createArrow b start finish startBinding finishBinding
    obtain ⟨hstart, hfinish⟩ := endPlace_between hbox
    refine ⟨arrow, _, hnew, ?_, ?_, ?_, ?_, document_changed (finite_of_exact _)⟩
    · rw [tip?, harrow]
      exact congrArg some hstart
    · rw [Element.bindingAt, harrow]
      rfl
    · rw [tip?, harrow]
      exact congrArg some hfinish
    · rw [Element.bindingAt, harrow]
      rfl

/-- An arrow whose end is bound to a rectangle is led to another place at its start. -/
theorem ends_where_put_arrow :
    let r : Element ℝ := .newShape "r" .rectangle { x := 300, y := 200 }
    let arrow : Element ℝ := .shape (Draft.frame { x := 100, y := 200 } "a" 200 60) .arrow
      { Shape.blankArrow with
        start := some ⟨0, 0⟩, finish := some ⟨200, 60⟩, finishBinding := some ⟨"r", .left⟩ }
    let b : Board ℝ := .start .counting [r, arrow] .initial 50
    ∃ e' c, b.moveEnd "a" .start ⟨400, 500⟩ none = (.ok (some e'), c) ∧
      EndMoved .start ⟨400, 500⟩ none arrow e' ∧ c.elements = [r, e'] := by
  intro r arrow b
  have hes : b.elements = [r, arrow] :=
    congrArg Document.elements (Document.settled_eq_self (fun _ => rfl) _)
  have hids : (b.elements.map Element.id).Nodup := by decide
  have hvalid : arrow.Valid := by
    refine .shape (Draft.valid_frame _ _ ?_ ?_) (Shape.valid_of_curve_eq_zero rfl) <;>
    · rw [Scalar.instOfNat_eq, Nat.cast_zero]
      norm_num
  have hmem : arrow ∈ b.elements := hes ▸ List.mem_cons_of_mem _ List.mem_cons_self
  obtain ⟨e', c, hc, hmoved, hdocument⟩ :=
    (ends_where_put hids).1 arrow hmem hvalid _ rfl rfl rfl .start ⟨400, 500⟩ none
  refine ⟨e', c, hc, hmoved, (congrArg Document.elements hdocument).trans ?_⟩
  rw [hes]
  rfl

end Board

end Whiteboard

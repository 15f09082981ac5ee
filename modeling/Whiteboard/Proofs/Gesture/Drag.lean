import Mathlib
import Whiteboard.Proofs.Document.BoundAnew
import Whiteboard.Proofs.Gesture.Timing

/-!
# What a drag moves

Whatever the starts name, the elements among them move by one vector, which is that of the pointer
but for a snap below the distance (`GestureFrame.near_offset`). Ends of other arrows that are bound
to them are put on the anchors they moved to, and all else stays (`GestureFrame.drag_moves`).
-/

namespace Whiteboard

/-! ## How far a snap goes -/

namespace Frame

variable {α : Type} [Field α] [LinearOrder α] [FloorRing α] [Trigonometry α]
  [IsStrictOrderedRing α] {limit : α}

/-- A position that is another one or nearer to it than a limit. -/
def Near (limit position snapped : α) : Prop := snapped = position ∨ |snapped - position| < limit

theorem near_snapSide {mine position : α} (h : Near limit mine position)
    (size theirs otherSize : α) :
    Near limit mine (snapSide limit mine size theirs otherSize position) := by
  have hsame (m a t b : α) : |t + b - a - m| = |m + a - (t + b)| := by
    rw [← abs_neg]
    exact congrArg abs (by ring)
  unfold snapSide
  simp only [Scalar.abs_eq_abs]
  split
  · next hmiddle => exact .inr ((hsame ..).trans_lt hmiddle)
  · split
    · next hfar => exact .inr ((hsame ..).trans_lt hfar)
    · split
      · next hnear => exact .inr ((abs_sub_comm ..).trans_lt hnear)
      · exact h

/-- Each of the others leaves the position near that of the moved frame. -/
theorem near_snapped (limit : α) (moving : Frame α) (others : List (Frame α)) :
    Near limit moving.x (moving.snapped limit others).x ∧
      Near limit moving.y (moving.snapped limit others).y := by
  have hstart : Near limit moving.x (Point.mk moving.x moving.y).x ∧
      Near limit moving.y (Point.mk moving.x moving.y).y := ⟨.inl rfl, .inl rfl⟩
  unfold snapped
  generalize Point.mk moving.x moving.y = p at hstart ⊢
  induction others generalizing p with
  | nil => exact hstart
  | cons other rest ih =>
    exact ih _ ⟨near_snapSide hstart.1 _ _ _, near_snapSide hstart.2 _ _ _⟩

end Frame

namespace GestureFrame

/-! ## What is dragged -/

section Present

variable {α β : Type} {es : List (Element α)} {starts : Entries β}

/-- The starts of elements that are there. -/
def present (es : List (Element α)) (starts : Entries β) : Entries β :=
  starts.filter fun m => es.any fun e => e.id == m.1

theorem get?_present {e : Element α} (he : e ∈ es) :
    Entries.get? e.id (present es starts) = Entries.get? e.id starts := by
  have hany : (es.any fun t => t.id == e.id) = true :=
    List.any_eq_true.mpr ⟨e, he, beq_iff_eq.mpr rfl⟩
  exact (Entries.get?_filter (fun id => es.any fun t => t.id == id) e.id starts).trans
    (if_pos hany)

theorem exists_of_mem_keys_present {id : String} (h : id ∈ (present es starts).keys) :
    ∃ e ∈ es, e.id = id := by
  obtain ⟨m, hm, rfl⟩ := List.mem_map.mp h
  obtain ⟨e, he, hid⟩ := List.any_eq_true.mp (List.mem_filter.mp hm).2
  exact ⟨e, he, beq_iff_eq.mp hid⟩

/-- The first of the dragged elements is there. -/
theorem lead?_present (es : List (Element α)) (starts : Entries (Point α)) :
    lead? es (present es starts) = lead? es starts := by
  unfold lead? present
  rw [← List.head?_filterMap, ← List.head?_filterMap, List.filterMap_filter]
  refine congrArg List.head? (List.filterMap_congr fun m _ => ?_)
  split
  · rfl
  · next habsent =>
    have hnone : lastOf? es m.1 = none := by
      refine List.find?_eq_none.mpr fun e he hid => habsent ?_
      exact List.any_eq_true.mpr ⟨e, List.mem_reverse.mp he, hid⟩
    exact (congrArg (Option.map fun e => (e, m.2)) hnone).symm

end Present

section Updates

variable {α : Type} [Scalar α] {es : List (Element α)} {starts : Entries (Point α)}

/-- What is not there is not dragged. -/
theorem drag_present (es : List (Element α)) (starts : Entries (Point α)) (dx dy : α)
    (viewport : Option (Viewport α)) (reach : α) :
    drag es (present es starts) dx dy viewport reach = drag es starts dx dy viewport reach := by
  have hothers : (es.filter fun e => !Entries.has e.id (present es starts))
      = es.filter fun e => !Entries.has e.id starts :=
    List.filter_congr fun e he => by rw [Entries.has, get?_present he, Entries.has]
  have htwice : ((present es starts).filter fun m => es.any fun e => e.id == m.1)
      = present es starts := by
    rw [present, List.filter_filter]
    simp only [Bool.and_self]
  have hlead := lead?_present es starts
  unfold lead? at hlead
  unfold drag
  rw [hlead]
  cases List.findSome? _ starts with
  | none => rfl
  | some lead =>
    dsimp only
    rw [hothers, htwice]
    refine congrArg (GestureFrame.mk · _) (congrArg _ (List.filter_congr fun m hm => ?_))
    obtain ⟨e', he', hid'⟩ := List.mem_map.mp (Element.mem_ids_of_mem_rebindings hm)
    obtain ⟨e, he, rfl⟩ := List.mem_map.mp he'
    have hid : m.1 = e.id := hid'.symm.trans (Hold.id_framed Hold.lawful_drag e)
    simp only [hid, Entries.has, get?_present he]

/-- Where an end of an arrow is bound to a dragged element, it lies on the anchor that moved. -/
def Lands (es : List (Element α)) (starts : Entries (Point α)) (turn : Element α → Element α)
    (e' : Element α) (binding : Option Binding) (p' : Point α) : Prop :=
  ∀ bd ∈ binding, ∀ t ∈ es, t.id = bd.element → Entries.has t.id starts = true →
    e'.endPlace p' = bd.anchor.on (turn t).frame.box

/-- What a drag by a vector makes of elements: those that are dragged move by it from where they
started, arrows that are not dragged take the ends along that are bound to what is, and what has
nothing to do with it stays. -/
structure MovesBy (es : List (Element α)) (starts : Entries (Point α)) (v : Point α)
    (turn : Element α → Element α) : Prop where
  dragged : ∀ e ∈ es, ∀ p, Entries.get? e.id starts = some p →
    turn e = e.moveTo (p.x + v.x) (p.y + v.y) ∧ (turn e).arrow? = e.arrow?
  bound : ∀ f s p q, .shape f .arrow s ∈ es → Entries.has f.id starts = false →
    s.start = some p → s.finish = some q → ∃ b p' q', turn (.shape f .arrow s)
        = .shape (f.withBox b) .arrow { s with start := some p', finish := some q' } ∧
      Lands es starts turn (turn (.shape f .arrow s)) s.startBinding p' ∧
      Lands es starts turn (turn (.shape f .arrow s)) s.finishBinding q'
  rest : ∀ e ∈ es, Entries.has e.id starts = false →
    (∀ bd ∈ e.bindings, ∀ t ∈ es, t.id = bd.element → Entries.has t.id starts = false) →
    turn e = e

end Updates

section Exact

variable {α : Type} [Field α] [LinearOrder α] [FloorRing α] [Trigonometry α]
  [IsStrictOrderedRing α] {es : List (Element α)} {starts : Entries (Point α)} {dx dy limit : α}

/-- The elements are dragged as far as the pointer moved, or nearly so. -/
theorem near_offset (limit : α) (es : List (Element α)) (starts : Entries (Point α)) (dx dy : α) :
    Frame.Near limit dx (offset limit es starts dx dy).x ∧
      Frame.Near limit dy (offset limit es starts dx dy).y := by
  have hshift {d m s : α} (h : Frame.Near limit m s) : Frame.Near limit d (d + s - m) := by
    rcases h with rfl | h
    · exact .inl (add_sub_cancel_right d s)
    · have hsame : d + s - m - d = s - m := by ring
      exact .inr (hsame ▸ h)
  unfold offset
  cases lead? es starts with
  | none => exact ⟨.inl rfl, .inl rfl⟩
  | some lead =>
    obtain ⟨hx, hy⟩ := Frame.near_snapped limit (carried lead dx dy) (others es starts)
    exact ⟨hshift hx, hshift hy⟩

/-- Elements are held where they started plus a vector, and nothing else is held. -/
structure Carries (es : List (Element α)) (starts held : Entries (Point α)) (v : Point α) :
    Prop where
  there : ∀ id ∈ held.keys, ∃ t ∈ es, t.id = id
  get? : ∀ e ∈ es, Entries.get? e.id held
    = (Entries.get? e.id starts).map fun p => ⟨p.x + v.x, p.y + v.y⟩

omit [IsStrictOrderedRing α] in
theorem carries_targets (es : List (Element α)) (starts : Entries (Point α)) (limit dx dy : α) :
    Carries es starts (targets limit es (present es starts) dx dy)
      (offset limit es (present es starts) dx dy) where
  there id h := by
    rw [keys_targets] at h
    exact exists_of_mem_keys_present h
  get? e he := by rw [targets, Entries.get?_mapValues, get?_present he]

namespace Carries

variable {held : Entries (Point α)} {v : Point α} {e : Element α}
  (h : Carries es starts held v)

include h

omit [IsStrictOrderedRing α] in
theorem has_eq (he : e ∈ es) : Entries.has e.id held = Entries.has e.id starts := by
  rw [Entries.has, Entries.has, h.get? e he, Option.isSome_map]

omit [IsStrictOrderedRing α] in
theorem mem_keys_iff {id : String} : id ∈ held.keys ↔
    ∃ t ∈ es, t.id = id ∧ Entries.has t.id starts = true := by
  constructor
  · intro hid
    obtain ⟨t, ht, rfl⟩ := h.there id hid
    exact ⟨t, ht, rfl, h.has_eq ht ▸ Entries.has_eq_true_iff.mpr hid⟩
  · rintro ⟨t, ht, rfl, hdragged⟩
    exact Entries.has_eq_true_iff.mp ((h.has_eq ht).trans hdragged)

omit [IsStrictOrderedRing α] in
theorem get?_eq_none (he : e ∈ es) (hfree : Entries.has e.id starts = false) :
    Entries.get? e.id held = none := by
  have hnot := (h.has_eq he).trans hfree
  rwa [Entries.has, Option.isSome_eq_false_iff, Option.isNone_iff_eq_none] at hnot

omit [IsStrictOrderedRing α] in
/-- What is dragged moves, and its ends with it. -/
theorem turned_of_dragged (he : e ∈ es) {p : Point α} (hp : Entries.get? e.id starts = some p) :
    Hold.drag.turned held es e = e.moveTo (p.x + v.x) (p.y + v.y) := by
  have hnone : Hold.drag.anew held es e = none := by
    rw [Hold.anew_eq_none_iff Hold.lawful_drag, h.has_eq he, Entries.has, hp]
    rfl
  rw [Hold.turned_of_not_anew hnone, h.get? e he, hp]
  rfl

omit [IsStrictOrderedRing α] in
/-- Arrows are bound anew among elements that lie where they are dragged. -/
theorem framed_of_dragged (he : e ∈ es) (hdragged : Entries.has e.id starts = true) :
    Hold.drag.framed held e = Hold.drag.turned held es e := by
  obtain ⟨p, hp⟩ := Option.isSome_iff_exists.mp hdragged
  have hv : Entries.get? e.id held = some ⟨p.x + v.x, p.y + v.y⟩ := by
    rw [h.get? e he, hp, Option.map_some]
  rw [h.turned_of_dragged he hp, Hold.framed_of_eq_some hv]
  rfl

omit [IsStrictOrderedRing α] in
/-- What is neither dragged nor bound to what is stays. -/
theorem turned_of_apart (he : e ∈ es) (hfree : Entries.has e.id starts = false)
    (hbound : ∀ bd ∈ e.bindings, ∀ t ∈ es, t.id = bd.element → Entries.has t.id starts = false) :
    Hold.drag.turned held es e = e := by
  refine Hold.turned_eq_self Hold.lawful_drag ((h.has_eq he).trans hfree) ?_
  refine Bool.eq_false_iff.mpr fun hr => ?_
  rcases (Element.rebinds_iff.mp hr).bound with ⟨bd, hbd, hmoved⟩ | ⟨-, hmoved, -⟩
  · obtain ⟨t, ht, hid, hdragged⟩ := h.mem_keys_iff.mp hmoved
    exact Bool.false_ne_true ((hbound bd hbd t ht hid).symm.trans hdragged)
  · rw [← Entries.has_eq_true_iff, h.has_eq he, hfree] at hmoved
    contradiction

omit [IsStrictOrderedRing α] in
theorem lands_of_apart {binding : Option Binding} (hapart : ∀ bd ∈ binding, bd.element ∉ held.keys)
    (turn : Element α → Element α) (p : Point α) : Lands es starts turn e binding p := by
  intro bd hbd t ht hid hdragged
  exact absurd (h.mem_keys_iff.mpr ⟨t, ht, hid, hdragged⟩) (hapart bd hbd)

omit [IsStrictOrderedRing α] in
theorem lands_of_fits {e' : Element α} {binding : Option Binding} {p p' : Point α}
    (hfits : Element.EndFits (es.map (Hold.drag.framed held)) e e' binding p p') :
    Lands es starts (Hold.drag.turned held es) e' binding p' := by
  intro bd hbd t ht hid hdragged
  rw [← h.framed_of_dragged ht hdragged]
  refine hfits.bound bd hbd _ (List.mem_map_of_mem ht) ?_
  exact (Hold.id_framed Hold.lawful_drag t).trans hid

/-- An arrow that is not dragged is bound anew if it has to follow. -/
theorem turned_of_arrow (hids : (es.map Element.id).Nodup) {f : Frame α} {s : Shape α}
    {p q : Point α} (he : .shape f .arrow s ∈ es) (hfree : Entries.has f.id starts = false)
    (hp : s.start = some p) (hq : s.finish = some q) : ∃ b p' q',
      Hold.drag.turned held es (.shape f .arrow s)
        = .shape (f.withBox b) .arrow { s with start := some p', finish := some q' } ∧
      Lands es starts (Hold.drag.turned held es) (Hold.drag.turned held es (.shape f .arrow s))
        s.startBinding p' ∧
      Lands es starts (Hold.drag.turned held es) (Hold.drag.turned held es (.shape f .arrow s))
        s.finishBinding q' := by
  have hstill : Entries.get? (Element.shape f .arrow s).id held = none := h.get?_eq_none he hfree
  have hown : Entries.has (Element.shape f .arrow s).id held = false := by
    rw [Entries.has, hstill, Option.isSome_none]
  cases hanew : Hold.drag.anew held es (.shape f .arrow s) with
  | none =>
    have hsame : Hold.drag.turned held es (.shape f .arrow s) = .shape f .arrow s := by
      rw [Hold.turned_of_not_anew hanew, hstill, Option.elim_none]
    have hshape : s = { s with start := some p, finish := some q } := by rw [← hp, ← hq]
    rw [Hold.anew_eq_none_iff Hold.lawful_drag, hown] at hanew
    -- it has nothing to follow, so that it is bound to nothing that is dragged
    have hapart : ∀ bd ∈ (Element.shape f .arrow s).bindings, bd.element ∉ held.keys := by
      intro bd hbd hmoved
      have hfollow : (Element.shape f .arrow s).HasToFollow held.keys true :=
        ⟨⟨s, rfl, hp ▸ rfl, hq ▸ rfl⟩, .inl ⟨bd, hbd, hmoved⟩⟩
      rw [Element.rebinds_iff.mpr hfollow] at hanew
      contradiction
    have hbindings :=
      Element.mem_bindings (show (Element.shape f .arrow s).arrow? = some s from rfl)
    refine ⟨f.box, p, q, hsame.trans (congrArg _ hshape), ?_, ?_⟩
    · exact h.lands_of_apart (fun bd hbd => hapart bd ((hbindings bd).mpr (.inl hbd))) _ _
    · exact h.lands_of_apart (fun bd hbd => hapart bd ((hbindings bd).mpr (.inr hbd))) _ _
  | some g =>
    have hlaid := Hold.turned_of_anew hanew
    rw [Hold.anew, hown, Hold.framed_of_eq_none hstill] at hanew
    have hids' : ((es.map (Hold.drag.framed held)).map Element.id).Nodup :=
      (Hold.map_id_framed Hold.lawful_drag held es).symm ▸ hids
    obtain ⟨-, -, f', s', _, _, b, p', q', heq, -, -, hshape, hstart, hfinish⟩ :=
      Element.refits_of_rebound? hids' hanew
    cases heq
    exact ⟨b, p', q', hlaid.trans hshape, hlaid ▸ h.lands_of_fits hstart,
      hlaid ▸ h.lands_of_fits hfinish⟩

/-- A frame of a drag moves the elements by the offset. -/
theorem movesBy (hids : (es.map Element.id).Nodup) :
    MovesBy es starts v (Hold.drag.turned held es) where
  dragged e he p hp := by
    rw [h.turned_of_dragged he hp]
    exact ⟨rfl, e.arrow?_withFrame _⟩
  bound _ _ _ _ he := h.turned_of_arrow hids he
  rest _ he := h.turned_of_apart he

end Carries

/-- With exact numbers, whatever a drag asks for is taken. Dragged elements move by one vector,
which on each axis is that of the pointer or differs from it by less than the snap distance on the
board; ends of other arrows that are bound to them stay on their anchors, and nothing else
changes. -/
theorem drag_moves (hids : (es.map Element.id).Nodup) (hvalid : ∀ e ∈ es, e.Valid)
    (hdepth : ∀ e ∈ es, Entries.has e.id starts = true → Element.nesting e ≤ Element.maxNesting)
    (dx dy : α) (viewport : Option (Viewport α)) (reach : α) :
    ∃ v turn, (∀ ids, Element.applyEach (drag es starts dx dy viewport reach).updates.changesOf
          ids es = (none, es.map turn, ids)) ∧
      (v.x = dx ∨ |v.x - dx| < Guide.onBoard viewport reach) ∧
      (v.y = dy ∨ |v.y - dy| < Guide.onBoard viewport reach) ∧ MovesBy es starts v turn := by
  obtain ⟨hx, hy⟩ := near_offset (Guide.onBoard viewport reach) es (present es starts) dx dy
  have hcarries := carries_targets es starts (Guide.onBoard viewport reach) dx dy
  refine ⟨_, _, Element.applyEach_eq_map ?_, hx, hy, hcarries.movesBy hids⟩
  rw [← drag_present, drag_updates fun id => exists_of_mem_keys_present]
  refine Hold.turns_updates Hold.lawful_drag hids hvalid fun e he p hp => ?_
  refine Element.apply_positionChanges (hvalid e he) (hdepth e he ?_) p
  rw [← hcarries.has_eq he, Entries.has, hp, Option.isSome_some]

end Exact

/-- A rectangle is dragged, and an arrow that starts at it follows. -/
theorem drag_moves_leash :
    let es := Gesture.leash ℝ
    let starts : Entries (Point ℝ) := [("r", ⟨0, 0⟩)]
    ∃ v turn, (∀ ids, Element.applyEach (drag es starts 30 0 none 10).updates.changesOf ids es
          = (none, es.map turn, ids)) ∧
      (v.x = 30 ∨ |v.x - 30| < Guide.onBoard none 10) ∧ MovesBy es starts v turn := by
  intro es starts
  have hdepth : ∀ e ∈ es, Entries.has e.id starts = true → Element.nesting e ≤ Element.maxNesting :=
    List.forall_mem_cons.mpr ⟨fun _ => Nat.zero_le _,
      List.forall_mem_singleton.mpr fun _ => Nat.zero_le _⟩
  have hids : (es.map Element.id).Nodup := by decide
  obtain ⟨v, turn, happly, hx, -, hmoves⟩ := drag_moves hids Gesture.valid_leash hdepth 30 0 none 10
  exact ⟨v, turn, happly, hx, hmoves⟩

end GestureFrame

end Whiteboard

import Mathlib
import Whiteboard.Board.Rotation
import Whiteboard.Proofs.Board.Regrouping

/-!
# Rigid rotations

Several elements turn as one rigid body (`Board.rotate_rigidly`): the vector between the middles of
two of them turns by the angle. Positions are those of corners, but the corners are put so that the
middles turn (`Frame.center_turnAround`). Arrows that are bound are fitted to their ends afterwards;
all other elements have nothing to follow.
-/

namespace Whiteboard

theorem Board.exists_among_eq {α : Type} {ids : List String} {es : List (Element α)}
    (hmany : 2 ≤ (among ids es).length) :
    ∃ first second rest, among ids es = first :: second :: rest :=
  match among ids es, hmany with
  | first :: second :: rest, _ => ⟨first, second, rest, rfl⟩

variable {α : Type} [Field α] [LinearOrder α] [FloorRing α] [Trigonometry α]

theorem Frame.center_turnAround (f : Frame α) (pivot : Point α) (angle : α) :
    (f.turnAround pivot angle).center = Point.rotate f.center pivot angle := by
  have hback (a b : α) : a - b + b = a := sub_add_cancel a b
  exact congrArg₂ Point.mk (hback ..) (hback ..)

/-- The vector between two points that turn around a third one. -/
theorem Point.sub_rotate (p q pivot : Point α) (angle : α) :
    (q.rotate pivot angle).x - (p.rotate pivot angle).x
        = (q.x - p.x) * Scalar.cosDeg angle - (q.y - p.y) * Scalar.sinDeg angle ∧
      (q.rotate pivot angle).y - (p.rotate pivot angle).y
        = (q.x - p.x) * Scalar.sinDeg angle + (q.y - p.y) * Scalar.cosDeg angle := by
  have hx (o o' a b v w c s : α) :
      o + (a - o) * c - (v - o') * s - (o + (b - o) * c - (w - o') * s)
        = (a - b) * c - (v - w) * s := by ring
  have hy (o o' a b v w c s : α) :
      o' + (a - o) * s + (v - o') * c - (o' + (b - o) * s + (w - o') * c)
        = (a - b) * s + (v - w) * c := by ring
  exact ⟨hx .., hy ..⟩

namespace Board

open Element

/-- How elements turn by an angle as one rigid body. Those that are bound may be fitted to their
ends afterwards; the others keep their sizes and their distances. -/
structure TurnsRigidly (ids : List String) (angle : α) (es : List (Element α))
    (turn : Element α → Element α) : Prop where
  id : ∀ e ∈ es, (turn e).id = e.id
  rotation : ∀ e ∈ among ids es, (turn e).rotation = Scalar.modulo (e.rotation + angle) 360
  size : ∀ e ∈ among ids es, e.bindings = [] →
    (turn e).width = e.width ∧ (turn e).height = e.height
  vector : ∀ e ∈ among ids es, ∀ e' ∈ among ids es, e.bindings = [] → e'.bindings = [] →
    (turn e').center.x - (turn e).center.x
        = (e'.center.x - e.center.x) * Scalar.cosDeg angle
          - (e'.center.y - e.center.y) * Scalar.sinDeg angle ∧
      (turn e').center.y - (turn e).center.y
        = (e'.center.x - e.center.x) * Scalar.sinDeg angle
          + (e'.center.y - e.center.y) * Scalar.cosDeg angle
  distance : ∀ e ∈ among ids es, ∀ e' ∈ among ids es, e.bindings = [] → e'.bindings = [] →
    ((turn e').center.x - (turn e).center.x) ^ 2 + ((turn e').center.y - (turn e).center.y) ^ 2
      = (e'.center.x - e.center.x) ^ 2 + (e'.center.y - e.center.y) ^ 2
  rest : ∀ e ∈ es, e.id ∉ ids → (∀ bd ∈ e.bindings, bd.element ∉ ids) → turn e = e

/-- An element among those that turn around the middle of their box, or another one. -/
def swung (ids : List String) (angle : α) (es : List (Element α)) (e : Element α) : Element α :=
  if ids.contains e.id then
    e.mapFrame fun f => f.turnAround (uprightBox (among ids es)).center angle
  else e

/-- What becomes of an element when some turn and arrows follow. -/
def turned (ids : List String) (angle : α) (es : List (Element α)) (e : Element α) : Element α :=
  (swung ids angle es e).followed ids (es.map (swung ids angle es))

variable {ids : List String} {angle : α} {es : List (Element α)} {e : Element α}

theorem swung_of_mem (he : e.id ∈ ids) : swung ids angle es e
    = e.mapFrame fun f => f.turnAround (uprightBox (among ids es)).center angle :=
  if_pos (List.contains_iff_mem.mpr he)

theorem swung_of_not_mem (he : e.id ∉ ids) : swung ids angle es e = e :=
  if_neg fun h => he (List.contains_iff_mem.mp h)

/-- What turned keeps its id and its bindings. -/
theorem same_swung (e : Element α) :
    (swung ids angle es e).id = e.id ∧ (swung ids angle es e).bindings = e.bindings := by
  unfold swung
  split
  · refine ⟨by rw [Element.id, frame_mapFrame]; rfl, ?_⟩
    rw [bindings, mapFrame, arrow?_withFrame]
    rfl
  · exact ⟨rfl, rfl⟩

theorem map_id_swung (es' : List (Element α)) :
    (es'.map (swung ids angle es)).map Element.id = es'.map Element.id :=
  List.map_map.trans (List.map_congr_left fun e _ => (same_swung e).1)

/-- An element that is bound to nothing only turns. -/
theorem turned_of_unbound (he : e.bindings = []) :
    turned ids angle es e = swung ids angle es e := by
  have hfree : (swung ids angle es e).bindings = [] := (same_swung e).2.trans he
  exact boundAnew_of_apart (hfree ▸ nofun) fun _ => hfree

/-- An element that neither turns nor is bound to what does stays. -/
theorem turned_of_apart (hid : e.id ∉ ids) (he : ∀ bd ∈ e.bindings, bd.element ∉ ids) :
    turned ids angle es e = e := by
  rw [turned, swung_of_not_mem hid]
  exact boundAnew_of_apart he fun h => absurd h hid

variable [IsStrictOrderedRing α]

theorem valid_swung (he : e.Valid) : (swung ids angle es e).Valid := by
  unfold swung
  split
  · exact he.withFrame (he.frame.proper_turned _ _ _ _ _ fun _ _ => rfl)
  · exact he

/-- The middles of elements turn, and with them the vectors between them. -/
theorem turnsRigidly_turned (hturn : Scalar.cosDeg angle ^ 2 + Scalar.sinDeg angle ^ 2 = 1)
    (ids : List String) (es : List (Element α)) :
    TurnsRigidly ids angle es (turned ids angle es) := by
  have hframe {e : Element α} (he : e ∈ among ids es) : (swung ids angle es e).frame
      = e.frame.turnAround (uprightBox (among ids es)).center angle := by
    rw [swung_of_mem (List.contains_iff_mem.mp (List.mem_filter.mp he).2), frame_mapFrame]
  have hcenter {e : Element α} (he : e ∈ among ids es) (hfree : e.bindings = []) :
      (turned ids angle es e).center
        = e.center.rotate (uprightBox (among ids es)).center angle := by
    rw [turned_of_unbound hfree, center, hframe he, Frame.center_turnAround]
    rfl
  constructor
  case id => exact fun e _ => (id_boundAnew _).trans (same_swung e).1
  case rotation =>
    intro e he
    have hkept : (turned ids angle es e).rotation = (swung ids angle es e).rotation :=
      rotation_boundAnew _
    rw [hkept, Element.rotation, hframe he, ← Scalar.normalizeAngle_ofField]
    rfl
  case size =>
    intro e he hfree
    rw [turned_of_unbound hfree, width, height, hframe he]
    exact ⟨rfl, rfl⟩
  case vector =>
    intro e he e' he' hfree hfree'
    rw [hcenter he hfree, hcenter he' hfree']
    exact Point.sub_rotate ..
  case distance =>
    intro e he e' he' hfree hfree'
    have hkept (dx dy : α) {c s : α} (h : c ^ 2 + s ^ 2 = 1) :
        (dx * c - dy * s) ^ 2 + (dx * s + dy * c) ^ 2 = dx ^ 2 + dy ^ 2 := by
      linear_combination (dx ^ 2 + dy ^ 2) * h
    obtain ⟨hx, hy⟩ := Point.sub_rotate e.center e'.center (uprightBox (among ids es)).center angle
    rw [hcenter he hfree, hcenter he' hfree', hx, hy]
    exact hkept _ _ hturn
  case rest => exact fun e _ hid => turned_of_apart hid

omit [IsStrictOrderedRing α] in
theorem rotate_of_many {b : Board α} (hmany : 2 ≤ (among ids b.elements).length) (angle : α) :
    b.rotate ids angle = b.turnTogether ids angle := by
  obtain ⟨first, second, rest, hchosen⟩ := exists_among_eq hmany
  rw [rotate, hchosen]

omit [IsStrictOrderedRing α] in
theorem setRotation_of_many {b : Board α} (hmany : 2 ≤ (among ids b.elements).length)
    {first : Element α} (hfirst : first ∈ (among ids b.elements).head?) {target : α}
    (hfar : ¬ Scalar.abs (target - first.rotation) < leastAngle) :
    b.setRotation ids target = b.turnTogether ids (target - first.rotation) := by
  obtain ⟨e, second, rest, hchosen⟩ := exists_among_eq hmany
  rw [hchosen] at hfirst
  cases hfirst
  rw [setRotation, hchosen]
  exact if_neg hfar

/-- Several elements turn as one rigid body. -/
theorem exists_turnTogether {b : Board α} (hids : (b.elements.map Element.id).Nodup)
    (hvalid : ∀ e ∈ b.elements, e.Valid) (ids : List String) (angle : α) :
    ∃ c, b.turnTogether ids angle = (.ok (), c) ∧
      c.elements = b.elements.map (turned ids angle b.elements) := by
  obtain ⟨c, hc, hes⟩ := refreshed_eq (b := b.mapFrames ids fun f =>
      f.turnAround (uprightBox (among ids b.elements)).center angle)
    ((map_id_swung b.elements).symm ▸ hids)
    (List.forall_mem_map.mpr fun e he => valid_swung (hvalid e he)) ids ()
  refine ⟨c, ?_, ?_⟩
  · exact (if_neg Bool.false_ne_true).trans hc
  · exact hes.trans List.map_map

/-- With exact numbers, several elements turn as one rigid body when they are rotated by an angle,
and when the first of them is brought to a rotation that it does not have yet. -/
theorem rotate_rigidly {b : Board α} (hids : (b.elements.map Element.id).Nodup)
    (hvalid : ∀ e ∈ b.elements, e.Valid) (hmany : 2 ≤ (among ids b.elements).length) :
    (∀ angle, Scalar.cosDeg angle ^ 2 + Scalar.sinDeg angle ^ 2 = 1 →
      ∃ c turn, b.rotate ids angle = (.ok (), c) ∧ c.elements = b.elements.map turn ∧
        TurnsRigidly ids angle b.elements turn) ∧
      ∀ first ∈ (among ids b.elements).head?, ∀ target,
        ¬ Scalar.abs (target - first.rotation) < leastAngle →
        Scalar.cosDeg (target - first.rotation) ^ 2 + Scalar.sinDeg (target - first.rotation) ^ 2
          = 1 →
        ∃ c turn, b.setRotation ids target = (.ok (), c) ∧ c.elements = b.elements.map turn ∧
          TurnsRigidly ids (target - first.rotation) b.elements turn ∧
          (turn first).rotation = Scalar.modulo target 360 := by
  constructor
  · intro angle hturn
    obtain ⟨c, hc, hes⟩ := exists_turnTogether hids hvalid ids angle
    exact ⟨c, _, (rotate_of_many hmany angle).trans hc, hes, turnsRigidly_turned hturn ids _⟩
  · intro first hfirst target hfar hturn
    obtain ⟨c, hc, hes⟩ := exists_turnTogether hids hvalid ids (target - first.rotation)
    have hrigid := turnsRigidly_turned hturn ids b.elements
    refine ⟨c, _, (setRotation_of_many hmany hfirst hfar).trans hc, hes, hrigid, ?_⟩
    rw [hrigid.rotation first (List.mem_of_mem_head? hfirst)]
    exact congrArg (Scalar.modulo · 360) (add_sub_cancel first.rotation target)

/-- Two rectangles next to each other, which are turned by a right angle. -/
theorem rotate_rigidly_pair :
    let r : Element ℝ := .newShape "r" .rectangle { x := 0, y := 0 }
    let q : Element ℝ := .newShape "q" .rectangle { x := 180, y := 0 }
    let b : Board ℝ := .start .counting [r, q] .initial 50
    (∃ c turn, b.rotate ["r", "q"] 90 = (.ok (), c) ∧ c.elements = b.elements.map turn ∧
      TurnsRigidly ["r", "q"] 90 b.elements turn) ∧
    ∃ c turn, b.setRotation ["r", "q"] 90 = (.ok (), c) ∧ c.elements = b.elements.map turn ∧
      (turn r).rotation = Scalar.modulo 90 360 := by
  intro r q b
  have hes : b.elements = [r, q] :=
    congrArg Document.elements (Document.settled_eq_self (fun _ => rfl) _)
  have hids : (b.elements.map Element.id).Nodup := by decide
  have hvalid : ∀ e ∈ b.elements, e.Valid := hes ▸ List.forall_mem_cons.mpr
    ⟨valid_newShape .., List.forall_mem_singleton.mpr (valid_newShape ..)⟩
  have hchosen : among ["r", "q"] b.elements = [r, q] := hes ▸ rfl
  have hturn (angle : ℝ) : Scalar.cosDeg angle ^ 2 + Scalar.sinDeg angle ^ 2 = 1 :=
    Real.cos_sq_add_sin_sq _
  have hmany : 2 ≤ (among ["r", "q"] b.elements).length := by
    rw [hchosen]
    exact le_rfl
  have hfirst : r ∈ (among ["r", "q"] b.elements).head? := by
    rw [hchosen]
    rfl
  have hfar : ¬ Scalar.abs (90 - r.rotation) < leastAngle := by
    have hupright : r.rotation = 0 := Int.cast_zero
    have hleast : (leastAngle : ℝ) = (1 : ℕ) / 10 ^ 3 := rfl
    rw [Scalar.abs_eq_abs, hupright, hleast]
    norm_num
  obtain ⟨hrotate, hset⟩ := rotate_rigidly hids hvalid hmany
  obtain ⟨c, turn, hc, hturned, -, hrotation⟩ := hset r hfirst 90 hfar (hturn _)
  exact ⟨hrotate 90 (hturn _), c, turn, hc, hturned, hrotation⟩

/-- An arrow that does not turn and is bound to nothing that turns, but to an id that is rotated
along and names no element: its box is fitted to its ends. -/
theorem not_rotate_rigidly :
    letI : Trigonometry ℚ := ⟨fun _ => 0, fun _ => 1, fun _ _ => 0⟩
    let rectangle (id : String) (x : ℚ) : Element ℚ := .newShape id .rectangle { x, y := 0 }
    let arrow : Element ℚ := .shape (Draft.frame { x := 0, y := 200 } "a" 180 60) .arrow
      { Shape.blankArrow with
        start := some ⟨0, 0⟩, finish := some ⟨100, 20⟩, startBinding := some ⟨"ghost", .topLeft⟩ }
    let b : Board ℚ := .start .counting [rectangle "r" 0, rectangle "q" 200, arrow] .initial 50
    let ids := ["r", "q", "ghost"]
    Scalar.cosDeg (90 : ℚ) ^ 2 + Scalar.sinDeg (90 : ℚ) ^ 2 = 1 ∧
      (b.elements.map Element.id).Nodup ∧ (among ids b.elements).map Element.id = ["r", "q"] ∧
      (∀ bd ∈ arrow.bindings, bd.element ∉ (among ids b.elements).map Element.id) ∧
      (b.rotate ids 90).1.toBool = true ∧
      b.elements.map width = [150, 150, 180] ∧
      (b.rotate ids 90).2.elements.map width = [150, 150, 100] := by
  decide +kernel

end Board

end Whiteboard

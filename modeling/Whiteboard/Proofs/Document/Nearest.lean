import Mathlib
import Whiteboard.Element.Default
import Whiteboard.Proofs.Document.Attachment
import Whiteboard.Proofs.Scalar.Exact

/-!
# The nearest anchor

An end of an arrow snaps to an anchor within reach if there is one. Of all anchors it takes the
nearest, and the first of those in the order of the elements and of their anchors
(`SnapPoint.nearest_of_snap`). Where no two elements share an id, the binding leads to the very place
that was found.
-/

namespace Whiteboard

namespace Element

variable {α : Type}

/-- The anchors of an element are tried if it is no arrow and is not the one that is left out. -/
structure Offers (except : Option String) (e : Element α) : Prop where
  not_arrow : e.isArrow = false
  other : some e.id ≠ except

variable [Scalar α]

/-- The snap point at an anchor of an element. -/
def snapPoint (e : Element α) (a : Anchor) : SnapPoint α := ⟨a.on e.frame.box, ⟨e.id, a⟩⟩

/-- How far an anchor of an element is from a point. -/
def anchorDistance (e : Element α) (a : Anchor) (p : Point α) : α := (e.snapPoint a).distance p

/-- The report of an end that snapped to an anchor of an element: the place of the anchor, and twice
which one it is, as what was found and as what the end is bound to. -/
def snapReport (e : Element α) (a : Anchor) : Json α :=
  let place := a.on e.frame.box
  let named : Entries (Json α) := [("element_id", .str e.id), ("position", .str (Named.name a))]
  .obj [("snapped", .bool true), ("x", .num place.x), ("y", .num place.y),
    ("snap_point", .obj (("x", .num place.x) :: ("y", .num place.y) :: named)),
    ("binding", .obj named)]

end Element

namespace SnapPoint

section Scan

variable {α : Type} [Scalar α] {es : List (Element α)} {e : Element α} {except : Option String}
  {s : SnapPoint α} {before after : List (SnapPoint α)}

/-- The snap points of an element, unless it is left out. -/
def tried (except : Option String) (e : Element α) : List (SnapPoint α) :=
  if some e.id = except then [] else (Anchor.ofKind e.kind).map e.snapPoint

theorem ofElements_cons (e : Element α) (es : List (Element α)) (except : Option String) :
    ofElements (e :: es) except = tried except e ++ ofElements es except := by
  unfold tried
  split
  · next h =>
    rw [ofElements, List.filter_cons_of_neg (by simpa using h), ofElements]
    rfl
  · next h =>
    rw [ofElements, List.filter_cons_of_pos (by simpa using h), List.flatMap_cons, ofElements]
    rfl

omit [Scalar α] in
/-- Arrows have no anchors. -/
theorem offers_of_anchor {a : Anchor} (h : some e.id ≠ except) (ha : a ∈ Anchor.ofKind e.kind) :
    e.Offers except := by
  refine ⟨?_, h⟩
  cases harrow : e.isArrow with
  | false => rfl
  | true =>
    rw [Element.isArrow_eq, decide_eq_true_iff] at harrow
    rw [harrow] at ha
    contradiction

theorem mem_tried : s ∈ tried except e ↔
    e.Offers except ∧ ∃ a ∈ Anchor.ofKind e.kind, s = e.snapPoint a := by
  unfold tried
  split
  · next h =>
    constructor
    · intro hs
      contradiction
    · rintro ⟨hoffers, -⟩
      exact absurd h hoffers.other
  · next h =>
    rw [List.mem_map]
    constructor
    · rintro ⟨a, ha, rfl⟩
      exact ⟨offers_of_anchor h ha, a, ha, rfl⟩
    · rintro ⟨-, a, ha, rfl⟩
      exact ⟨a, ha, rfl⟩

theorem mem_ofElements : s ∈ ofElements es except ↔ ∃ e ∈ es, s ∈ tried except e := by
  induction es with
  | nil => simp [ofElements]
  | cons e es ih => rw [ofElements_cons, List.mem_append, ih, List.exists_mem_cons_iff]

theorem forall_mem_ofElements {P : SnapPoint α → Prop} : (∀ s ∈ ofElements es except, P s) ↔
    ∀ e ∈ es, e.Offers except → ∀ a ∈ Anchor.ofKind e.kind, P (e.snapPoint a) := by
  constructor
  · intro h e he hoffers a ha
    exact h _ (mem_ofElements.mpr ⟨e, he, mem_tried.mpr ⟨hoffers, a, ha, rfl⟩⟩)
  · intro h s hs
    obtain ⟨e, he, htried⟩ := mem_ofElements.mp hs
    obtain ⟨hoffers, a, ha, rfl⟩ := mem_tried.mp htried
    exact h e he hoffers a ha

/-- The snap points of an element are tried in the order of its anchors. -/
theorem exists_of_tried_eq (h : tried except e = before ++ s :: after) :
    e.Offers except ∧ ∃ earlier a later, Anchor.ofKind e.kind = earlier ++ a :: later ∧
      s = e.snapPoint a ∧ before = earlier.map e.snapPoint := by
  have hmem : s ∈ tried except e := by simp [h]
  refine ⟨(mem_tried.mp hmem).1, ?_⟩
  unfold tried at h
  split at h
  · simp at h
  · obtain ⟨earlier, rest, hkind, rfl, hrest⟩ := List.map_eq_append_iff.mp h
    obtain ⟨a, later, rfl, rfl, -⟩ := List.map_eq_cons_iff.mp hrest
    exact ⟨earlier, a, later, hkind, rfl, rfl⟩

/-- A snap point is tried behind those of the elements before its own, and behind those at the
anchors before its own. -/
theorem exists_of_ofElements_eq (h : ofElements es except = before ++ s :: after) :
    ∃ front e rest earlier a later, es = front ++ e :: rest ∧ e.Offers except ∧
      Anchor.ofKind e.kind = earlier ++ a :: later ∧ s = e.snapPoint a ∧
      before = ofElements front except ++ earlier.map e.snapPoint := by
  induction es generalizing before with
  | nil => simp [ofElements] at h
  | cons e es ih =>
    have hbehind (tail : List (SnapPoint α)) (htail : ofElements es except = tail ++ s :: after)
        (hbefore : before = tried except e ++ tail) : ∃ front t rest earlier a later,
          e :: es = front ++ t :: rest ∧ t.Offers except ∧
          Anchor.ofKind t.kind = earlier ++ a :: later ∧ s = t.snapPoint a ∧
          before = ofElements front except ++ earlier.map t.snapPoint := by
      obtain ⟨front, t, rest, earlier, a, later, rfl, hoffers, hkind, hs, rfl⟩ := ih htail
      refine ⟨e :: front, t, rest, earlier, a, later, rfl, hoffers, hkind, hs, ?_⟩
      rw [hbefore, ofElements_cons, List.append_assoc]
    rw [ofElements_cons] at h
    rcases List.append_eq_append_iff.mp h with ⟨tail, hbefore, htail⟩ | ⟨tail, htried, hrest⟩
    · exact hbehind tail htail hbefore
    · cases tail with
      | nil => exact hbehind [] hrest.symm (by simpa using htried.symm)
      | cons t tail =>
        obtain ⟨rfl, -⟩ := List.cons.inj hrest
        obtain ⟨hoffers, earlier, a, later, hkind, hs, rfl⟩ := exists_of_tried_eq htried
        exact ⟨[], e, es, earlier, a, later, rfl, hoffers, hkind, hs, rfl⟩

end Scan

variable {α : Type} [Field α] [LinearOrder α] [FloorRing α] [Trigonometry α]
  {points : List (SnapPoint α)} {p : Point α} {reach : α} {s : SnapPoint α}

/-- One point more is taken if it is within reach and nearer than the best of those before. -/
theorem nearer_eq (p : Point α) (reach : α) (best : Option (SnapPoint α × α)) (s : SnapPoint α) :
    nearer p reach best s = if (∀ b ∈ best, s.distance p < b.2) ∧ s.distance p ≤ reach
      then some (s, s.distance p) else best := by
  cases best with
  | none => simp [nearer]
  | some b => simp [nearer]

/-- Nothing is found if nothing is within reach; else the first of the nearest is. -/
theorem foldl_nearer_cases (points : List (SnapPoint α)) (p : Point α) (reach : α) :
    (points.foldl (nearer p reach) none = none ∧ ∀ s ∈ points, ¬ s.distance p ≤ reach) ∨
      ∃ before s after, points.foldl (nearer p reach) none = some (s, s.distance p) ∧
        points = before ++ s :: after ∧ s.distance p ≤ reach ∧
        (∀ t ∈ before, s.distance p < t.distance p) ∧
        ∀ t ∈ after, s.distance p ≤ t.distance p := by
  induction points using List.reverseRecOn with
  | nil => exact .inl ⟨rfl, by simp⟩
  | append_singleton points t ih =>
    rw [List.foldl_concat, nearer_eq]
    rcases ih with ⟨hnone, hfar⟩ | ⟨before, s, after, hsome, hpoints, hreach, hbefore, hafter⟩
    · rw [hnone]
      by_cases ht : t.distance p ≤ reach
      · refine .inr ⟨points, t, [], if_pos ⟨by simp, ht⟩, rfl, ht, fun u hu => ?_, by simp⟩
        exact ht.trans_lt (not_le.mp (hfar u hu))
      · refine .inl ⟨if_neg fun h => ht h.2, ?_⟩
        exact List.forall_mem_append.mpr ⟨hfar, List.forall_mem_singleton.mpr ht⟩
    · rw [hsome]
      by_cases hlt : t.distance p < s.distance p
      · refine .inr ⟨points, t, [], if_pos ⟨by simpa using hlt, hlt.le.trans hreach⟩, rfl,
          hlt.le.trans hreach, fun u hu => ?_, by simp⟩
        rw [hpoints, List.mem_append, List.mem_cons] at hu
        rcases hu with hu | rfl | hu
        · exact hlt.trans (hbefore u hu)
        · exact hlt
        · exact hlt.trans_le (hafter u hu)
      · refine .inr ⟨before, s, after ++ [t], if_neg fun h => hlt (h.1 _ rfl), ?_, hreach, hbefore,
          List.forall_mem_append.mpr ⟨hafter, List.forall_mem_singleton.mpr (not_lt.mp hlt)⟩⟩
        rw [hpoints, List.append_assoc]
        rfl

/-- The anchor of an element that a point snaps to: no other is nearer, and those that come before
it, at other elements or at its own, are farther. -/
structure FirstNearest (es : List (Element α)) (except : Option String) (p : Point α)
    (e : Element α) (a : Anchor) : Prop where
  offers : e.Offers except
  least : ∀ t ∈ es, t.Offers except → ∀ b ∈ Anchor.ofKind t.kind,
    e.anchorDistance a p ≤ t.anchorDistance b p
  first : ∃ front rest earlier later, es = front ++ e :: rest ∧
    Anchor.ofKind e.kind = earlier ++ a :: later ∧
    (∀ t ∈ front, t.Offers except → ∀ b ∈ Anchor.ofKind t.kind,
      e.anchorDistance a p < t.anchorDistance b p) ∧
    ∀ b ∈ earlier, e.anchorDistance a p < e.anchorDistance b p

variable {es : List (Element α)} {except : Option String} {e : Element α} {a : Anchor}

theorem FirstNearest.mem (h : FirstNearest es except p e a) : e ∈ es := by
  obtain ⟨front, rest, -, -, rfl, -⟩ := h.first
  exact List.mem_append_right _ List.mem_cons_self

theorem FirstNearest.mem_ofKind (h : FirstNearest es except p e a) : a ∈ Anchor.ofKind e.kind := by
  obtain ⟨-, -, earlier, later, -, hkind, -⟩ := h.first
  rw [hkind]
  exact List.mem_append_right _ List.mem_cons_self

/-- A point stays where it is if no anchor is within reach; else it snaps to one. -/
theorem snap?_cases (es : List (Element α)) (except : Option String) (p : Point α) (reach : α) :
    (snap? es except p reach = none ∧ ∀ e ∈ es, e.Offers except →
        ∀ a ∈ Anchor.ofKind e.kind, ¬ e.anchorDistance a p ≤ reach) ∨
      ∃ e a, snap? es except p reach = some (e.snapPoint a) ∧ FirstNearest es except p e a ∧
        e.anchorDistance a p ≤ reach := by
  rcases foldl_nearer_cases (ofElements es except) p reach with
    ⟨hnone, hfar⟩ | ⟨before, s, after, hsome, hpoints, hreach, hbefore, hafter⟩
  · refine .inl ⟨?_, forall_mem_ofElements.mp hfar⟩
    rw [snap?, nearest?, hnone, Option.map_none]
  · have hleast : ∀ t ∈ ofElements es except, s.distance p ≤ t.distance p := by
      rw [hpoints]
      refine List.forall_mem_append.mpr ⟨fun t ht => (hbefore t ht).le, ?_⟩
      exact List.forall_mem_cons.mpr ⟨le_rfl, hafter⟩
    obtain ⟨front, e, rest, earlier, a, later, rfl, hoffers, hkind, rfl, rfl⟩ :=
      exists_of_ofElements_eq hpoints
    obtain ⟨hfront, hearlier⟩ := List.forall_mem_append.mp hbefore
    have hfirst : FirstNearest (front ++ e :: rest) except p e a :=
      ⟨hoffers, forall_mem_ofElements.mp hleast, front, rest, earlier, later, rfl, hkind,
        forall_mem_ofElements.mp hfront, fun b hb => hearlier _ (List.mem_map_of_mem hb)⟩
    refine .inr ⟨e, a, ?_, hfirst, hreach⟩
    rw [snap?, nearest?, hsome, Option.map_some]

/-- In the plane, no other point is at no distance. -/
theorem place_eq_of_distance_nonpos {s : SnapPoint ℝ} {p : Point ℝ} (h : s.distance p ≤ 0) :
    s.place = p := by
  obtain ⟨⟨x, y⟩, binding⟩ := s
  have hsum : (x - p.x) ^ 2 + (y - p.y) ^ 2 ≤ 0 :=
    Real.sqrt_eq_zero'.mp (le_antisymm h (Real.sqrt_nonneg _))
  have hx : (x - p.x) ^ 2 = 0 :=
    le_antisymm ((le_add_of_nonneg_right (sq_nonneg _)).trans hsum) (sq_nonneg _)
  have hy : (y - p.y) ^ 2 = 0 :=
    le_antisymm ((le_add_of_nonneg_left (sq_nonneg _)).trans hsum) (sq_nonneg _)
  exact congrArg₂ Point.mk (sub_eq_zero.mp (sq_eq_zero_iff.mp hx))
    (sub_eq_zero.mp (sq_eq_zero_iff.mp hy))

end SnapPoint

end Whiteboard

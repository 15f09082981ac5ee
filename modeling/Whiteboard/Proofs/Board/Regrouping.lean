import Whiteboard.Proofs.Board.Attachment
import Whiteboard.Proofs.Document.BoundAnew

/-!
# Grouping and ungrouping

Valid arrows follow what moved without refusing (`Board.refreshed_eq`), so that valid elements
can be grouped, and a group can be dissolved. Ungrouping what was grouped just before brings back
the members, and binds anew the arrows among them that are bound (`Board.ungroup_group`).
-/

namespace Whiteboard

variable {α : Type}

namespace Element

section Followed

variable [Scalar α] {moved : List String} {es : List (Element α)} {e : Element α}

/-- What becomes of an element when some elements moved. -/
def followed (moved : List String) (es : List (Element α)) (e : Element α) : Element α :=
  (e.rebound? moved es true).elim e fun g => e.laid g

/-- A bound arrow between its ends, those that are bound on their anchors; all else stays. -/
def refitted (es : List (Element α)) (e : Element α) : Element α :=
  if e.bindings.isEmpty then e
  else (e.endsAmong es).elim e fun ends => e.laid (.between ends.1 ends.2 ArrowGeometry.leastSide)

theorem map_id_followed (es' : List (Element α)) :
    (es'.map (followed moved es)).map Element.id = es'.map Element.id := map_id_boundAnew es'

/-- Only arrows follow. -/
theorem followed_of_not_arrow (he : e.isArrow = false) : e.followed moved es = e :=
  boundAnew_of_not_arrow he

theorem rebinds_of_mem (he : e.id ∈ moved) {ends : Point α × Point α}
    (hends : e.endsAmong es = some ends) : e.rebinds moved true = !e.bindings.isEmpty := by
  obtain ⟨f, s, p, q, rfl, hp, hq⟩ := exists_of_endsAmong hends
  obtain ⟨_, _, _, _, _, _, _, start, finish, _, _, _, startBinding, finishBinding⟩ := s
  cases hp
  cases hq
  have hcontains : moved.contains (shape f .arrow _).id = true := List.contains_iff_mem.mpr he
  simp only [rebinds, arrow?, bindings, hcontains]
  cases startBinding <;> cases finishBinding <;> simp [boundTo]

/-- What moved itself is fitted anew. -/
theorem followed_eq_refitted (he : e.id ∈ moved) : e.followed moved es = e.refitted es := by
  unfold followed refitted
  rw [rebound?_eq]
  cases hends : e.endsAmong es with
  | none => simp
  | some ends =>
    rw [rebinds_of_mem he hends]
    cases e.bindings.isEmpty <;> rfl

end Followed

section Exact

variable [Field α] [LinearOrder α] [FloorRing α] [Trigonometry α] [IsStrictOrderedRing α]
  {moved : List String} {es : List (Element α)} {e : Element α}

/-- Valid arrows take the changes that let them follow. -/
theorem turns_followed (hids : (es.map Element.id).Nodup) (hvalid : ∀ e ∈ es, e.Valid) :
    ∀ e ∈ es, Turns (Batch.changesOf (rebindings moved es)) (followed moved es) e :=
  turns_boundAnew hids hvalid

theorem Valid.followed (h : e.Valid) (moved : List String) (es : List (Element α)) :
    (e.followed moved es).Valid := h.boundAnew moved es true

end Exact

end Element

namespace Board

open Element

/-- Of elements with another id than the last one, the id chooses the last. -/
theorem chosen_last {g : Element α} {rest : List (Element α)} (h : g.id ∉ rest.map Element.id) :
    among [g.id] (rest ++ [g]) = [g] ∧ without [g.id] (rest ++ [g]) = rest := by
  have hother : ∀ e ∈ rest, e.id ≠ g.id := fun e he hid => h (hid ▸ List.mem_map_of_mem he)
  constructor
  · simpa [among, List.filter_eq_nil_iff] using hother
  · simpa [without, List.filter_eq_self] using hother

variable [Field α] [LinearOrder α] [FloorRing α] [Trigonometry α] [IsStrictOrderedRing α]
  {b c : Board α} {g : Element α} {ids : List String} {rest : List (Element α)}

/-- Arrows follow what moved, at the end of an edit. -/
theorem refreshed_eq {β : Type} (hids : (b.elements.map Element.id).Nodup)
    (hvalid : ∀ e ∈ b.elements, e.Valid) (moved : List String) (v : β) :
    ∃ c, (b.refreshBindings moved).andThen (fun _ d => (.ok v, d.changed)) = (.ok v, c) ∧
      c.elements = b.elements.map (followed moved b.elements) := by
  refine ⟨(b.withElements (b.elements.map (followed moved b.elements))).changed, ?_,
    elements_changed _⟩
  rw [refreshBindings, applyBatch, applyEach_eq_map (turns_followed hids hvalid)]
  rfl

/-- Valid elements are grouped, and the others keep their order. -/
theorem group_eq (hvalid : ∀ e ∈ b.elements, e.Valid) (hids : (b.elements.map Element.id).Nodup)
    (hfresh : b.ids.elementId ∉ b.elements.map Element.id)
    (hmany : 2 ≤ (among ids b.elements).length) :
    ∃ g c rest, groupOf b.ids.elementId (among ids b.elements) = .ok g ∧
      b.group ids = (.ok (some g), c) ∧ c.elements = rest ++ [g] ∧ (∀ e ∈ rest, e.Valid) ∧
      rest.map Element.id = (without ids b.elements).map Element.id := by
  have hmembers : ∀ e ∈ among ids b.elements, e.Valid := fun e he =>
    hvalid e (List.mem_of_mem_filter he)
  have hothers : (without ids b.elements).Sublist b.elements := List.filter_sublist
  obtain ⟨g, hmade⟩ : ∃ g, groupOf b.ids.elementId (among ids b.elements) = .ok g :=
    ⟨_, groupOf_eq hmembers _⟩
  obtain ⟨hid, -, hstill⟩ := of_groupOf hmade
  have hnodup : ((without ids b.elements ++ [g]).map Element.id).Nodup := by
    rw [List.map_append, List.map_singleton, hid]
    refine (hids.sublist (hothers.map _)).append (List.nodup_singleton _) ?_
    exact List.disjoint_singleton.mpr fun h => hfresh ((hothers.map _).subset h)
  have hvalid' : ∀ e ∈ without ids b.elements ++ [g], e.Valid :=
    List.forall_mem_append.mpr ⟨fun e he => hvalid e (hothers.subset he),
      List.forall_mem_singleton.mpr (valid_of_groupOf hmade hmembers)⟩
  obtain ⟨c, hc, hes⟩ := refreshed_eq (b := (({ b with ids := b.ids.next } : Board α).withElements
    (without ids b.elements ++ [g])).withSelected [g.id]) hnodup hvalid' (ids ++ [g.id]) (some g)
  refine ⟨g, c, (without ids b.elements).map (followed _ _), hmade, ?_,
    hes.trans (List.map_append.trans (congrArg _ ?_)), ?_, map_id_followed _⟩
  · rw [group, if_neg (Nat.not_lt.mpr hmany), hmade]
    exact hc
  · rw [List.map_singleton, followed_of_not_arrow hstill]
  · exact List.forall_mem_map.mpr fun e he => (hvalid e (hothers.subset he)).followed _ _

/-- A group whose children are valid is dissolved. -/
theorem ungroup_eq (hes : c.elements = rest ++ [g])
    (hg : g.isGroup = true) (hfresh : g.id ∉ rest.map Element.id)
    (hids : ((rest ++ g.released).map Element.id).Nodup)
    (hvalid : ∀ e ∈ rest ++ g.released, e.Valid) :
    ∃ d, c.ungroup [g.id] = (.ok g.released, d) ∧ d.elements = (rest ++ g.released).map
      (followed (g.id :: g.released.map Element.id) (rest ++ g.released)) := by
  obtain ⟨hamong, hwithout⟩ := chosen_last hfresh
  rw [← hes] at hamong hwithout
  have hchosen : (among [g.id] c.elements).filter Element.isGroup = [g] :=
    hamong ▸ List.filter_cons_of_pos hg
  have hrest : without ([g].map Element.id) c.elements = rest := hwithout
  obtain ⟨d, hd, hes'⟩ := refreshed_eq (b := (c.withElements
    (rest ++ g.released)).withSelected (g.released.map Element.id)) hids hvalid
    (g.id :: g.released.map Element.id) g.released
  refine ⟨d, ?_, hes'⟩
  unfold ungroup
  simp only [hchosen, hrest, List.flatMap_singleton]
  exact hd

/-- Ungrouping undoes grouping: the members come back in their order and as they were, but for
their place in the stack. Only arrows that are bound are fitted to their ends. -/
theorem ungroup_group (hcos : Scalar.cosDeg (0 : α) = 1) (hsin : Scalar.sinDeg (0 : α) = 0)
    (hvalid : ∀ e ∈ b.elements, e.Valid) (hids : (b.elements.map Element.id).Nodup)
    (hfresh : b.ids.elementId ∉ b.elements.map Element.id)
    (hmany : 2 ≤ (among ids b.elements).length) (hroomy : Roomy (among ids b.elements)) :
    let members := among ids b.elements
    let freed := members.map (withZIndex · (topIndex members))
    ∃ g b₁ rest b₂ rest', b.group ids = (.ok (some g), b₁) ∧ b₁.elements = rest ++ [g] ∧
      b₁.ungroup [g.id] = (.ok freed, b₂) ∧
      b₂.elements = rest' ++ freed.map (refitted (rest ++ freed)) ∧
      rest.map Element.id = (without ids b.elements).map Element.id ∧
      rest'.map Element.id = (without ids b.elements).map Element.id ∧
      g.id ∉ b₂.elements.map Element.id := by
  intro members freed
  obtain ⟨g, b₁, rest, hmade, hgroup, hes, hrest, hrestIds⟩ := group_eq hvalid hids hfresh hmany
  have hmembers : ∀ e ∈ members, e.Valid := fun e he => hvalid e (List.mem_of_mem_filter he)
  have hreleased : g.released = freed := released_grouped hcos hsin hmembers hroomy hmade
  obtain ⟨hid, hisGroup, -⟩ := of_groupOf hmade
  have hall : ((rest ++ freed).map Element.id).Perm (b.elements.map Element.id) := by
    have hfreedIds : freed.map Element.id = members.map Element.id := by
      rw [List.map_map]
      exact List.map_congr_left fun e _ => by cases e <;> rfl
    rw [List.map_append, hrestIds, hfreedIds, ← List.map_append]
    exact (List.perm_append_comm.trans (List.filter_append_perm _ _)).map _
  have hnew : g.id ∉ (rest ++ freed).map Element.id := by
    rwa [hall.mem_iff, hid]
  have hvalid' : ∀ e ∈ rest ++ freed, e.Valid := List.forall_mem_append.mpr
    ⟨hrest, List.forall_mem_map.mpr fun e he => (hmembers e he).withZIndex _⟩
  obtain ⟨b₂, hungroup, hes'⟩ := ungroup_eq hes hisGroup
    (fun h => hnew (List.map_append ▸ List.mem_append_left _ h))
    (hreleased ▸ hall.nodup_iff.mpr hids) (hreleased ▸ hvalid')
  rw [hreleased] at hungroup hes'
  have hgone : g.id ∉ b₂.elements.map Element.id := by
    rwa [hes', map_id_followed]
  rw [List.map_append, List.map_congr_left fun e he =>
    followed_eq_refitted (List.mem_cons_of_mem _ (List.mem_map_of_mem he))] at hes'
  exact ⟨g, b₁, rest, b₂, _, hgroup, hes, hungroup, hes', hrestIds,
    (map_id_followed rest).trans hrestIds, hgone⟩

/-- A rectangle and an arrow that is bound to another rectangle, which stays outside the group. -/
theorem ungroup_group_arrow :
    let q : Element ℝ := .newShape "q" .rectangle { x := 300, y := 200 }
    let r : Element ℝ :=
      .shape (Draft.frame { x := 0, y := 0 } "r" 150 150) .rectangle (.blank none)
    let a : Element ℝ := .shape (Draft.frame { x := 0, y := 200 } "a" 180 60) .arrow
      { Shape.blankArrow with
        start := some ⟨0, 0⟩
        finish := some ⟨180, 60⟩
        finishBinding := some ⟨"q", .left⟩ }
    let b : Board ℝ := .start .counting [q, r, a] .initial 50
    Roomy (among ["r", "a"] b.elements) ∧ ∃ g b₁ b₂, b.group ["r", "a"] = (.ok (some g), b₁) ∧
      b₁.ungroup [g.id] = (.ok [r, a], b₂) ∧ g.id ∉ b₂.elements.map Element.id := by
  intro q r a b
  have hes : b.elements = [q, r, a] :=
    congrArg Document.elements (Document.settled_eq_self (fun _ => rfl) _)
  have hmembers : among ["r", "a"] b.elements = [r, a] := by
    rw [hes]
    rfl
  have hids : (b.elements.map Element.id).Nodup := by decide
  have hfresh : b.ids.elementId ∉ b.elements.map Element.id := by decide
  have hvalid : ∀ e ∈ b.elements, e.Valid := by
    have hframe (x y : ℝ) (id : String) {width height : ℝ} (hw : 0 ≤ width) (hh : 0 ≤ height) :
        (Draft.frame { x, y } id width height).Valid := by
      refine Draft.valid_frame _ id ?_ ?_ <;> rwa [Scalar.instOfNat_eq, Nat.cast_zero]
    rw [hes]
    refine List.forall_mem_cons.mpr ⟨valid_newShape .., List.forall_mem_cons.mpr
      ⟨.shape (hframe _ _ _ ?_ ?_) (Shape.valid_of_curve_eq_none rfl),
        List.forall_mem_singleton.mpr
          (.shape (hframe _ _ _ ?_ ?_) (Shape.valid_of_curve_eq_zero rfl))⟩⟩ <;>
    · norm_num
  have hroomy : Roomy (among ["r", "a"] b.elements) := by
    have hbox : uprightBox [r, a] = ⟨0, 0, 180, 260⟩ := by
      have hx : Scalar.least (0 : ℝ) [0] = 0 := by
        norm_num [Scalar.least, Scalar.lesser_eq_min]
      have hy : Scalar.least (0 : ℝ) [200] = 0 := by
        norm_num [Scalar.least, Scalar.lesser_eq_min]
      have hright : Scalar.greatest (0 + 150 : ℝ) [0 + 180] - 0 = 180 := by
        norm_num [Scalar.greatest, Scalar.greater_eq_max]
      have hbottom : Scalar.greatest (0 + 150 : ℝ) [200 + 60] - 0 = 260 := by
        norm_num [Scalar.greatest, Scalar.greater_eq_max]
      refine (uprightBox_cons r [a]).trans ?_
      change Box.mk (Scalar.least 0 [0]) (Scalar.least 0 [200])
        (Scalar.greatest (0 + 150) [0 + 180] - Scalar.least 0 [0])
        (Scalar.greatest (0 + 150) [200 + 60] - Scalar.least 0 [200]) = _
      rw [hx, hy, hright, hbottom]
    rw [hmembers]
    constructor
    · rw [hbox]
      right
      norm_num
    · rw [hbox]
      right
      norm_num
    · rw [hbox]
      intro _ _ _ _ _ _
      exact ⟨fun h => absurd h (by norm_num), fun h => absurd h (by norm_num)⟩
  have hcos : Scalar.cosDeg (0 : ℝ) = 1 := by
    have h : Real.cos (0 * Real.pi / 180) = 1 := by simp
    exact h
  have hsin : Scalar.sinDeg (0 : ℝ) = 0 := by
    have h : Real.sin (0 * Real.pi / 180) = 0 := by simp
    exact h
  obtain ⟨g, b₁, _, b₂, _, hgroup, -, hungroup, -, -, -, hgone⟩ :=
    ungroup_group hcos hsin hvalid hids hfresh (hmembers ▸ le_rfl) hroomy
  rw [hmembers] at hungroup
  exact ⟨hroomy, g, b₁, b₂, hgroup, hungroup, hgone⟩

/-- Members that do not come back: an arrow that is bound is fitted to its ends, what spans less
than a unit shrinks, and in a flat group arrows lose what their ends lie off its corner. -/
theorem not_ungroup_group :
    letI : Trigonometry ℚ := ⟨fun _ => 1, fun _ => 0, fun _ _ => 0⟩
    let rectangle (id : String) (x y width height : ℚ) : Element ℚ :=
      .shape (Draft.frame { x, y } id width height) .rectangle (.blank none)
    let arrow (x y width height : ℚ) (finish : Point ℚ) (bound : Option Binding) : Element ℚ :=
      .shape (Draft.frame { x, y } "a" width height) .arrow { Shape.blankArrow with
        start := some ⟨20, 30⟩, finish := some finish, finishBinding := bound }
    let reach (e : Element ℚ) : Option ℚ := (e.arrow?.bind Shape.finish).map Point.x
    let regrouped (ids : List String) (es : List (Element ℚ)) : List (Element ℚ) :=
      ((start .counting es .initial 50).group ids).2.ungroup ["el000000001000"] |>.2.elements
    let bound := [rectangle "t" 200 100 40 40, rectangle "r" 0 0 100 100,
      arrow 20 40 180 60 ⟨180, 80⟩ (some ⟨"t", .left⟩)]
    let thin := [rectangle "r" 0 0 0.5 40, rectangle "s" 0.25 50 0.25 40]
    let flat := [rectangle "r" 0 0 0 40, arrow 0 0 0 60 ⟨50, 60⟩ none]
    (Scalar.cosDeg (0 : ℚ) = 1 ∧ Scalar.sinDeg (0 : ℚ) = 0) ∧
      (∀ es ∈ [bound, thin, flat], (es.map Element.id).Nodup) ∧
      bound.map x = [200, 0, 20] ∧ (regrouped ["r", "a"] bound).map x = [200, 0, 40] ∧
      thin.map width = [0.5, 0.25] ∧ (regrouped ["r", "s"] thin).map width = [0.25, 0.125] ∧
      flat.map reach = [none, some 50] ∧
      (regrouped ["r", "a"] flat).map reach = [none, some 0] := by
  decide +kernel

end Board

end Whiteboard

import Mathlib
import Whiteboard.Proofs.Board.Content
import Whiteboard.Proofs.Document.Rebound
import Whiteboard.Proofs.Document.Regrouping

/-!
# Arrows that have to follow

The batch that binds arrows anew names just the arrows that have to follow what moved
(`Element.rebinds_iff`). Each of them takes its changes: bound ends come to lie on their anchors,
the others stay, and the box is fitted around both (`Element.refits_of_rebound?`). Where no arrow is
bound to an arrow, what was bound anew is bound (`Element.boundAnew_boundAnew`). All of this is
`Element.rebindings_refit`.
-/

namespace Whiteboard

variable {α : Type}

section Exact

variable [Field α] [LinearOrder α] [FloorRing α] [Trigonometry α] [IsStrictOrderedRing α]

theorem Scalar.abs_eq_abs (a : α) : Scalar.abs a = |a| := by
  rw [Scalar.abs, Scalar.instOfNat_eq, Nat.cast_zero]
  split
  · next h => exact (abs_of_neg h).symm
  · next h => exact (abs_of_nonneg (not_lt.mp h)).symm

namespace ArrowGeometry

omit [IsStrictOrderedRing α] in
theorem least_le_between (p q : Point α) (least : α) :
    least ≤ (between p q least).box.width ∧ least ≤ (between p q least).box.height := by
  rw [between, Scalar.greater_eq_max, Scalar.greater_eq_max]
  exact ⟨le_max_right _ _, le_max_right _ _⟩

/-- Of two coordinates both lie in a span that begins at the lesser one. -/
theorem inside_span (a b least : α) :
    (0 ≤ a - Scalar.lesser a b ∧
        a - Scalar.lesser a b ≤ Scalar.greater (Scalar.abs (b - a)) least) ∧
      0 ≤ b - Scalar.lesser a b ∧
        b - Scalar.lesser a b ≤ Scalar.greater (Scalar.abs (b - a)) least := by
  have hspan : (0 ≤ a - min a b ∧ a - min a b ≤ |b - a|) ∧
      0 ≤ b - min a b ∧ b - min a b ≤ |b - a| := by
    rcases le_total a b with h | h
    · rw [min_eq_left h, sub_self]
      exact ⟨⟨le_rfl, abs_nonneg _⟩, sub_nonneg.mpr h, le_abs_self _⟩
    · rw [min_eq_right h, sub_self, abs_sub_comm]
      exact ⟨⟨sub_nonneg.mpr h, le_abs_self _⟩, le_rfl, abs_nonneg _⟩
  rw [Scalar.lesser_eq_min, Scalar.greater_eq_max, Scalar.abs_eq_abs]
  obtain ⟨⟨ha, ha'⟩, hb, hb'⟩ := hspan
  exact ⟨⟨ha, le_max_of_le_left ha'⟩, hb, le_max_of_le_left hb'⟩

/-- Both ends lie in the box that is put around them. -/
theorem inside_between (p q : Point α) (least : α) :
    ((0 ≤ (between p q least).start.x ∧
          (between p q least).start.x ≤ (between p q least).box.width) ∧
        0 ≤ (between p q least).start.y ∧
          (between p q least).start.y ≤ (between p q least).box.height) ∧
      (0 ≤ (between p q least).finish.x ∧
          (between p q least).finish.x ≤ (between p q least).box.width) ∧
        0 ≤ (between p q least).finish.y ∧
          (between p q least).finish.y ≤ (between p q least).box.height := by
  obtain ⟨hx, hx'⟩ := inside_span p.x q.x least
  obtain ⟨hy, hy'⟩ := inside_span p.y q.y least
  exact ⟨⟨hx, hy⟩, hx', hy'⟩

end ArrowGeometry

end Exact

namespace Element

section Definitions

/-- An arrow with two ends that is bound to what moved, or that moved itself and is bound at all. -/
structure HasToFollow (moved : List String) (withMoved : Bool) (e : Element α) : Prop where
  ends : ∃ s ∈ e.arrow?, s.start.isSome = true ∧ s.finish.isSome = true
  bound : (∃ bd ∈ e.bindings, bd.element ∈ moved) ∨
    withMoved = true ∧ e.id ∈ moved ∧ e.bindings ≠ []

variable [Scalar α]

/-- Where an arrow that was bound anew has one of its ends: on its anchor if what it is bound to is
there, and else where it was; in the box of the arrow. -/
structure EndFits (es : List (Element α)) (e e' : Element α) (binding : Option Binding)
    (p p' : Point α) : Prop where
  bound : ∀ bd ∈ binding, ∀ t ∈ es, t.id = bd.element →
    e'.endPlace p' = bd.anchor.on t.frame.box
  free : (∀ bd ∈ binding, bd.element ∉ es.map id) → e'.endPlace p' = e.endPlace p
  inside : (0 ≤ p'.x ∧ p'.x ≤ e'.width) ∧ 0 ≤ p'.y ∧ p'.y ≤ e'.height

/-- What becomes of an arrow that is bound anew: another box around other ends, and nothing else. -/
structure Refits (es : List (Element α)) (e e' : Element α) : Prop where
  wide : 10 ≤ e'.width
  high : 10 ≤ e'.height
  ends : ∃ f s p q b p' q', e = shape f .arrow s ∧ s.start = some p ∧ s.finish = some q ∧
    e' = shape (f.withBox b) .arrow { s with start := some p', finish := some q' } ∧
    EndFits es e e' s.startBinding p p' ∧ EndFits es e e' s.finishBinding q q'

/-- What becomes of an element when arrows are bound anew. -/
def boundAnew (moved : List String) (es : List (Element α)) (withMoved : Bool) (e : Element α) :
    Element α :=
  (e.rebound? moved es withMoved).elim e fun g => e.laid g

end Definitions

/-! ## Which arrows -/

variable {moved : List String} {withMoved : Bool} {e : Element α}

theorem boundTo_eq_true_iff {b : Option Binding} :
    boundTo moved b = true ↔ ∃ bd ∈ b, bd.element ∈ moved := by
  cases b <;> simp [boundTo]

theorem rebinds_iff : e.rebinds moved withMoved = true ↔ e.HasToFollow moved withMoved := by
  -- both sides only hold of an arrow with two ends
  have hends (h : ∃ s ∈ e.arrow?, s.start.isSome = true ∧ s.finish.isSome = true) :
      e.rebinds moved withMoved = true ↔ (∃ bd ∈ e.bindings, bd.element ∈ moved) ∨
        withMoved = true ∧ e.id ∈ moved ∧ e.bindings ≠ [] := by
    obtain ⟨⟨_, _, _, _, _, _, _, start, finish, _, _, _, startBinding, finishBinding⟩, hs, hp, hq⟩
      := h
    obtain ⟨p, rfl⟩ := Option.isSome_iff_exists.mp hp
    obtain ⟨q, rfl⟩ := Option.isSome_iff_exists.mp hq
    have hs : e.arrow? = some _ := hs
    simp only [rebinds, bindings, hs, Bool.or_eq_true, Bool.and_eq_true, List.contains_iff_mem,
      boundTo_eq_true_iff, List.mem_append, Option.mem_toList]
    cases startBinding <;> cases finishBinding <;> simp
  refine ⟨fun h => ?_, fun h => (hends h.ends).mpr h.bound⟩
  obtain ⟨f, s, p, q, rfl, hp, hq⟩ := exists_of_rebinds h
  have hboth : ∃ s' ∈ (shape f .arrow s).arrow?, s'.start.isSome = true ∧ s'.finish.isSome = true :=
    ⟨s, rfl, hp ▸ rfl, hq ▸ rfl⟩
  exact ⟨hboth, (hends hboth).mp h⟩

variable [Scalar α] {es : List (Element α)}

/-- The batch names just the arrows that have to follow. -/
theorem has_rebindings_iff (hids : (es.map id).Nodup) {id : String} :
    Entries.has id (rebindings moved es withMoved) = true ↔
      ∃ e ∈ es, e.id = id ∧ e.HasToFollow moved withMoved := by
  have hhas {e : Element α} (he : e ∈ es) : Entries.has e.id (rebindings moved es withMoved) = true
      ↔ e.HasToFollow moved withMoved := by
    rw [Entries.has, get?_rebindings hids he, Option.isSome_map, isSome_rebound?, rebinds_iff]
  constructor
  · intro h
    obtain ⟨m, hm, rfl⟩ := List.mem_map.mp (Entries.has_eq_true_iff.mp h)
    obtain ⟨e, he, hid⟩ := List.mem_map.mp (mem_ids_of_mem_rebindings hm)
    exact ⟨e, he, hid, (hhas he).mp (hid ▸ h)⟩
  · rintro ⟨e, he, rfl, hfollow⟩
    exact (hhas he).mpr hfollow

theorem placeOf?_of_stale {binding : Option Binding}
    (h : ∀ bd ∈ binding, bd.element ∉ es.map id) : Binding.placeOf? binding es = none := by
  cases binding with
  | none => rfl
  | some bd =>
    have hfind : es.find? (fun e => e.id == bd.element) = none := List.find?_eq_none.mpr
      fun e he hid => h bd rfl (List.mem_map.mpr ⟨e, he, beq_iff_eq.mp hid⟩)
    rw [Binding.placeOf?, Option.bind_some, Binding.place?, hfind, Option.map_none]

theorem id_boundAnew (e : Element α) : (e.boundAnew moved es withMoved).id = e.id := by
  unfold boundAnew
  cases e.rebound? moved es withMoved with
  | none => rfl
  | some g => cases e <;> rfl

theorem map_id_boundAnew (es' : List (Element α)) :
    (es'.map (boundAnew moved es withMoved)).map id = es'.map id :=
  List.map_map.trans (List.map_congr_left fun e _ => id_boundAnew e)

theorem rotation_boundAnew (e : Element α) :
    (e.boundAnew moved es withMoved).rotation = e.rotation := by
  unfold boundAnew
  cases e.rebound? moved es withMoved with
  | none => rfl
  | some g => cases e <;> rfl

/-- What has nothing to follow stays. -/
theorem boundAnew_of_not_rebinds (h : e.rebinds moved withMoved = false) :
    e.boundAnew moved es withMoved = e := by
  rw [boundAnew, rebound?_eq, h]
  rfl

/-- Only arrows are bound anew. -/
theorem boundAnew_of_not_arrow (he : e.isArrow = false) : e.boundAnew moved es withMoved = e :=
  boundAnew_of_not_rebinds (Bool.eq_false_iff.mpr fun hr =>
    absurd (he.symm.trans (isArrow_of_rebinds hr)) Bool.false_ne_true)

/-- What is neither bound to what moved nor moved itself while it is bound stays. -/
theorem boundAnew_of_apart (hbound : ∀ bd ∈ e.bindings, bd.element ∉ moved)
    (hself : e.id ∈ moved → e.bindings = []) : e.boundAnew moved es withMoved = e := by
  refine boundAnew_of_not_rebinds (Bool.eq_false_iff.mpr fun hr => ?_)
  rcases (rebinds_iff.mp hr).bound with ⟨bd, hbd, hmem⟩ | ⟨-, hmem, hne⟩
  · exact hbound bd hbd hmem
  · exact hne (hself hmem)

/-- Arrows that lie elsewhere but are bound to the same places are bound anew by the same batch. -/
theorem rebindings_map {turn : Element α → Element α} (hid : ∀ e ∈ es, (turn e).id = e.id)
    (h : ∀ e ∈ es, (turn e).rebound? moved (es.map turn) withMoved
      = e.rebound? moved es withMoved) :
    rebindings moved (es.map turn) withMoved = rebindings moved es withMoved := by
  unfold rebindings
  rw [List.foldl_map]
  exact List.foldl_ext _ _ _ fun batch e he => by rw [h e he, hid e he]

/-! ## Exact numbers -/

section Exact

variable {α : Type} [Field α] [LinearOrder α] [FloorRing α] [Trigonometry α]
  [IsStrictOrderedRing α] {es : List (Element α)} {e : Element α} {g : ArrowGeometry α}

/-- What becomes of an arrow that is bound anew. -/
theorem refits_of_rebound? (hids : (es.map id).Nodup)
    (hg : e.rebound? moved es withMoved = some g) : Refits es e (e.laid g) := by
  have hr : e.rebinds moved withMoved = true := by
    rw [← isSome_rebound? e es, hg]
    rfl
  obtain ⟨f, s, p, q, rfl, hp, hq⟩ := exists_of_rebinds hr
  rw [rebound?_eq, if_pos hr, endsAmong_eq hp hq, Option.map_some, Option.some.injEq] at hg
  have hplaces : ((shape f .arrow s).laid g).endPlace g.start
        = (Binding.placeOf? s.startBinding es).getD ((shape f .arrow s).endPlace p) ∧
      ((shape f .arrow s).laid g).endPlace g.finish
        = (Binding.placeOf? s.finishBinding es).getD ((shape f .arrow s).endPlace q) := by
    subst hg
    exact endPlace_between rfl
  have hfits {binding : Option Binding} {p p' : Point α}
      (hplace : ((shape f .arrow s).laid g).endPlace p'
        = (Binding.placeOf? binding es).getD ((shape f .arrow s).endPlace p))
      (hinside : (0 ≤ p'.x ∧ p'.x ≤ g.box.width) ∧ 0 ≤ p'.y ∧ p'.y ≤ g.box.height) :
      EndFits es (shape f .arrow s) ((shape f .arrow s).laid g) binding p p' := by
    refine ⟨fun bd hbd t ht hid => ?_, fun hstale => ?_, ?_⟩
    · rw [hplace, placeOf?_getD hids hbd ht hid]
    · rw [hplace, placeOf?_of_stale hstale, Option.getD_none]
    · rw [Scalar.instOfNat_eq, Nat.cast_zero]
      exact hinside
  obtain ⟨hwide, hhigh⟩ : ArrowGeometry.leastSide ≤ g.box.width ∧
      ArrowGeometry.leastSide ≤ g.box.height := hg ▸ ArrowGeometry.least_le_between ..
  obtain ⟨hstart, hfinish⟩ := hg ▸ ArrowGeometry.inside_between ..
  exact ⟨hwide, hhigh, f, s, p, q, g.box, g.start, g.finish, rfl, hp, hq, rfl,
    hfits hplaces.1 hstart, hfits hplaces.2 hfinish⟩

/-- Valid arrows take the changes that bind them anew. -/
theorem turns_boundAnew (hids : (es.map id).Nodup) (hvalid : ∀ e ∈ es, e.Valid) :
    ∀ e ∈ es, Turns (Batch.changesOf (rebindings moved es withMoved))
      (boundAnew moved es withMoved) e := by
  intro e he
  unfold Turns boundAnew
  rw [Batch.changesOf, get?_rebindings hids he]
  cases hg : e.rebound? moved es withMoved with
  | none => rfl
  | some g =>
    obtain ⟨hw, hh⟩ := sides_of_rebound? hg fun _ _ => rfl
    obtain ⟨f, s, _, _, rfl, -⟩ := of_rebound?_eq_some hg
    exact apply_geometryChanges (hvalid _ he) hw hh

theorem Valid.boundAnew (h : e.Valid) (moved : List String) (es : List (Element α))
    (withMoved : Bool) : (e.boundAnew moved es withMoved).Valid := by
  unfold Element.boundAnew
  cases hg : e.rebound? moved es withMoved with
  | none => exact h
  | some g =>
    obtain ⟨hw, hh⟩ := sides_of_rebound? hg fun _ _ => rfl
    exact h.laid hw hh

omit [IsStrictOrderedRing α] in
/-- An arrow that was bound anew is bound. -/
theorem rebound?_boundAnew (hspare : SparesArrows es) (he : e ∈ es) :
    (e.boundAnew moved es withMoved).rebound? moved (es.map (boundAnew moved es withMoved))
      withMoved = e.rebound? moved es withMoved := by
  have hplace : ∀ bd ∈ e.bindings,
      bd.place? (es.map (boundAnew moved es withMoved)) = bd.place? es := by
    intro bd hbd
    have hstay : ∀ t ∈ es, t.id = bd.element →
        (t.boundAnew moved es withMoved).frame.box = t.frame.box := fun t ht hid => by
      rw [boundAnew_of_not_arrow (hspare e he bd hbd t ht hid)]
    have h := Binding.place?_map_congr (fun t _ => id_boundAnew t) (fun t _ => rfl) hstay
    rwa [List.map_id'] at h
  cases hg : e.rebound? moved es withMoved with
  | none =>
    have hr : e.rebinds moved withMoved = false := by
      rw [← isSome_rebound? e es, hg]
      rfl
    rw [boundAnew_of_not_rebinds hr, rebound?_eq, hr]
    rfl
  | some g =>
    rw [boundAnew, hg, Option.elim_some, ← hg]
    exact rebound?_laid hg fun bd hbd => ⟨hplace bd hbd, fun hnone => hnone⟩

omit [IsStrictOrderedRing α] in
/-- What was bound anew stays when it is bound anew again. -/
theorem boundAnew_boundAnew (hspare : SparesArrows es) (he : e ∈ es) :
    (e.boundAnew moved es withMoved).boundAnew moved (es.map (boundAnew moved es withMoved))
      withMoved = e.boundAnew moved es withMoved := by
  rw [boundAnew, rebound?_boundAnew hspare he, boundAnew]
  cases e.rebound? moved es withMoved with
  | none => rfl
  | some g => exact laid_laid g g e

/-- With exact numbers, the batch for arrows that follow what moved names just those that have to.
Each of them takes its changes and is fitted around its ends, and nothing else of it changes. Where
no arrow is bound to an arrow, the same batch is found afterwards, and it changes nothing more. -/
theorem rebindings_refit (hids : (es.map id).Nodup) (hvalid : ∀ e ∈ es, e.Valid)
    (moved : List String) (withMoved : Bool) :
    (Entries.keys (rebindings moved es withMoved)).Nodup ∧
      (∀ id, Entries.has id (rebindings moved es withMoved) = true ↔
        ∃ e ∈ es, e.id = id ∧ e.HasToFollow moved withMoved) ∧
      (∀ e ∈ es, ∀ changes ∈ Batch.changesOf (rebindings moved es withMoved) e,
        ∃ e', (∀ supply, e.apply supply changes = (.ok e', supply)) ∧ Refits es e e') ∧
      (SparesArrows es → ∃ es',
        (∀ supply, applyEach (Batch.changesOf (rebindings moved es withMoved)) supply es
          = (none, es', supply)) ∧
        rebindings moved es' withMoved = rebindings moved es withMoved ∧
        ∀ supply, applyEach (Batch.changesOf (rebindings moved es' withMoved)) supply es'
          = (none, es', supply)) := by
  refine ⟨nodup_keys_rebindings, fun _ => has_rebindings_iff hids, fun e he changes hchanges => ?_,
    fun hspare => ?_⟩
  · have hturn : Turns (Batch.changesOf (rebindings moved es withMoved))
        (boundAnew moved es withMoved) e := turns_boundAnew hids hvalid e he
    have hchanges : Batch.changesOf (rebindings moved es withMoved) e = some changes := hchanges
    rw [Turns, hchanges] at hturn
    rw [Batch.changesOf, get?_rebindings hids he, Option.map_eq_some_iff] at hchanges
    obtain ⟨g, hg, -⟩ := hchanges
    rw [boundAnew, hg] at hturn
    exact ⟨_, hturn, refits_of_rebound? hids hg⟩
  · have hids' : ((es.map (boundAnew moved es withMoved)).map id).Nodup :=
      (map_id_boundAnew es).symm ▸ hids
    have hvalid' : ∀ e ∈ es.map (boundAnew moved es withMoved), e.Valid :=
      List.forall_mem_map.mpr fun e he => (hvalid e he).boundAnew moved es withMoved
    refine ⟨es.map (boundAnew moved es withMoved),
      applyEach_eq_map (turns_boundAnew hids hvalid),
      rebindings_map (fun e _ => id_boundAnew e) fun e he => rebound?_boundAnew hspare he,
      fun supply => ?_⟩
    rw [applyEach_eq_map (turns_boundAnew hids' hvalid'), List.map_map]
    exact congrArg (none, ·, supply) (List.map_congr_left fun e he => boundAnew_boundAnew hspare he)

end Exact

/-- A rectangle that moved, an arrow that ends at it, and one that ends where nothing is. -/
theorem rebindings_refit_arrows :
    let r : Element ℝ := .newShape "r" .rectangle { x := 300, y := 200 }
    let arrow (id : String) (bound : Option Binding) : Element ℝ :=
      .shape (Draft.frame { x := 0, y := 200 } id 180 60) .arrow { Shape.blankArrow with
        start := some ⟨0, 0⟩, finish := some ⟨180, 60⟩, finishBinding := bound }
    let es := [r, arrow "a" (some ⟨"r", .left⟩), arrow "b" (some ⟨"gone", .left⟩)]
    Entries.has "a" (rebindings ["r"] es) = true ∧ Entries.has "b" (rebindings ["r"] es) = false ∧
      ∃ es', applyEach (Batch.changesOf (rebindings ["r"] es)) .counting es
          = (none, es', .counting) ∧ rebindings ["r"] es' = rebindings ["r"] es := by
  intro r arrow es
  have harrow (id : String) (bound : Option Binding) : (arrow id bound).Valid := by
    refine .shape (Draft.valid_frame _ id ?_ ?_) (Shape.valid_of_curve_eq_zero rfl) <;>
    · rw [Scalar.instOfNat_eq, Nat.cast_zero]
      norm_num
  have hvalid : ∀ e ∈ es, e.Valid := List.forall_mem_cons.mpr ⟨valid_newShape ..,
    List.forall_mem_cons.mpr ⟨harrow .., List.forall_mem_singleton.mpr (harrow ..)⟩⟩
  have hends : ∀ a ∈ es, ∀ bd ∈ a.bindings, bd.element ≠ "a" ∧ bd.element ≠ "b" := by decide
  have hspare : SparesArrows es := by
    intro a ha bd hbd t ht hid
    obtain ⟨hne, hne'⟩ := hends a ha bd hbd
    simp only [es, List.mem_cons, List.not_mem_nil, or_false] at ht
    rcases ht with rfl | rfl | rfl
    · rfl
    · exact absurd hid.symm hne
    · exact absurd hid.symm hne'
  have hids : (es.map id).Nodup := by decide
  obtain ⟨-, hhas, -, hagain⟩ := rebindings_refit hids hvalid ["r"] true
  obtain ⟨es', happly, hsame, -⟩ := hagain hspare
  refine ⟨(hhas "a").mpr ⟨arrow "a" (some ⟨"r", .left⟩), ?_, rfl, ?_⟩, by decide, es',
    happly _, hsame⟩
  · exact List.mem_cons_of_mem _ List.mem_cons_self
  · exact ⟨⟨_, rfl, rfl, rfl⟩, .inl ⟨⟨"r", .left⟩, List.mem_cons_self, List.mem_cons_self⟩⟩

end Element

end Whiteboard

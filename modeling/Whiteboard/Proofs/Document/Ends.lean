import Mathlib
import Whiteboard.Proofs.Document.Laid

/-!
# Ends that follow a box

When changes give an arrow another size and do not speak of its ends, the ends are scaled by what
the changes tell of the size, before they are read (`Element.scaledEnds_of_apply`). A size that is
told by a text is read as a number all the same, but scales nothing. Without such sizes the ends of
an arrow follow its box, however often it is changed (`Element.ends_follow_box`).
-/

namespace Whiteboard

open Schema

variable {α : Type}

/-- The ends of one arrow are those of another one, scaled. -/
structure Shape.ScaledEnds [Scalar α] (sx sy : α) (s s' : Shape α) : Prop where
  start : s'.start = s.start.map (Element.scaledEnd sx sy)
  finish : s'.finish = s.finish.map (Element.scaledEnd sx sy)

theorem Schema.number_of_atLeast [Scalar α] {low y : α} {v : Json α} (h : atLeast low v = .ok y) :
    number v = .ok y := by
  obtain ⟨x, hx, hlow⟩ := Checked.andThen_eq_ok_iff.mp h
  rw [hx, (notBelow_eq_ok_iff.mp hlow).2]

namespace Changes

section Completion

variable [Scalar α] {key : String} {changes changes' : Changes α}

/-- Whether a value is told by a text. -/
def tellsText (key : String) (changes : Changes α) : Bool :=
  match Entries.get? key changes with
  | some (.str _) => true
  | _ => false

/-- How many times as long the ends of an arrow become along a side that had one size and has
another one now. -/
def factor (key : String) (old new : α) (changes : Changes α) : α :=
  if changes.tellsText key then 1 else new / old

/-- Changes that leave it to an element where its ends come to lie. -/
structure SparesEnds (changes : Changes α) (e : Element α) : Prop where
  nodup : changes.keys.Nodup
  start : Entries.get? "arrow_start" changes = none
  finish : Entries.get? "arrow_end" changes = none
  keepsKind : changes.KeepsKind e

/-- An end that is put in comes to lie where the old one is scaled to. -/
theorem get?_putEnd_self {p : Option (Point α)} {sx sy : α} (h : Entries.get? key changes = none) :
    (Entries.get? key (putEnd key p sx sy changes)).or (some (.ofOption Point.toJson p))
      = some (.ofOption Point.toJson (p.map (Element.scaledEnd sx sy))) := by
  cases p with
  | none => exact congrArg (Option.or · _) h
  | some p =>
    have habsent : ¬ Entries.has key changes = true := by simp [Entries.has, h]
    rw [putEnd, if_neg habsent, Entries.get?_set, if_pos rfl]
    rfl

theorem nodup_keys_putEnd (h : changes.keys.Nodup) (key : String) (p : Option (Point α))
    (sx sy : α) : (putEnd key p sx sy changes).keys.Nodup := by
  unfold putEnd
  split
  · split
    · exact h
    · exact Entries.nodup_keys_set h _ _
  · exact h

theorem nodup_keys_completed {f : Frame α} {s : Shape α} (h : changes.keys.Nodup)
    (hcompleted : completed (.shape f .arrow s) changes = .ok changes') :
    changes'.keys.Nodup := by
  obtain ⟨sx, sy, rfl⟩ := exists_of_putEnds hcompleted
  exact nodup_keys_putEnd (nodup_keys_putEnd h ..) ..

theorem factor_erase (hkey : "id" ≠ key) (old new : α) (changes : Changes α) :
    factor key old new (Entries.erase "id" changes) = factor key old new changes := by
  rw [factor, factor, tellsText, tellsText, Entries.get?_erase, if_neg hkey]

end Completion

variable [Field α] [LinearOrder α] [FloorRing α] [Trigonometry α] {key : String}
  {changes : Changes α} {old new : α}

theorem factor_of_number (h : changes.tellsText key = false) :
    factor key old new changes = new / old := by
  rw [factor, h, if_neg Bool.false_ne_true]

/-- A size that is not told by a text scales by what it is read as. -/
theorem growth_of_read {ms : Entries (Json α)} {default low : α} (hold : old ≠ 0)
    (hms : Entries.get? key ms = (Entries.get? key changes).or (some (.num old)))
    (h : withDefault key default (atLeast low) ms = .ok new) :
    growth key old changes = .ok (factor key old new changes) := by
  have hzero : ¬ Scalar.isZero old = true := fun hzero => hold (Element.isZero_iff.mp hzero)
  rw [growth, if_neg hzero, factor, tellsText]
  cases hv : Entries.get? key changes with
  | none =>
    rw [hv, Option.none_or] at hms
    rw [withDefault_of_get? hms, Checked.under_eq_ok_iff] at h
    obtain rfl := eq_of_atLeast h
    have hone : old / old = ((1 : ℕ) : α) := by rw [div_self hold, Nat.cast_one]
    exact congrArg Except.ok ((Scalar.instOfNat_eq 1).trans hone.symm)
  | some v =>
    rw [hv, Option.some_or] at hms
    rw [withDefault_of_get? hms, Checked.under_eq_ok_iff] at h
    have hread := number_of_atLeast h
    cases v with
    | str text => rfl
    | num x =>
      cases hread
      rfl
    | bool b =>
      cases hread
      rfl
    | int i =>
      cases hread
      rfl
    | null | arr | obj => contradiction

end Changes

section Scaling

variable [Field α] [LinearOrder α] [FloorRing α] [Trigonometry α]

namespace Shape.ScaledEnds

variable {s s' s'' : Shape α} {sx sy tx ty : α}

theorem map_one (o : Option (Point α)) : o.map (Element.scaledEnd 1 1) = o := by
  have hone : Element.scaledEnd (1 : α) 1 = id :=
    funext fun p => congrArg₂ Point.mk (mul_one p.x) (mul_one p.y)
  rw [hone, Option.map_id, id]

theorem map_map (o : Option (Point α)) (sx sy tx ty : α) :
    (o.map (Element.scaledEnd sx sy)).map (Element.scaledEnd tx ty)
      = o.map (Element.scaledEnd (sx * tx) (sy * ty)) := by
  have hmul : Element.scaledEnd tx ty ∘ Element.scaledEnd sx sy
      = Element.scaledEnd (sx * tx) (sy * ty) :=
    funext fun p => congrArg₂ Point.mk (mul_assoc p.x sx tx) (mul_assoc p.y sy ty)
  rw [Option.map_map, hmul]

theorem refl (s : Shape α) : s.ScaledEnds 1 1 s := ⟨(map_one _).symm, (map_one _).symm⟩

theorem trans (h : s.ScaledEnds sx sy s') (h' : s'.ScaledEnds tx ty s'') :
    s.ScaledEnds (sx * tx) (sy * ty) s'' where
  start := by rw [h'.start, h.start, map_map]
  finish := by rw [h'.finish, h.finish, map_map]

theorem eq_of_one (h : s.ScaledEnds 1 1 s') : s'.start = s.start ∧ s'.finish = s.finish :=
  ⟨h.start.trans (map_one _), h.finish.trans (map_one _)⟩

end Shape.ScaledEnds

end Scaling

namespace Element

section Completion

variable [Scalar α] {f : Frame α} {s s' : Shape α} {changes changes' : Changes α}
  {ms : Entries (Json α)}

/-- Ends that are put in are read as the ends. -/
theorem scaledEnds_of_putEnds {sx sy : α} (hnodup : changes.keys.Nodup)
    (hstart : Entries.get? "arrow_start" changes = none)
    (hfinish : Entries.get? "arrow_end" changes = none)
    (hms : ∀ key, "children" ≠ key → Entries.get? key ms
      = Entries.get? key (Entries.merge (shape f .arrow s).toMembers
          (Changes.putEnd "arrow_end" s.finish sx sy
            (Changes.putEnd "arrow_start" s.start sx sy changes))))
    (hs : Shape.ofMembers ms = .ok s') : s.ScaledEnds sx sy s' := by
  have hnodup' := Changes.nodup_keys_putEnd (Changes.nodup_keys_putEnd hnodup "arrow_start" s.start
    sx sy) "arrow_end" s.finish sx sy
  have hends : s'.start = s.start.map (scaledEnd sx sy) ∧
      s'.finish = s.finish.map (scaledEnd sx sy) := by
    refine Shape.ends_of_ofMembers ?_ ?_ hs
    · rw [hms _ (by decide), Entries.get?_merge_of_nodup hnodup',
        Changes.get?_putEnd (by decide)]
      exact Changes.get?_putEnd_self hstart
    · rw [hms _ (by decide), Entries.get?_merge_of_nodup hnodup']
      refine Changes.get?_putEnd_self ?_
      rw [Changes.get?_putEnd (by decide), hfinish]
  exact ⟨hends.1, hends.2⟩

omit [Scalar α] in
theorem exists_of_sizes {o : Except EditError (Element α) × IdSupply} {w h : α}
    (hsizes : (o.1.map fun e => (e.width, e.height)) = .ok (w, h)) :
    ∃ e' ids', o = (.ok e', ids') ∧ e'.width = w ∧ e'.height = h := by
  obtain ⟨_ | e', ids'⟩ := o
  · contradiction
  · obtain ⟨hw, hh⟩ := Prod.mk.inj (Except.ok.inj hsizes)
    exact ⟨e', ids', rfl, hw, hh⟩

end Completion

variable [Field α] [LinearOrder α] [FloorRing α] [Trigonometry α] {ids ids' : IdSupply}
  {e e' : Element α} {f f' : Frame α} {s : Shape α} {changes changes' : Changes α}

/-- By how much the ends of an arrow are scaled is told by the frame that is read afterwards. -/
theorem eq_putEnds_of_read {ms : Entries (Json α)} (hnodup : changes.keys.Nodup)
    (hwidth : f.width ≠ 0) (hheight : f.height ≠ 0)
    (hcompleted : Changes.completed (shape f .arrow s) changes = .ok changes')
    (hms : ∀ key, "children" ≠ key →
      Entries.get? key ms = Entries.get? key (Entries.merge (shape f .arrow s).toMembers changes'))
    (hf : Frame.ofMembers ms = .ok f') :
    let sx := changes.factor "width" f.width f'.width
    let sy := changes.factor "height" f.height f'.height
    changes' = Changes.putEnd "arrow_end" s.finish sx sy
      (Changes.putEnd "arrow_start" s.start sx sy changes) := by
  intro sx sy
  have hside (key : String) (hchildren : "children" ≠ key)
      (hfields : key ∉ Changes.completedFields) : Entries.get? key ms
        = (Entries.get? key changes).or (Entries.get? key (shape f .arrow s).toMembers) := by
    rw [hms key hchildren,
      Entries.get?_merge_of_nodup (Changes.nodup_keys_completed hnodup hcompleted),
      Changes.get?_completed hfields hcompleted]
  -- The sides are read from members that no completion touches, whatever the scale is.
  obtain ⟨hw, hh⟩ := Frame.sides_of_ofMembers hf
  have hx : Changes.growth "width" f.width changes = .ok sx :=
    Changes.growth_of_read hwidth (hside "width" (by decide) (by decide)) hw
  have hy : Changes.growth "height" f.height changes = .ok sy :=
    Changes.growth_of_read hheight (hside "height" (by decide) (by decide)) hh
  exact (Except.ok.inj ((completed_arrow hx hy).symm.trans hcompleted)).symm

/-- What comes of changes that spare the ends of an arrow is an arrow whose ends are scaled. -/
theorem scaledEnds_of_apply (hwidth : f.width ≠ 0) (hheight : f.height ≠ 0)
    (hspares : changes.SparesEnds (shape f .arrow s))
    (h : (shape f .arrow s).apply ids changes = (.ok e', ids')) :
    ∃ f' s', e' = shape f' .arrow s' ∧
      s.ScaledEnds (changes.factor "width" f.width f'.width)
        (changes.factor "height" f.height f'.height) s' := by
  have hkind := kind_of_apply h hspares.keepsKind
  obtain ⟨changes', ms, hcompleted, hms, hread⟩ := ofJson_of_apply h
  obtain ⟨f', s', rfl, hf, hs⟩ := exists_shape_of_ofJson hread hkind
  have hnodup : (Entries.erase "id" changes).keys.Nodup :=
    hspares.nodup.sublist (List.filter_sublist.map Prod.fst)
  have hkept {key : String} (hkey : "id" ≠ key) :
      Entries.get? key (Entries.erase "id" changes) = Entries.get? key changes := by
    rw [Entries.get?_erase, if_neg hkey]
  obtain rfl := eq_putEnds_of_read hnodup hwidth hheight hcompleted hms hf
  have hends := scaledEnds_of_putEnds hnodup ((hkept (by decide)).trans hspares.start)
    ((hkept (by decide)).trans hspares.finish) hms hs
  rw [Changes.factor_erase (by decide), Changes.factor_erase (by decide)] at hends
  exact ⟨f', s', rfl, hends⟩

/-- One element comes of another by changes that spare its ends and tell no size by a text, and it
has an extent both ways. -/
inductive Resized (e e' : Element α) : Prop where
  | intro {ids ids' : IdSupply} {changes : Changes α} :
      e.apply ids changes = (.ok e', ids') → changes.SparesEnds e →
      changes.tellsText "width" = false → changes.tellsText "height" = false →
      e'.width ≠ 0 → e'.height ≠ 0 → Resized e e'

/-- The box changes that resizing asks for are of this sort. -/
theorem resized_fitted (he : e.Valid) (hn : nesting e ≤ maxNesting) {b : Box α} (hw : 0 < b.width)
    (hh : 0 < b.height) : Resized e (e.fitted b) := by
  have happly : e.apply .counting b.toChanges = (.ok (e.fitted b), .counting) := by
    refine apply_boxChanges he hn ?_ ?_ .counting
    · rw [Scalar.instOfNat_eq, Nat.cast_zero]
      exact hw.le
    · rw [Scalar.instOfNat_eq, Nat.cast_zero]
      exact hh.le
  have hspares : b.toChanges.SparesEnds e :=
    ⟨by simp [Box.toChanges, Entries.keys], rfl, rfl, by simp [Changes.KeepsKind, Box.toChanges]⟩
  have hframe : (e.fitted b).frame = e.frame.withBox b := frame_rescaled ..
  refine .intro happly hspares rfl rfl ?_ ?_
  · rw [width, hframe]
    exact hw.ne'
  · rw [height, hframe]
    exact hh.ne'

/-- The ends are scaled as the box is, step by step and thus in the end. -/
theorem scaledEnds_of_run (hwidth : f.width ≠ 0) (hheight : f.height ≠ 0)
    (h : Relation.ReflTransGen Resized (shape f .arrow s) e') :
    ∃ f' s', e' = shape f' .arrow s' ∧ f'.width ≠ 0 ∧ f'.height ≠ 0 ∧
      s.ScaledEnds (f'.width / f.width) (f'.height / f.height) s' := by
  induction h with
  | refl =>
    refine ⟨f, s, rfl, hwidth, hheight, ?_⟩
    rw [div_self hwidth, div_self hheight]
    exact .refl s
  | tail _ hstep ih =>
    obtain ⟨f₁, s₁, rfl, hwidth₁, hheight₁, hends₁⟩ := ih
    obtain ⟨happly, hspares, hw, hh, hwidth₂, hheight₂⟩ := hstep
    obtain ⟨f₂, s₂, rfl, hends₂⟩ := scaledEnds_of_apply hwidth₁ hheight₁ hspares happly
    refine ⟨f₂, s₂, rfl, hwidth₂, hheight₂, ?_⟩
    rw [Changes.factor_of_number hw, Changes.factor_of_number hh] at hends₂
    have hends := hends₁.trans hends₂
    rwa [div_mul_div_cancel₀' hwidth₁, div_mul_div_cancel₀' hheight₁] at hends

/-- Whatever changes tell that do not speak of the ends of an arrow, the ends are scaled by new
through old size, but not along a side whose size is told by a text. Sizes told otherwise make them
follow the box, and they are back in their places when the box has its size again. -/
theorem ends_follow_box (hwidth : f.width ≠ 0) (hheight : f.height ≠ 0) :
    (∀ ids ids' changes e', changes.SparesEnds (shape f .arrow s) →
        (shape f .arrow s).apply ids changes = (.ok e', ids') →
        ∃ f' s', e' = shape f' .arrow s' ∧
          s.ScaledEnds (changes.factor "width" f.width f'.width)
            (changes.factor "height" f.height f'.height) s') ∧
      ∀ e', Relation.ReflTransGen Resized (shape f .arrow s) e' →
        ∃ f' s', e' = shape f' .arrow s' ∧
          s.ScaledEnds (f'.width / f.width) (f'.height / f.height) s' ∧
          (f'.width = f.width → f'.height = f.height →
            s'.start = s.start ∧ s'.finish = s.finish) := by
  refine ⟨fun _ _ _ _ => scaledEnds_of_apply hwidth hheight, fun e' hrun => ?_⟩
  obtain ⟨f', s', rfl, -, -, hends⟩ := scaledEnds_of_run hwidth hheight hrun
  refine ⟨f', s', rfl, hends, fun hw hh => ?_⟩
  rw [hw, hh, div_self hwidth, div_self hheight] at hends
  exact hends.eq_of_one

/-- An arrow with sizes told by an integer and a truth value, and one that is put in a wider box and
back again. -/
theorem ends_follow_box_there_and_back :
    letI : Trigonometry ℚ := ⟨fun _ => 1, fun _ => 0, fun _ _ => 0⟩
    let f : Frame ℚ := ⟨"a", 0, 0, 200, 100, 0, 0⟩
    let s : Shape ℚ := { Shape.initial with start := some ⟨20, 10⟩, finish := some ⟨180, 90⟩ }
    let e := shape f .arrow s
    let changes : Changes ℚ := [("width", .int 400), ("height", .bool true)]
    let wide : Box ℚ := ⟨0, 0, 400, 100⟩
    (f.width ≠ 0 ∧ f.height ≠ 0) ∧
      (changes.SparesEnds e ∧ ∃ f' s' ids',
        e.apply .counting changes = (.ok (shape f' .arrow s'), ids') ∧ f'.width = 400 ∧
          f'.height = 1 ∧ s'.start = some ⟨40, 1 / 10⟩ ∧ s'.finish = some ⟨360, 9 / 10⟩) ∧
      Relation.ReflTransGen Resized e ((e.fitted wide).fitted f.box) ∧ ∃ f' s',
        (e.fitted wide).fitted f.box = shape f' .arrow s' ∧ s'.start = some ⟨20, 10⟩ ∧
          s'.finish = some ⟨180, 90⟩ := by
  let _ : Trigonometry ℚ := ⟨fun _ => 1, fun _ => 0, fun _ _ => 0⟩
  intro f s e changes wide
  have hwidth : f.width ≠ 0 := by decide +kernel
  have hheight : f.height ≠ 0 := by decide +kernel
  obtain ⟨happlied, hrun⟩ := ends_follow_box (s := s) hwidth hheight
  refine ⟨⟨hwidth, hheight⟩, ?_, ?_⟩
  · have hspares : changes.SparesEnds e :=
      ⟨by decide, rfl, rfl, by simp [Changes.KeepsKind, changes]⟩
    have hsizes : ((e.apply .counting changes).1.map fun e => (e.width, e.height))
        = .ok (400, 1) := by decide +kernel
    obtain ⟨e', ids', happly, hw, hh⟩ := exists_of_sizes hsizes
    obtain ⟨f', s', rfl, hstart, hfinish⟩ := happlied _ _ _ _ hspares happly
    have hw : f'.width = 400 := hw
    have hh : f'.height = 1 := hh
    rw [hw, hh] at hstart hfinish
    refine ⟨hspares, f', s', ids', happly, hw, hh, hstart.trans ?_, hfinish.trans ?_⟩
    · exact congrArg some (congrArg₂ Point.mk (by decide +kernel) (by decide +kernel))
    · exact congrArg some (congrArg₂ Point.mk (by decide +kernel) (by decide +kernel))
  · have hcurve : s.curve = none := rfl
    have he : e.Valid := .shape ⟨by decide +kernel, by decide +kernel, by decide +kernel⟩
      (Shape.valid_of_curve_eq_none hcurve)
    have he' : (e.fitted wide).Valid :=
      .shape ⟨by decide +kernel, by decide +kernel, by decide +kernel⟩
        (Shape.valid_of_curve_eq_none hcurve)
    have hwider := resized_fitted he (Nat.zero_le _) (b := wide) (by decide +kernel)
      (by decide +kernel)
    have hback := resized_fitted he' (Nat.zero_le _) (b := f.box) (by decide +kernel)
      (by decide +kernel)
    have hboth := (Relation.ReflTransGen.single hwider).tail hback
    obtain ⟨f', s', hfitted, -, hends⟩ := hrun _ hboth
    refine ⟨hboth, f', s', hfitted, ?_⟩
    cases hfitted
    exact hends rfl rfl

/-- An arrow becomes twice as wide by a text, and its ends stay where they were. -/
theorem exists_ends_left_behind :
    letI : Trigonometry ℚ := ⟨fun _ => 1, fun _ => 0, fun _ _ => 0⟩
    let f : Frame ℚ := ⟨"a", 0, 0, 200, 100, 0, 0⟩
    let s : Shape ℚ := { Shape.initial with start := some ⟨20, 10⟩, finish := some ⟨180, 90⟩ }
    let e := shape f .arrow s
    let changes : Changes ℚ := [("width", .str "400")]
    (f.width ≠ 0 ∧ f.height ≠ 0) ∧ changes.SparesEnds e ∧ ∃ f' s' ids',
      e.apply .counting changes = (.ok (shape f' .arrow s'), ids') ∧ f'.width = 400 ∧
        s'.finish = some ⟨180, 90⟩ ∧
        s'.finish ≠ s.finish.map (scaledEnd (f'.width / f.width) (f'.height / f.height)) := by
  let _ : Trigonometry ℚ := ⟨fun _ => 1, fun _ => 0, fun _ _ => 0⟩
  intro f s e changes
  have hwidth : f.width ≠ 0 := by decide +kernel
  have hheight : f.height ≠ 0 := by decide +kernel
  have hspares : changes.SparesEnds e :=
    ⟨by decide, rfl, rfl, by simp [Changes.KeepsKind, changes]⟩
  have hsizes : ((e.apply .counting changes).1.map fun e => (e.width, e.height))
      = .ok (400, 100) := by decide +kernel
  obtain ⟨e', ids', happly, hw, hh⟩ := exists_of_sizes hsizes
  obtain ⟨f', s', rfl, -, hfinish⟩ := scaledEnds_of_apply hwidth hheight hspares happly
  have hw : f'.width = 400 := hw
  have hh : f'.height = 100 := hh
  have hstays : s'.finish = some ⟨180, 90⟩ := by
    rw [hw, hh] at hfinish
    exact hfinish.trans
      (congrArg some (congrArg₂ Point.mk (by decide +kernel) (by decide +kernel)))
  refine ⟨⟨hwidth, hheight⟩, hspares, f', s', ids', happly, hw, hstays, ?_⟩
  rw [hstays, hw, hh]
  intro heq
  have hx : (180 : ℚ) = 180 * (400 / 200) := congrArg Point.x (Option.some.inj heq)
  norm_num at hx

end Element

end Whiteboard

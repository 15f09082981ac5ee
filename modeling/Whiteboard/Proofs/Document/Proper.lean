import Whiteboard.Board.Clipboard
import Whiteboard.Board.Creation
import Whiteboard.Board.Grouping
import Whiteboard.Board.Rotation
import Whiteboard.Board.Stacking
import Whiteboard.Proofs.Board.Content

/-!
# Made elements

Elements that an editor makes out of valid ones: moved, turned, released from a group, copied.
Where numbers overflow, checks may no longer hold of them, so that some are only valid if their
numbers are finite.
-/

namespace Whiteboard

variable {α : Type} [Scalar α]

/-- Valid, if the numbers are finite. -/
def Frame.Proper (f : Frame α) : Prop :=
  Json.AllMembers (fun x => Scalar.isFinite x = true) f.toMembers → f.Valid

/-- Valid, if the numbers are finite. -/
def Element.Proper (e : Element α) : Prop := e.Finite → e.Valid

namespace Frame

/-- A frame that was turned is normalized. -/
theorem Valid.proper_turned [LawfulScalar α] {f : Frame α} (h : f.Valid) (id : String) (x y : α)
    (angle : α) (z : Int) :
    Proper ⟨id, x, y, f.width, f.height, Scalar.normalizeAngle angle, z⟩ := by
  intro hfin
  simp [toMembers] at hfin
  exact ⟨h.width_nonneg, h.height_nonneg, Scalar.normalizeAngle_normalizeAngle hfin.2.2.2.2⟩

/-- A frame that passes the checks is the one that was checked. -/
theorem checked_eq_ok_iff {f f' : Frame α} :
    f.checked = .ok f' ↔ f' = f ∧ 0 ≤ f.width ∧ 0 ≤ f.height := by
  simp only [checked, Checked.seq_eq_ok_iff, Checked.map_eq_ok_iff, Checked.under_eq_ok_iff]
  constructor
  · rintro ⟨_, height, ⟨width, hwidth, rfl⟩, hheight, rfl⟩
    obtain ⟨hw, rfl⟩ := Schema.notBelow_eq_ok_iff.mp hwidth
    obtain ⟨hh, rfl⟩ := Schema.notBelow_eq_ok_iff.mp hheight
    exact ⟨rfl, hw, hh⟩
  · rintro ⟨rfl, hw, hh⟩
    exact ⟨_, _, ⟨_, Schema.notBelow_eq_ok_iff.mpr ⟨hw, rfl⟩, rfl⟩,
      Schema.notBelow_eq_ok_iff.mpr ⟨hh, rfl⟩, rfl⟩

theorem valid_of_checked [LawfulScalar α] {f f' : Frame α} (h : f.checked = .ok f')
    (hrotation : f.rotation = 0) : f'.Valid := by
  obtain ⟨rfl, hw, hh⟩ := checked_eq_ok_iff.mp h
  refine ⟨hw, hh, ?_⟩
  rw [hrotation, Scalar.normalizeAngle_zero]

end Frame

namespace Element

variable {e : Element α}

theorem Valid.proper (h : e.Valid) : e.Proper := fun _ => h

theorem Valid.proper_mapFrame (h : e.Valid) {change : Frame α → Frame α}
    (hf : (change e.frame).Proper) : (e.mapFrame change).Proper := by
  intro hfin
  have hframe := all_frame hfin
  rw [frame_mapFrame] at hframe
  exact h.withFrame (hf hframe)

omit [Scalar α] in
theorem moveTo_self (e : Element α) : e.moveTo e.x e.y = e := by
  cases e <;> rfl

omit [Scalar α] in
theorem moveTo_moveTo (e : Element α) (x y x' y' : α) :
    (e.moveTo x y).moveTo x' y' = e.moveTo x' y' := by
  cases e <;> rfl

theorem Valid.moveTo (h : e.Valid) (x y : α) : (e.moveTo x y).Valid :=
  h.withFrame ⟨h.frame.width_nonneg, h.frame.height_nonneg, h.frame.normal⟩

theorem Valid.withZIndex (h : e.Valid) (z : Int) : (e.withZIndex z).Valid :=
  h.withFrame ⟨h.frame.width_nonneg, h.frame.height_nonneg, h.frame.normal⟩

theorem Valid.renumbered {es : List (Element α)} (h : ∀ e ∈ es, e.Valid) :
    ∀ e ∈ renumbered es, e.Valid := by
  intro e he
  obtain ⟨⟨e, i⟩, hi, rfl⟩ := List.mem_map.mp he
  exact (h e (List.fst_mem_of_mem_zipIdx hi)).withZIndex i

/-- Changes leave an element proper. -/
theorem Reached.proper [LawfulScalar α] {changesOf : Element α → Option (Changes α)}
    {e' : Element α} (h : Reached changesOf e e') (he : e.Proper) : e'.Proper := by
  cases h with
  | same => exact he
  | changed _ happly => exact valid_of_apply happly

theorem proper_applyEach [LawfulScalar α] (changesOf : Element α → Option (Changes α))
    {es : List (Element α)} (h : ∀ e ∈ es, e.Proper) (ids : IdSupply) :
    ∀ e ∈ (applyEach changesOf ids es).2.1, e.Proper :=
  forall_mem_applyEach h (fun _ _ he => he.proper) ids

/-! ## Stacking -/

section Order

omit [Scalar α]

theorem stacked_perm (es : List (Element α)) : (stacked es).Perm es := List.mergeSort_perm es _

theorem stepUp_perm (chosen : Element α → Bool) (es : List (Element α)) :
    (stepUp chosen es).Perm es := by
  induction es with
  | nil => rfl
  | cons e rest ih =>
    rw [stepUp]
    split
    · next above others h =>
      rw [h] at ih
      split
      · exact (List.Perm.swap e above others).trans (ih.cons e)
      · exact ih.cons e
    · next h =>
      rw [h] at ih
      exact ih.cons e

theorem stepDown_perm (chosen : Element α → Bool) (es : List (Element α)) :
    (stepDown chosen es).Perm es :=
  (List.reverse_perm _).trans ((stepUp_perm chosen es.reverse).trans (List.reverse_perm es))

end Order

/-! ## Copies -/

mutual

theorem Valid.renamed (ids : IdSupply) (e : Element α) (h : e.Valid) : (renamed ids e).1.Valid := by
  cases h with
  | shape hf hs => exact .shape ⟨hf.width_nonneg, hf.height_nonneg, hf.normal⟩ hs
  | image hf => exact .image ⟨hf.width_nonneg, hf.height_nonneg, hf.normal⟩
  | text hf => exact .text ⟨hf.width_nonneg, hf.height_nonneg, hf.normal⟩
  | @group f cs hf hcs =>
    exact .group ⟨hf.width_nonneg, hf.height_nonneg, hf.normal⟩ (valid_renamedAll ids.next cs hcs)

theorem valid_renamedAll (ids : IdSupply) (es : List (Element α)) (h : ∀ e ∈ es, e.Valid) :
    ∀ e ∈ (renamedAll ids es).1, e.Valid := by
  cases es with
  | nil => nofun
  | cons e es =>
    rw [List.forall_mem_cons] at h
    rw [renamedAll]
    exact List.forall_mem_cons.mpr ⟨Valid.renamed ids e h.1, valid_renamedAll _ es h.2⟩

end

/-! ## Groups -/

theorem valid_of_groupOf [LawfulScalar α] {id : String} {members : List (Element α)}
    {g : Element α} (h : groupOf id members = .ok g) (hm : ∀ e ∈ members, e.Valid) : g.Valid := by
  obtain ⟨f, hf, rfl⟩ := Checked.map_eq_ok_iff.mp h
  refine .group (Frame.valid_of_checked hf rfl) fun c hc => ?_
  obtain ⟨e, he, rfl⟩ := List.mem_map.mp hc
  exact (hm e he).moveTo _ _

/-- Of sides that are not negative, ratios to sides no less than 1 are not negative. -/
theorem ratio_nonneg [LawfulScalar α] {w n : α} (hw : 0 ≤ w)
    (h : w / Scalar.greater n 1 ≤ w / Scalar.greater n 1) : 0 ≤ w / Scalar.greater n 1 := by
  have hself := (LawfulScalar.le_self_of_div h).2
  have hone : (1 : α) ≤ 1 := LawfulScalar.le_self (Scalar.isFinite_ofNat (by decide))
  have hpos : (0 : α) < Scalar.greater n 1 :=
    Scalar.lt_of_lt_of_le (Scalar.ofNat_pos (by decide) (by decide))
      (Scalar.le_greater_right hone hself)
  exact LawfulScalar.div_nonneg hw hpos h

/-- A side that is scaled with its group is not negative. -/
theorem scaled_nonneg [LawfulScalar α] {v w n : α} (hv : 0 ≤ v) (hw : 0 ≤ w)
    (h : Scalar.isFinite (v * (w / Scalar.greater n 1)) = true) :
    0 ≤ v * (w / Scalar.greater n 1) := by
  have hself := LawfulScalar.le_self h
  exact LawfulScalar.mul_nonneg hv (ratio_nonneg hw (LawfulScalar.le_self_of_mul hself).2) hself

theorem frame_rescaled (sx sy : α) (f : Frame α) (e : Element α) :
    (e.rescaled sx sy f).frame = f := by
  unfold rescaled
  split
  · rfl
  · exact frame_withFrame e f

theorem Valid.rescaled (h : e.Valid) {sx sy : α} {f : Frame α} (hf : f.Valid) :
    (e.rescaled sx sy f).Valid := by
  unfold Element.rescaled
  split
  · cases h with
    | shape _ hs => exact .shape hf hs
  · exact h.withFrame hf

/-- Children of a valid group are proper elements of the board. -/
theorem Valid.proper_released [LawfulScalar α] {g : Element α} (h : g.Valid) :
    ∀ e ∈ g.released, e.Proper := by
  intro e he hfin
  obtain ⟨c, hc, rfl⟩ := List.mem_map.mp he
  have hchild := h.children c hc
  have hframe := all_frame hfin
  rw [frame_rescaled] at hframe
  refine hchild.rescaled ?_
  simp [Frame.toMembers] at hframe
  exact ⟨scaled_nonneg hchild.frame.width_nonneg h.frame.width_nonneg hframe.2.2.1,
    scaled_nonneg hchild.frame.height_nonneg h.frame.height_nonneg hframe.2.2.2.1,
    Scalar.normalizeAngle_normalizeAngle hframe.2.2.2.2⟩

/-! ## New elements -/

end Element

theorem Shape.valid_of_curve_eq_none {s : Shape α} (h : s.curve = none) : s.Valid := by
  intro c hc
  rw [h] at hc
  contradiction

/-- Straight arrows are valid. -/
theorem Shape.valid_of_curve_eq_zero [LawfulScalar α] {s : Shape α} (h : s.curve = some 0) :
    s.Valid := by
  intro c hc
  rw [h, Option.mem_some_iff] at hc
  subst hc
  exact ⟨LawfulScalar.neg_one_nonpos, Scalar.ofNat_nonneg (by decide)⟩

theorem Draft.valid_frame [LawfulScalar α] (d : Draft α) (id : String) {width height : α}
    (hw : 0 ≤ width) (hh : 0 ≤ height) : (d.frame id width height).Valid :=
  ⟨hw, hh, Scalar.normalizeAngle_zero⟩

namespace Element

theorem valid_newShape [LawfulScalar α] (id : String) (kind : ShapeKind) (d : Draft α) :
    (newShape id kind d).Valid := by
  have hsquare : (d.frame id 150 150).Valid :=
    d.valid_frame id (Scalar.ofNat_nonneg (by decide)) (Scalar.ofNat_nonneg (by decide))
  unfold newShape
  split
  · exact .shape (d.valid_frame id (Scalar.ofNat_nonneg (by decide))
      (Scalar.ofNat_nonneg (by decide))) (Shape.valid_of_curve_eq_zero rfl)
  · exact .shape hsquare (Shape.valid_of_curve_eq_none rfl)
  · exact .shape hsquare (Shape.valid_of_curve_eq_none rfl)

theorem valid_of_create [LawfulScalar α] {ids ids' : IdSupply} {kind : ElementKind}
    {d : Draft α} {e : Element α} (h : create ids kind d = (.ok e, ids')) : e.Valid := by
  cases kind with
  | shape kind =>
    cases h
    exact valid_newShape ids.elementId kind d
  | text =>
    cases h
    exact .text (d.valid_frame ids.elementId (Scalar.ofNat_nonneg (by decide))
      (Scalar.ofNat_nonneg (by decide)))
  | image =>
    have hmade := Checked.toEdit_eq_ok_iff.mp (congrArg Prod.fst h)
    obtain ⟨_, height, hrest, hheight, rfl⟩ := Checked.seq_eq_ok_iff.mp hmade
    obtain ⟨width, hwidth, rfl⟩ := Checked.map_eq_ok_iff.mp hrest
    obtain ⟨hw, rfl⟩ := Schema.notBelow_eq_ok_iff.mp (Checked.under_eq_ok_iff.mp hwidth)
    obtain ⟨hh, rfl⟩ := Schema.notBelow_eq_ok_iff.mp (Checked.under_eq_ok_iff.mp hheight)
    exact .image (d.valid_frame ids.elementId hw hh)
  | group => simp [create] at h

end Element

end Whiteboard

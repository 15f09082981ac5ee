import Whiteboard.Proofs.Document.Rebound

/-!
# Arrows that follow in steps

An arrow that follows some elements and then others lies where it would lie had it followed all of
them at a time (`Element.trailing_trailing`): each time its bound ends are looked up, and its free
ends stay. Whether it takes a new geometry depends on its curve alone (`Element.apply_toChanges`).
-/

namespace Whiteboard

variable {α : Type}

/-! ## Arrows that take a geometry -/

section Taking

variable [Scalar α]

theorem Schema.eq_of_between_num {low high x y : α} (h : between low high (.num x) = .ok y) :
    y = x := by
  obtain ⟨_, hx, hy⟩ := Checked.andThen_eq_ok_iff.mp h
  cases hx
  split at hy
  · exact (notBelow_eq_ok_iff.mp hy).2.symm
  · contradiction

theorem Shape.valid_of_ofMembers_append {s s' : Shape α} {f : Frame α} {k : ElementKind}
    (h : ofMembers (f.toMembers ++ Element.kindMember k ++ s.toMembers) = .ok s') : s.Valid := by
  revert s'
  simp only [ofMembers, Checked.forall_seq, Checked.forall_map]
  intro _ _ _ _ _ _ _ _ _ _ _ _ _ _ _ _ _ _ _ _ _ _ curve hcurve _ _ _ _ c hc
  simp [toMembers, Frame.toMembers, Element.kindMember, Schema.withDefault, Entries.get?] at hcurve
  rw [Option.mem_def.mp hc] at hcurve
  obtain ⟨_, hread, -⟩ := Checked.map_eq_ok_iff.mp hcurve
  obtain rfl := Schema.eq_of_between_num hread
  exact Schema.mem_of_between hread

end Taking

namespace Element

section Geometry

variable [Scalar α]

/-- The element with its rotation brought into a full turn. -/
def normalized (e : Element α) : Element α := e.withRotation (Scalar.normalizeAngle e.rotation)

variable {f : Frame α} {s : Shape α} {g : ArrowGeometry α} {e' : Element α} {ids ids' : IdSupply}

/-- An arrow takes over a new geometry, whatever its rotation. -/
theorem apply_toChanges (hs : s.Valid) (hw : 0 ≤ g.box.width) (hh : 0 ≤ g.box.height)
    (ids : IdSupply) : (shape f .arrow s).apply ids g.toChanges
      = (.ok ((shape f .arrow s).normalized.laid g), ids) := by
  have hs' : Shape.Valid { s with start := some g.start, finish := some g.finish } := hs
  have hread : ofJson maxNesting ((shape f .arrow s).laid g).toJson
      = .ok ((shape f .arrow s).normalized.laid g) := by
    rw [laid, toJson, ofJson, kindOf_append]
    simp only [Frame.ofMembers_append_of_sides (f := f.withBox g.box) hw hh,
      Shape.ofMembers_append hs', Checked.map_ok, Checked.seq_ok, Checked.under_ok]
    rfl
  rw [apply_toChanges_eq, hread]
  rfl

/-- Only an arrow with a curve in range takes over a new geometry. -/
theorem valid_of_apply_toChanges
    (h : (shape f .arrow s).apply ids g.toChanges = (.ok e', ids')) : s.Valid := by
  rw [apply_toChanges_eq] at h
  have hread := Checked.toEdit_eq_ok_iff.mp (congrArg Prod.fst h)
  rw [laid, toJson, ofJson, kindOf_append] at hread
  obtain ⟨_, s', -, hs, -⟩ := Checked.seq_eq_ok_iff.mp (Checked.under_eq_ok_iff.mp hread)
  exact (Shape.valid_of_ofMembers_append hs :)

end Geometry

/-! ## Where an arrow goes that follows -/

section Trailing

variable [Scalar α] {xs ys : List String} {es es' : List (Element α)} {e : Element α}

/-- An element after some elements moved; arrows that are bound to them follow. -/
def trailing (moved : List String) (es : List (Element α)) (e : Element α) : Element α :=
  ((e.rebound? moved es false).map e.normalized.laid).getD e

theorem trailing_of_rebound? {g : ArrowGeometry α} (h : e.rebound? xs es false = some g) :
    e.trailing xs es = e.normalized.laid g := by
  rw [trailing, h]
  rfl

theorem trailing_of_eq_none (h : e.rebound? xs es false = none) : e.trailing xs es = e := by
  rw [trailing, h]
  rfl

theorem rebound?_eq_none_iff (es : List (Element α)) :
    e.rebound? xs es false = none ↔ e.rebinds xs false = false := by
  rw [← isSome_rebound? e es, Option.isSome_eq_false_iff, Option.isNone_iff_eq_none]

theorem trailing_of_not_rebinds (h : e.rebinds xs false = false) : e.trailing xs es = e :=
  trailing_of_eq_none ((rebound?_eq_none_iff es).mpr h)

omit [Scalar α] in
theorem rebinds_of_not_arrow (h : e.isArrow = false) : e.rebinds xs false = false := by
  refine Bool.eq_false_iff.mpr fun hr => ?_
  rw [isArrow_of_rebinds hr] at h
  contradiction

theorem trailing_of_not_arrow (h : e.isArrow = false) : e.trailing xs es = e :=
  trailing_of_not_rebinds (rebinds_of_not_arrow h)

/-- It does not matter which of the elements moved that an arrow is bound to. -/
theorem trailing_of_rebinds (h : e.rebinds xs false = true) (h' : e.rebinds ys false = true) :
    e.trailing xs es = e.trailing ys es := by
  rw [trailing, trailing, rebound?_eq, rebound?_eq, if_pos h, if_pos h']

theorem id_trailing (moved : List String) (es : List (Element α)) (e : Element α) :
    (e.trailing moved es).id = e.id := by
  unfold trailing
  cases e.rebound? moved es false with
  | none => rfl
  | some g => cases e <;> rfl

/-- The curve of an arrow that follows is in range. -/
def Flexible (e : Element α) : Prop := ∀ s ∈ e.arrow?, s.Valid

theorem flexible_arrow {f : Frame α} {s : Shape α} : (shape f .arrow s).Flexible ↔ s.Valid := by
  constructor
  · exact fun h => h s rfl
  · rintro h _ ⟨⟩
    exact h

/-- What follows stays the same arrow. -/
theorem same_trailing (moved : List String) (es : List (Element α)) (e : Element α) :
    (e.trailing moved es).isArrow = e.isArrow ∧ (e.trailing moved es).bindings = e.bindings ∧
      ((e.trailing moved es).Flexible ↔ e.Flexible) := by
  unfold trailing
  cases h : e.rebound? moved es false with
  | none => exact ⟨rfl, rfl, Iff.rfl⟩
  | some g =>
    obtain ⟨f, s, _, _, rfl, -⟩ := of_rebound?_eq_some h
    exact ⟨rfl, rfl, flexible_arrow.trans (flexible_arrow (f := f) (s := s)).symm⟩

omit [Scalar α] in
theorem boundTo_append (b : Option Binding) :
    boundTo (xs ++ ys) b = (boundTo xs b || boundTo ys b) := by
  cases b with
  | none => rfl
  | some bd => simp [boundTo]

omit [Scalar α] in
theorem rebinds_append (e : Element α) :
    e.rebinds (xs ++ ys) false = (e.rebinds xs false || e.rebinds ys false) := by
  unfold rebinds
  split
  · simp only [boundTo_append, Bool.false_and, Bool.or_false]
    ac_rfl
  · rfl

/-- Only which elements moved counts, and not their order. -/
theorem rebindings_of_perm (h : xs.Perm ys) (es : List (Element α)) :
    rebindings xs es false = rebindings ys es false := by
  have hbound (b : Option Binding) : boundTo xs b = boundTo ys b := by
    cases b with
    | none => rfl
    | some bd => exact h.contains_eq
  have hrebound (e : Element α) : e.rebound? xs es false = e.rebound? ys es false := by
    simp only [rebound?_eq, rebinds, hbound, Bool.false_and]
  simp only [rebindings, hrebound]

theorem rebinds_trailing (moved : List String) (es : List (Element α)) (e : Element α) :
    (e.trailing xs es).rebinds moved false = e.rebinds moved false := by
  cases h : e.rebinds xs false with
  | false => rw [trailing_of_not_rebinds h]
  | true =>
    obtain ⟨g, hg⟩ := Option.isSome_iff_exists.mp ((isSome_rebound? e es).trans h)
    obtain ⟨f, s, p, q, rfl, hp, hq⟩ := exists_of_rebinds h
    obtain ⟨_, _, _, _, _, _, _, start, finish, _, _, _, _, _⟩ := s
    cases hp
    cases hq
    rw [trailing_of_rebound? hg]
    rfl

theorem endsAmong_congr (h : ∀ bd ∈ e.bindings, bd.place? es = bd.place? es') :
    e.endsAmong es = e.endsAmong es' := by
  rw [endsAmong, endsAmong]
  cases harrow : e.arrow? with
  | none => rfl
  | some s =>
    have hbindings := mem_bindings harrow
    have hstart := Binding.placeOf?_congr fun bd hbd => h bd ((hbindings bd).mpr (.inl hbd))
    have hfinish := Binding.placeOf?_congr fun bd hbd => h bd ((hbindings bd).mpr (.inr hbd))
    rcases s with ⟨_, _, _, _, _, _, _, _ | p, _ | q, _, _, _, start, finish⟩
    · rfl
    · rfl
    · rfl
    · dsimp only at hstart hfinish ⊢
      rw [hstart, hfinish]

/-- Where an arrow goes depends on what it is bound to and on nothing else around it. -/
theorem trailing_congr (h : ∀ bd ∈ e.bindings, bd.place? es = bd.place? es') (moved : List String) :
    e.trailing moved es = e.trailing moved es' := by
  rw [trailing, trailing, rebound?_eq, rebound?_eq, endsAmong_congr h]

theorem flexible_of_apply {g : ArrowGeometry α} (h : e.rebound? xs es false = some g)
    {e' : Element α} {ids ids' : IdSupply} (happly : e.apply ids g.toChanges = (.ok e', ids')) :
    e.Flexible := by
  obtain ⟨f, s, _, _, rfl, -⟩ := of_rebound?_eq_some h
  exact flexible_arrow.mpr (valid_of_apply_toChanges happly)

theorem normalized_laid (e : Element α) (g : ArrowGeometry α) :
    (e.laid g).normalized = e.normalized.laid g := by
  cases e <;> rfl

theorem endsAmong_normalized (e : Element α) (es : List (Element α)) :
    e.normalized.endsAmong es = e.endsAmong es := by
  cases e with
  | shape f k s => cases k <;> rfl
  | _ => rfl

end Trailing

section Exact

variable [Field α] [LinearOrder α] [FloorRing α] [Trigonometry α] [IsStrictOrderedRing α]
  {xs ys : List String} {es es₁ : List (Element α)} {e : Element α}

/-- An arrow that follows takes the geometry that it is given, whatever its rotation. -/
theorem apply_trailing {g : ArrowGeometry α} (h : e.rebound? xs es false = some g)
    (he : e.Flexible) (ids : IdSupply) :
    e.apply ids g.toChanges = (.ok (e.trailing xs es), ids) := by
  obtain ⟨hw, hh⟩ := sides_of_rebound? h fun _ _ => rfl
  rw [trailing_of_rebound? h]
  obtain ⟨f, s, _, _, rfl, -⟩ := of_rebound?_eq_some h
  exact apply_toChanges (flexible_arrow.mp he) hw hh ids

omit [IsStrictOrderedRing α] in
/-- An arrow that followed has its free ends where they were. -/
theorem endsAmong_trailing (hgone : ∀ bd ∈ e.bindings, bd.place? es = none → bd.place? es₁ = none) :
    (e.trailing xs es₁).endsAmong es = e.endsAmong es := by
  cases h : e.rebinds xs false with
  | false => rw [trailing_of_not_rebinds h]
  | true =>
    obtain ⟨g, hg⟩ := Option.isSome_iff_exists.mp ((isSome_rebound? e es₁).trans h)
    rw [trailing_of_rebound? hg, ← normalized_laid, endsAmong_normalized]
    rw [rebound?_eq, if_pos h, Option.map_eq_some_iff] at hg
    obtain ⟨ends, hends, rfl⟩ := hg
    exact endsAmong_laid hends fun bd hbd => ⟨rfl, hgone bd hbd⟩

theorem normalized_normalized (e : Element α) : e.normalized.normalized = e.normalized := by
  have hangle : Scalar.normalizeAngle (Scalar.normalizeAngle e.rotation)
      = Scalar.normalizeAngle e.rotation := Scalar.normalizeAngle_normalizeAngle rfl
  have hrotation : e.normalized.rotation = Scalar.normalizeAngle e.rotation := by
    cases e <;> rfl
  rw [normalized, hrotation, hangle, normalized]
  cases e <;> rfl

/-- An arrow that follows in two steps goes where it would go at a time. -/
theorem trailing_trailing (hgone : ∀ bd ∈ e.bindings, bd.place? es = none → bd.place? es₁ = none)
    (hstays : ∀ bd ∈ e.bindings, bd.element ∉ ys → bd.place? es₁ = bd.place? es) :
    (e.trailing xs es₁).trailing ys es = e.trailing (xs ++ ys) es := by
  cases hx : e.rebinds xs false with
  | false =>
    rw [trailing_of_not_rebinds hx, trailing, trailing, rebound?_eq, rebound?_eq, rebinds_append,
      hx, Bool.false_or]
  | true =>
    have hxy : e.rebinds (xs ++ ys) false = true := by rw [rebinds_append, hx, Bool.true_or]
    cases hy : e.rebinds ys false with
    | false =>
      -- what it is bound to has stayed since
      obtain ⟨f, s, p, q, rfl, hp, hq⟩ := exists_of_rebinds hx
      obtain ⟨hunmoved, -⟩ := of_rebound?_eq_none rfl hp hq
        ((rebound?_eq_none_iff es).mpr hy)
      rw [trailing_of_not_rebinds ((rebinds_trailing ys es₁ _).trans hy),
        trailing_congr (fun bd hbd => hstays bd hbd (hunmoved bd hbd)) xs,
        trailing_of_rebinds hx hxy]
    | true =>
      obtain ⟨g, hg⟩ := Option.isSome_iff_exists.mp ((isSome_rebound? e es₁).trans hx)
      obtain ⟨g', hg'⟩ := Option.isSome_iff_exists.mp ((isSome_rebound? e es).trans hxy)
      have hagain : (e.trailing xs es₁).rebound? ys es false = some g' := by
        rw [← hg', rebound?_eq, rebound?_eq, rebinds_trailing, if_pos hy, if_pos hxy,
          endsAmong_trailing hgone]
      rw [trailing_of_rebound? hagain, trailing_of_rebound? hg, trailing_of_rebound? hg',
        normalized_laid, normalized_normalized, laid_laid]

end Exact

end Element

end Whiteboard

import Whiteboard.Proofs.Document.Attachment
import Whiteboard.Proofs.Document.Laid

/-!
# Arrows bound anew again

Whether an arrow is bound anew depends on what it is bound to, and not on where anything lies
(`Element.rebound?_eq`). An arrow that was bound anew before is bound as if it had not been
(`Element.rebound?_laid`): its bound ends are looked up, and its free ends stayed on their places.
-/

namespace Whiteboard

variable {α : Type}

/-! ## Where bindings lead -/

namespace Binding

variable [Scalar α] {es es' es₁ : List (Element α)} {f f' : Element α → Element α}

theorem place?_map (hf : ∀ e ∈ es, (f e).id = e.id) (bd : Binding) : bd.place? (es.map f)
    = (es.find? fun e => e.id == bd.element).map fun e => bd.anchor.on (f e).frame.box := by
  have hfind : es.find? ((fun e => e.id == bd.element) ∘ f)
      = es.find? fun e => e.id == bd.element :=
    List.find?_congr fun e he => congrArg (· == bd.element) (hf e he)
  rw [place?, List.find?_map, hfind, Option.map_map]
  rfl

/-- A binding leads to the same place where its element lies in the same box. -/
theorem place?_map_congr (hf : ∀ e ∈ es, (f e).id = e.id) (hf' : ∀ e ∈ es, (f' e).id = e.id)
    {bd : Binding} (h : ∀ e ∈ es, e.id = bd.element → (f e).frame.box = (f' e).frame.box) :
    bd.place? (es.map f) = bd.place? (es.map f') := by
  rw [place?_map hf, place?_map hf']
  refine Option.map_congr fun e he => ?_
  have hid := List.find?_some he
  rw [h e (List.mem_of_find?_eq_some he) (beq_iff_eq.mp hid)]

theorem place?_map_eq_none_iff (hf : ∀ e ∈ es, (f e).id = e.id) (bd : Binding) :
    bd.place? (es.map f) = none ↔ bd.place? es = none := by
  rw [place?_map hf, place?, Option.map_eq_none_iff, Option.map_eq_none_iff]

theorem placeOf?_congr {binding : Option Binding}
    (h : ∀ bd ∈ binding, bd.place? es = bd.place? es') :
    placeOf? binding es = placeOf? binding es' := by
  cases binding with
  | none => rfl
  | some bd => exact h bd rfl

/-- An end that was put where its binding led, and is put there again. -/
theorem getD_placeOf? {binding : Option Binding}
    (h : ∀ bd ∈ binding,
      bd.place? es' = bd.place? es ∧ (bd.place? es = none → bd.place? es₁ = none))
    (p : Point α) : (placeOf? binding es').getD ((placeOf? binding es₁).getD p)
      = (placeOf? binding es).getD p := by
  cases binding with
  | none => rfl
  | some bd =>
    obtain ⟨hsame, hgone⟩ := h bd rfl
    simp only [placeOf?, Option.bind_some, hsame]
    cases hplace : bd.place? es with
    | none =>
      rw [hgone hplace]
      rfl
    | some p => rfl

end Binding

namespace Element

/-! ## Which arrows are bound anew -/

section Rebinds

variable {moved : List String} {withMoved : Bool} {e : Element α}

/-- Whether an arrow is bound anew when some elements moved. -/
def rebinds (moved : List String) (withMoved : Bool) (e : Element α) : Bool :=
  match e.arrow? with
  | some { start := some _, finish := some _, startBinding, finishBinding, .. } =>
    boundTo moved startBinding || boundTo moved finishBinding
      || (withMoved && moved.contains e.id && (startBinding.isSome || finishBinding.isSome))
  | _ => false

/-- What is bound anew is an arrow with two ends. -/
theorem exists_of_rebinds (h : e.rebinds moved withMoved = true) :
    ∃ f s p q, e = shape f .arrow s ∧ s.start = some p ∧ s.finish = some q := by
  unfold rebinds at h
  split at h
  · next harrow =>
    obtain ⟨f, rfl⟩ := eq_of_arrow?_eq_some harrow
    exact ⟨f, _, _, _, rfl, rfl, rfl⟩
  · contradiction

theorem rebinds_nil (e : Element α) : e.rebinds [] withMoved = false := by
  have hfree (b : Option Binding) : boundTo [] b = false := by cases b <;> rfl
  unfold rebinds
  split
  · rw [hfree, hfree, List.contains_nil, Bool.and_false]
    rfl
  · rfl

theorem isArrow_of_rebinds (h : e.rebinds moved withMoved = true) : e.isArrow = true := by
  obtain ⟨f, s, p, q, rfl, -⟩ := exists_of_rebinds h
  rfl

theorem rebinds_withFrame {f : Frame α} (hid : f.id = e.id) :
    (e.withFrame f).rebinds moved withMoved = e.rebinds moved withMoved := by
  have hid' : (e.withFrame f).id = e.id := by rw [Element.id, frame_withFrame, hid]
  rw [rebinds, rebinds, arrow?_withFrame, hid']

theorem rebinds_rescaled [Scalar α] {f : Frame α} (hid : f.id = e.id) (sx sy : α) :
    (e.rescaled sx sy f).rebinds moved withMoved = e.rebinds moved withMoved := by
  unfold rescaled
  split
  · next f' s =>
    have hid : f.id = f'.id := hid
    rcases s with ⟨_, _, _, _, _, _, _, _ | _, _ | _, _, _, _, _, _⟩ <;>
      simp [rebinds, arrow?, Element.id, frame, hid]
  · exact rebinds_withFrame hid

theorem rebinds_fitted [Scalar α] (b : Box α) (e : Element α) :
    (e.fitted b).rebinds moved withMoved = e.rebinds moved withMoved :=
  rebinds_rescaled (f := e.frame.withBox b) rfl _ _

theorem rebinds_laid (h : e.rebinds moved withMoved = true) (g : ArrowGeometry α) :
    (e.laid g).rebinds moved withMoved = true := by
  obtain ⟨f, s, p, q, rfl, hp, hq⟩ := exists_of_rebinds h
  obtain ⟨_, _, _, _, _, _, _, start, finish, _, _, _, _, _⟩ := s
  cases hp
  cases hq
  exact h

end Rebinds

/-! ## Where they are bound -/

section Ends

variable [Scalar α] {es es' : List (Element α)} {f f' : Frame α} {s s' : Shape α}
  {p p' q q' : Point α}

/-- Where the ends of an arrow lie, bound ends on their anchors. -/
def endsAmong (es : List (Element α)) (e : Element α) : Option (Point α × Point α) :=
  match e.arrow? with
  | some { start := some start, finish := some finish, startBinding, finishBinding, .. } =>
    some ((Binding.placeOf? startBinding es).getD (e.endPlace start),
      (Binding.placeOf? finishBinding es).getD (e.endPlace finish))
  | _ => none

theorem rebound?_eq (moved : List String) (es : List (Element α)) (withMoved : Bool)
    (e : Element α) : e.rebound? moved es withMoved
      = if e.rebinds moved withMoved
        then (e.endsAmong es).map fun ends => .between ends.1 ends.2 ArrowGeometry.leastSide
        else none := by
  unfold rebound? rebinds endsAmong
  rcases e.arrow? with _ | ⟨_, _, _, _, _, _, _, _ | _, _ | _, _, _, _, _, _⟩ <;> rfl

theorem endsAmong_eq (hp : s.start = some p) (hq : s.finish = some q) (es : List (Element α)) :
    (shape f .arrow s).endsAmong es = some
      ((Binding.placeOf? s.startBinding es).getD ((shape f .arrow s).endPlace p),
        (Binding.placeOf? s.finishBinding es).getD ((shape f .arrow s).endPlace q)) := by
  obtain ⟨_, _, _, _, _, _, _, start, finish, _, _, _, _, _⟩ := s
  cases hp
  cases hq
  rfl

theorem exists_of_endsAmong {e : Element α} {ends : Point α × Point α}
    (h : e.endsAmong es = some ends) :
    ∃ f s p q, e = shape f .arrow s ∧ s.start = some p ∧ s.finish = some q := by
  unfold endsAmong at h
  split at h
  · next harrow =>
    obtain ⟨f, rfl⟩ := eq_of_arrow?_eq_some harrow
    exact ⟨f, _, _, _, rfl, rfl, rfl⟩
  · contradiction

theorem isSome_rebound? {moved : List String} {withMoved : Bool} (e : Element α)
    (es : List (Element α)) :
    (e.rebound? moved es withMoved).isSome = e.rebinds moved withMoved := by
  rw [rebound?_eq]
  cases h : e.rebinds moved withMoved with
  | false => rfl
  | true =>
    obtain ⟨f, s, p, q, rfl, hp, hq⟩ := exists_of_rebinds h
    rw [if_pos rfl, endsAmong_eq hp hq]
    rfl

theorem rebindings_nil (es : List (Element α)) (withMoved : Bool) :
    rebindings [] es withMoved = [] := by
  refine List.eq_nil_iff_forall_not_mem.mpr fun m hm => ?_
  obtain ⟨e, g, hg, -⟩ := exists_of_mem_rebindings hm
  have hr := isSome_rebound? e _ ▸ congrArg Option.isSome hg
  rw [rebinds_nil] at hr
  contradiction

/-- Both ends of an arrow are bound to elements that are there. -/
def Hangs (es : List (Element α)) (e : Element α) : Prop :=
  ∀ s ∈ e.arrow?, (Binding.placeOf? s.startBinding es).isSome ∧
    (Binding.placeOf? s.finishBinding es).isSome

theorem Hangs.map {e : Element α} (h : e.Hangs es) {f : Element α → Element α}
    (hf : ∀ e ∈ es, (f e).id = e.id) : e.Hangs (es.map f) := by
  have hend (binding : Option Binding) (hb : (Binding.placeOf? binding es).isSome) :
      (Binding.placeOf? binding (es.map f)).isSome := by
    cases binding with
    | none => exact hb
    | some bd =>
      rw [Binding.placeOf?, Option.bind_some, ← Option.ne_none_iff_isSome] at hb ⊢
      exact fun hnone => hb ((Binding.place?_map_eq_none_iff hf bd).mp hnone)
  exact fun s hs => ⟨hend _ (h s hs).1, hend _ (h s hs).2⟩

/-- Where both ends of an arrow are bound, it does not matter where the arrow lies. -/
theorem rebound?_laid_of_hangs {moved : List String} {withMoved : Bool} {e : Element α}
    (h : e.Hangs es) (hr : e.rebinds moved withMoved = true) (g : ArrowGeometry α)
    (hid : f.id = e.id) (hid' : f'.id = e.id)
    (hes : ∀ bd ∈ e.bindings, bd.place? es' = bd.place? es) :
    ((e.laid g).withFrame f').rebound? moved es' withMoved
      = (e.withFrame f).rebound? moved es withMoved := by
  have hr₁ : (e.withFrame f).rebinds moved withMoved = true := (rebinds_withFrame hid).trans hr
  obtain ⟨f₀, s, p, q, rfl, hp, hq⟩ := exists_of_rebinds hr
  have hr₂ := (rebinds_withFrame (e := (shape f₀ .arrow s).laid g) hid').trans (rebinds_laid hr g)
  have hbindings := mem_bindings (show (shape f₀ .arrow s).arrow? = some s from rfl)
  obtain ⟨hstart, hfinish⟩ := h s rfl
  obtain ⟨p', hp'⟩ := Option.isSome_iff_exists.mp hstart
  obtain ⟨q', hq'⟩ := Option.isSome_iff_exists.mp hfinish
  have hsame := Binding.placeOf?_congr fun bd hbd => hes bd ((hbindings bd).mpr (.inl hbd))
  have hsame' := Binding.placeOf?_congr fun bd hbd => hes bd ((hbindings bd).mpr (.inr hbd))
  have hends : (shape f .arrow s).endsAmong es = some (p', q') := by
    rw [endsAmong_eq hp hq, hp', hq']
    rfl
  have hends' : (((shape f₀ .arrow s).laid g).withFrame f').endsAmong es' = some (p', q') := by
    refine (endsAmong_eq rfl rfl es').trans ?_
    rw [hsame, hsame', hp', hq']
    rfl
  rw [rebound?_eq, rebound?_eq, if_pos hr₁, if_pos hr₂, hends']
  exact congrArg _ hends.symm

end Ends

section Exact

variable [Field α] [LinearOrder α] [FloorRing α] [Trigonometry α] {es es' es₁ : List (Element α)}
  {e : Element α} {g : ArrowGeometry α} {moved : List String} {withMoved : Bool}

/-- Once an arrow was put between its ends, its bound ends are looked up anew, and its free ends are
where they were. -/
theorem endsAmong_laid {ends : Point α × Point α} (h : e.endsAmong es₁ = some ends)
    (hes : ∀ bd ∈ e.bindings, bd.place? es' = bd.place? es ∧
      (bd.place? es = none → bd.place? es₁ = none)) :
    (e.laid (.between ends.1 ends.2 ArrowGeometry.leastSide)).endsAmong es' = e.endsAmong es := by
  obtain ⟨f, s, p, q, rfl, hp, hq⟩ := exists_of_endsAmong h
  rw [endsAmong_eq hp hq, Option.some.injEq] at h
  have hbindings := mem_bindings (show (shape f .arrow s).arrow? = some s from rfl)
  have hbox (g : ArrowGeometry α) : ((shape f .arrow s).laid g).frame.box = g.box := rfl
  subst h
  obtain ⟨hstart, hfinish⟩ := endPlace_between (hbox _)
  rw [endsAmong_eq hp hq]
  refine (endsAmong_eq rfl rfl es').trans (congrArg some ?_)
  rw [Prod.mk.injEq]
  constructor
  · exact (congrArg _ hstart).trans
      (Binding.getD_placeOf? (fun bd hbd => hes bd ((hbindings bd).mpr (.inl hbd))) _)
  · exact (congrArg _ hfinish).trans
      (Binding.getD_placeOf? (fun bd hbd => hes bd ((hbindings bd).mpr (.inr hbd))) _)

/-- An arrow that was bound anew before is bound anew as if it had not been. -/
theorem rebound?_laid (h : e.rebound? moved es₁ withMoved = some g)
    (hes : ∀ bd ∈ e.bindings, bd.place? es' = bd.place? es ∧
      (bd.place? es = none → bd.place? es₁ = none)) :
    (e.laid g).rebound? moved es' withMoved = e.rebound? moved es withMoved := by
  have hr : e.rebinds moved withMoved = true := by rw [← isSome_rebound? e es₁, h]; rfl
  rw [rebound?_eq, if_pos hr, Option.map_eq_some_iff] at h
  obtain ⟨ends, hends, rfl⟩ := h
  rw [rebound?_eq, rebound?_eq, if_pos hr, if_pos (rebinds_laid hr _), endsAmong_laid hends hes]

end Exact

end Element

end Whiteboard

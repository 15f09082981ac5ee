import Whiteboard.Proofs.Document.Followed
import Whiteboard.Proofs.Document.Made
import Whiteboard.Proofs.Scalar.Exact

/-!
# Attached arrows

Elements are coherent if all bound ends of their arrows lie on their anchors. After elements moved,
it is enough to bind anew the arrows that `Element.rebound?` finds (`Element.coherent_of_rebound`),
as long as no arrow is bound to an arrow: what the others are bound to has stayed.
-/

namespace Whiteboard

/-- A batch that names no arrow and makes no element one of another kind. -/
def Batch.SparesArrows {α : Type} (batch : Batch α) (es : List (Element α)) : Prop :=
  ∀ e ∈ es, ∀ changes ∈ batch.changesOf e, e.isArrow = false ∧ changes.KeepsKind e

theorem Batch.mem_movedIds {α : Type} {batch : Batch α} {id : String} : id ∈ batch.movedIds ↔
    ∃ changes, (id, changes) ∈ batch ∧ ∃ m ∈ changes, m.1 ∈ Batch.geometryFields := by
  simp [Batch.movedIds, Entries.keys]

theorem Batch.has_of_mem_movedIds {α : Type} {batch : Batch α} {id : String}
    (h : id ∈ batch.movedIds) : Entries.has id batch = true := by
  obtain ⟨changes, hmem, -⟩ := mem_movedIds.mp h
  exact Entries.has_eq_true_iff.mpr (List.mem_map_of_mem hmem)

namespace Element

section Definitions

variable {α : Type} [Scalar α]

/-- An end that is bound to one of the elements lies on its anchor. -/
def Meets (es : List (Element α)) (e : Element α) (p : Point α) (binding : Option Binding) : Prop :=
  ∀ bd ∈ binding, ∀ t ∈ es, t.id = bd.element → e.endPlace p = bd.anchor.on t.frame.box

/-- Both ends of an arrow lie where they are bound. -/
def Attached (es : List (Element α)) (e : Element α) : Prop :=
  ∀ s ∈ e.arrow?, ∀ p ∈ s.start, ∀ q ∈ s.finish,
    Meets es e p s.startBinding ∧ Meets es e q s.finishBinding

def Coherent (es : List (Element α)) : Prop := ∀ e ∈ es, Attached es e

end Definitions

variable {α : Type}

/-- The bindings of an arrow. -/
def bindings (e : Element α) : List Binding :=
  match e.arrow? with
  | some s => s.startBinding.toList ++ s.finishBinding.toList
  | none => []

/-- No arrow is bound to an arrow. -/
def SparesArrows (es : List (Element α)) : Prop :=
  ∀ a ∈ es, ∀ bd ∈ a.bindings, ∀ t ∈ es, t.id = bd.element → t.isArrow = false

/-- Elements that count as the same where arrows are bound. -/
structure Alike (e e' : Element α) : Prop where
  id : e'.id = e.id
  box : e'.frame.box = e.frame.box
  arrow : e'.arrow? = e.arrow?

theorem Alike.refl (e : Element α) : Alike e e := ⟨rfl, rfl, rfl⟩

theorem mem_bindings {e : Element α} {s : Shape α} (hs : e.arrow? = some s) (bd : Binding) :
    bd ∈ e.bindings ↔ bd ∈ s.startBinding ∨ bd ∈ s.finishBinding := by
  simp [bindings, hs]

theorem Alike.bindings {e e' : Element α} (h : Alike e e') : e'.bindings = e.bindings := by
  rw [Element.bindings, Element.bindings, h.arrow]

theorem isArrow_eq (e : Element α) : e.isArrow = decide (e.kind = .shape .arrow) := by
  cases e with
  | shape f k s => cases k <;> rfl
  | _ => rfl

theorem arrow?_withFrame (e : Element α) (f : Frame α) : (e.withFrame f).arrow? = e.arrow? := by
  cases e with
  | shape f' k s => cases k <;> rfl
  | _ => rfl

theorem arrow?_eq_none_iff {e : Element α} : e.arrow? = none ↔ e.isArrow = false := by
  rw [isArrow, Option.isSome_eq_false_iff, Option.isNone_iff_eq_none]

/-- The same arrow as far as ids and bindings go, wherever it lies. -/
structure SameArrow (e e' : Element α) : Prop where
  id : e'.id = e.id
  arrow : e.isArrow = true
  bindings : e'.bindings = e.bindings

theorem Alike.same {e e' : Element α} (h : Alike e e') (he : e'.isArrow = true) :
    SameArrow e e' := ⟨h.id, by rw [isArrow, ← h.arrow]; exact he, h.bindings⟩

theorem SparesArrows.of_same {es₀ es : List (Element α)} (h : SparesArrows es₀)
    (hes : ∀ t ∈ es, t.isArrow = true → ∃ t₀ ∈ es₀, SameArrow t₀ t) : SparesArrows es := by
  intro a ha bd hbd t ht hid
  have harrow : a.isArrow = true := by
    rw [isArrow, Option.isSome_iff_ne_none]
    intro hnone
    rw [bindings, hnone] at hbd
    contradiction
  obtain ⟨a₀, hmem, hsame⟩ := hes a ha harrow
  cases ht_arrow : t.isArrow with
  | false => rfl
  | true =>
    obtain ⟨t₀, hmem_t, hsame_t⟩ := hes t ht ht_arrow
    have hspared := h a₀ hmem bd (hsame.bindings ▸ hbd) t₀ hmem_t (hsame_t.id ▸ hid)
    exact absurd (hspared.symm.trans hsame_t.arrow) Bool.false_ne_true

theorem SparesArrows.mono {es es' : List (Element α)} (h : SparesArrows es) (hsub : es' ⊆ es) :
    SparesArrows es' := fun a ha bd hbd t ht => h a (hsub ha) bd hbd t (hsub ht)

/-- What is scaled binds as it did. -/
theorem same_rescaled [Scalar α] (sx sy : α) (e : Element α) (f : Frame α) :
    (e.rescaled sx sy f).id = f.id ∧ (e.rescaled sx sy f).isArrow = e.isArrow ∧
      (e.rescaled sx sy f).bindings = e.bindings := by
  refine ⟨congrArg Frame.id (frame_rescaled sx sy f e), ?_⟩
  unfold rescaled
  split
  · exact ⟨rfl, rfl⟩
  · rw [isArrow, bindings, arrow?_withFrame]
    exact ⟨rfl, rfl⟩

theorem alike_withFrame (e : Element α) {f : Frame α} (hid : f.id = e.id)
    (hbox : f.box = e.frame.box) : Alike e (e.withFrame f) where
  id := by rw [Element.id, frame_withFrame, hid]
  box := by rw [frame_withFrame, hbox]
  arrow := e.arrow?_withFrame f

/-! ## What stays attached -/

section Unmoved

variable [Scalar α] {es es₀ : List (Element α)} {e e₀ : Element α}

theorem endPlace_of_box (h : e.frame.box = e₀.frame.box) (p : Point α) :
    e.endPlace p = e₀.endPlace p := by
  have hx : e.x = e₀.x := congrArg Box.x h
  have hy : e.y = e₀.y := congrArg Box.y h
  rw [endPlace, endPlace, hx, hy]

theorem Meets.of_alike {p : Point α} {binding : Option Binding} (h : Meets es₀ e₀ p binding)
    (he : Alike e₀ e)
    (ht : ∀ bd ∈ binding, ∀ t ∈ es, t.id = bd.element → ∃ t₀ ∈ es₀, Alike t₀ t) :
    Meets es e p binding := by
  intro bd hbd t hmem hid
  obtain ⟨t₀, hmem₀, halike⟩ := ht bd hbd t hmem hid
  rw [endPlace_of_box he.box, halike.box]
  exact h bd hbd t₀ hmem₀ (halike.id ▸ hid)

/-- An arrow stays attached where it and all that it is bound to have stayed. -/
theorem Attached.of_alike (h : Attached es₀ e₀) (he : Alike e₀ e)
    (ht : ∀ bd ∈ e.bindings, ∀ t ∈ es, t.id = bd.element → ∃ t₀ ∈ es₀, Alike t₀ t) :
    Attached es e := by
  intro s hs p hp q hq
  obtain ⟨hstart, hfinish⟩ := h s (he.arrow ▸ hs) p hp q hq
  have hbindings := mem_bindings hs
  exact ⟨hstart.of_alike he fun bd hbd => ht bd ((hbindings bd).mpr (.inl hbd)),
    hfinish.of_alike he fun bd hbd => ht bd ((hbindings bd).mpr (.inr hbd))⟩

theorem Coherent.of_alike (h : Coherent es₀) (hes : ∀ t ∈ es, ∃ t₀ ∈ es₀, Alike t₀ t) :
    Coherent es := by
  intro e he
  obtain ⟨e₀, hmem, halike⟩ := hes e he
  exact (h e₀ hmem).of_alike halike fun bd _ t ht _ => hes t ht

/-! ## Arrows that are left where they are -/

variable {moved : List String} {withMoved : Bool}

theorem boundTo_eq_false_iff {b : Option Binding} :
    boundTo moved b = false ↔ ∀ bd ∈ b, bd.element ∉ moved := by
  cases b <;> simp [boundTo]

/-- Arrows that are bound and not bound anew neither moved nor are bound to what did. -/
theorem of_rebound?_eq_none {s : Shape α} {p q : Point α} (hs : e.arrow? = some s)
    (hp : s.start = some p) (hq : s.finish = some q)
    (h : e.rebound? moved es withMoved = none) :
    (∀ bd ∈ e.bindings, bd.element ∉ moved) ∧
      (withMoved = true → e.id ∈ moved → e.bindings = []) := by
  obtain ⟨_, _, _, _, _, _, _, start, finish, _, _, _, startBinding, finishBinding⟩ := s
  cases hp
  cases hq
  simp only [rebound?, hs, ite_eq_right_iff, reduceCtorEq, imp_false, Bool.not_eq_true,
    Bool.or_eq_false_iff] at h
  obtain ⟨⟨hstart, hfinish⟩, hself⟩ := h
  rw [boundTo_eq_false_iff] at hstart hfinish
  constructor
  · intro bd hbd
    rcases (mem_bindings hs _).mp hbd with hbd | hbd
    · exact hstart bd hbd
    · exact hfinish bd hbd
  · rintro rfl hmoved
    rw [Bool.true_and, List.contains_iff_mem.mpr hmoved, Bool.true_and, Bool.or_eq_false_iff,
      Option.isSome_eq_false_iff, Option.isSome_eq_false_iff, Option.isNone_iff_eq_none,
      Option.isNone_iff_eq_none] at hself
    simp [bindings, hs, hself]

theorem attached_of_rebound?_eq_none (h₀ : Coherent es₀)
    (hes : ∀ t ∈ es, t.id ∉ moved → ∃ t₀ ∈ es₀, Alike t₀ t)
    (hself : withMoved = true ∨ ∀ t ∈ es, t.isArrow = true → t.id ∉ moved) (he : e ∈ es)
    (h : e.rebound? moved es withMoved = none) : Attached es e := by
  intro s hs p hp q hq
  obtain ⟨hbound, hfree⟩ := of_rebound?_eq_none hs hp hq h
  have harrow : e.isArrow = true := by rw [isArrow, hs]; rfl
  by_cases hmoved : e.id ∈ moved
  · have hfree : e.bindings = [] := by
      rcases hself with hw | hself
      · exact hfree hw hmoved
      · exact absurd hmoved (hself e he harrow)
    have hnone (bd : Binding) : ¬ (bd ∈ s.startBinding ∨ bd ∈ s.finishBinding) := by
      rw [← mem_bindings hs, hfree]
      exact List.not_mem_nil
    exact ⟨fun bd hbd => absurd (.inl hbd) (hnone bd), fun bd hbd => absurd (.inr hbd) (hnone bd)⟩
  · obtain ⟨e₀, hmem, halike⟩ := hes e he hmoved
    refine (h₀ e₀ hmem).of_alike halike (fun bd hbd t ht hid => ?_) s hs p hp q hq
    exact hes t ht (hid ▸ hbound bd hbd)

end Unmoved

/-! ## Arrows that are bound anew -/

section Rebound

variable [Scalar α] {es es' : List (Element α)} {e e' : Element α}
  {changesOf : Element α → Option (Changes α)} {ids ids' : IdSupply}

/-- What became of each element when all changes were taken. -/
inductive Took (changesOf : Element α → Option (Changes α)) (e : Element α) : Element α → Prop where
  | none : changesOf e = none → Took changesOf e e
  | some {e' : Element α} {changes : Changes α} {ids ids' : IdSupply} :
      changesOf e = some changes → e.apply ids changes = (.ok e', ids') → Took changesOf e e'

theorem Took.id_eq (h : Took changesOf e e') : e'.id = e.id := by
  cases h with
  | none => rfl
  | some _ happly => exact id_of_apply happly

theorem exists_took (h : applyEach changesOf ids es = (none, es', ids')) :
    ∀ e' ∈ es', ∃ e ∈ es, Took changesOf e e' := by
  induction es generalizing ids es' with
  | nil =>
    cases h
    exact nofun
  | cons e rest ih =>
    rw [applyEach] at h
    split at h
    · next hnone =>
      rcases hrest : applyEach changesOf ids rest with ⟨failure, rest', ids₁⟩
      rw [hrest] at h
      cases h
      rw [List.forall_mem_cons]
      refine ⟨⟨e, List.mem_cons_self, .none hnone⟩, fun e' he' => ?_⟩
      obtain ⟨e₁, hmem, htook⟩ := ih hrest e' he'
      exact ⟨e₁, List.mem_cons_of_mem _ hmem, htook⟩
    · next changes hchanges =>
      split at h
      · cases h
      · next e₀ ids₀ happly =>
        rcases hrest : applyEach changesOf ids₀ rest with ⟨failure, rest', ids₁⟩
        rw [hrest] at h
        cases h
        rw [List.forall_mem_cons]
        refine ⟨⟨e, List.mem_cons_self, .some hchanges happly⟩, fun e' he' => ?_⟩
        obtain ⟨e₁, hmem, htook⟩ := ih hrest e' he'
        exact ⟨e₁, List.mem_cons_of_mem _ hmem, htook⟩

omit [Scalar α] in
/-- Where no two elements share an id, each is found by its own. -/
theorem find?_id_of_mem (hids : (es.map Element.id).Nodup) (he : e ∈ es) {id : String}
    (hid : e.id = id) : es.find? (fun t => t.id == id) = some e := by
  cases hfound : es.find? (fun t => t.id == id) with
  | none => exact absurd (beq_iff_eq.mpr hid) (List.find?_eq_none.mp hfound e he)
  | some e₀ =>
    have hfits := List.find?_some hfound
    have hid₀ : e₀.id = id := beq_iff_eq.mp hfits
    rw [List.inj_on_of_nodup_map hids (List.mem_of_find?_eq_some hfound) he (hid₀.trans hid.symm)]

/-- A binding leads to the only element with its id. -/
theorem place?_of_mem (hids : (es.map Element.id).Nodup) {bd : Binding} (he : e ∈ es)
    (hid : e.id = bd.element) : bd.place? es = some (bd.anchor.on e.frame.box) := by
  rw [Binding.place?, find?_id_of_mem hids he hid, Option.map_some]

theorem placeOf?_getD (hids : (es.map Element.id).Nodup) {bd : Binding} {binding : Option Binding}
    (hbd : bd ∈ binding) (he : e ∈ es) (hid : e.id = bd.element) (p : Point α) :
    (Binding.placeOf? binding es).getD p = bd.anchor.on e.frame.box := by
  cases hbd
  rw [Binding.placeOf?, Option.bind_some, place?_of_mem hids he hid, Option.getD_some]

omit [Scalar α] in
theorem eq_of_arrow?_eq_some {s : Shape α} (h : e.arrow? = some s) : ∃ f, e = shape f .arrow s := by
  unfold arrow? at h
  split at h
  · next f _ =>
    cases h
    exact ⟨f, rfl⟩
  · contradiction

/-- Where the ends of a bound arrow are put, and from where. -/
theorem of_rebound?_eq_some {moved : List String} {withMoved : Bool} {g : ArrowGeometry α}
    (h : e.rebound? moved es withMoved = some g) :
    ∃ f s p q, e = shape f .arrow s ∧ g = .between
      ((Binding.placeOf? s.startBinding es).getD p) ((Binding.placeOf? s.finishBinding es).getD q)
      ArrowGeometry.leastSide := by
  unfold rebound? at h
  split at h
  · next start finish startBinding finishBinding harrow =>
    dsimp only at h
    split at h
    · cases h
      obtain ⟨f, rfl⟩ := eq_of_arrow?_eq_some harrow
      exact ⟨f, _, _, _, rfl, rfl⟩
    · contradiction
  · contradiction

end Rebound

section Batches

variable [Scalar α] {es : List (Element α)} {batch : Batch α}

/-- What the changes of a batch left alone, where it names no arrow. -/
theorem alike_of_took (hbatch : batch.SparesArrows es) {t₀ t : Element α}
    (hmem : t₀ ∈ es) (htook : Took batch.changesOf t₀ t) :
    (t.isArrow = true → t = t₀ ∧ batch.changesOf t₀ = none) ∧
      (t.id ∉ batch.movedIds → Alike t₀ t) := by
  cases htook with
  | none hnone => exact ⟨fun _ => ⟨rfl, hnone⟩, fun _ => .refl t₀⟩
  | some hchanges happly =>
    next changes _ _ =>
    obtain ⟨harrow, hkind⟩ := hbatch t₀ hmem changes hchanges
    have hstays : t.isArrow = false := by
      rw [isArrow_eq, kind_of_apply happly hkind, ← isArrow_eq, harrow]
    refine ⟨fun h => absurd (hstays.symm.trans h) Bool.false_ne_true, fun hmoved => ?_⟩
    have hid := id_of_apply happly
    refine ⟨hid, box_of_apply happly fun m hm hfield => hmoved ?_, ?_⟩
    · exact Batch.mem_movedIds.mpr ⟨changes, hid ▸ Entries.mem_of_get? hchanges, m, hm, hfield⟩
    · rw [arrow?_eq_none_iff.mpr hstays, arrow?_eq_none_iff.mpr harrow]

end Batches

section Exact

variable [Field α] [LinearOrder α] [FloorRing α] [Trigonometry α]
  {es es' : List (Element α)} {changesOf : Element α → Option (Changes α)} {ids ids' : IdSupply}

/-- The ends of a new geometry lie where they were put. -/
theorem endPlace_between {e : Element α} {p q : Point α} {least : α}
    (h : e.frame.box = (ArrowGeometry.between p q least).box) :
    e.endPlace (ArrowGeometry.between p q least).start = p ∧
      e.endPlace (ArrowGeometry.between p q least).finish = q := by
  have hx : e.x = (ArrowGeometry.between p q least).box.x := congrArg Box.x h
  have hy : e.y = (ArrowGeometry.between p q least).box.y := congrArg Box.y h
  have hback (a b : α) : a + (b - a) = b := add_sub_cancel a b
  simp only [endPlace, hx, hy, ArrowGeometry.between, hback, and_self]

/-- Where arrows that need it were bound anew, all are attached. -/
theorem coherent_of_rebound {moved : List String} {withMoved : Bool}
    (hids : (es.map Element.id).Nodup) (hspare : SparesArrows es)
    (hch : ∀ e ∈ es, changesOf e
      = (e.rebound? moved es withMoved).map ArrowGeometry.toChanges)
    (hrest : ∀ e ∈ es, e.rebound? moved es withMoved = none → Attached es e)
    (h : applyEach changesOf ids es = (none, es', ids')) : Coherent es' := by
  -- no arrow is bound to an arrow, so that what arrows are bound to took no changes
  have htargets : ∀ a ∈ es, ∀ bd ∈ a.bindings, ∀ t ∈ es', t.id = bd.element → t ∈ es := by
    intro a ha bd hbd t ht hid
    obtain ⟨t₀, hmem, htook⟩ := exists_took h t ht
    have hidle : t₀.isArrow = false := hspare a ha bd hbd t₀ hmem (htook.id_eq ▸ hid)
    cases htook with
    | none => exact hmem
    | some hchanges _ =>
      rw [hch t₀ hmem, Option.map_eq_some_iff] at hchanges
      obtain ⟨g, hg, -⟩ := hchanges
      obtain ⟨f, s, _, _, rfl, -⟩ := of_rebound?_eq_some hg
      contradiction
  intro e' he'
  obtain ⟨e, hmem, htook⟩ := exists_took h e' he'
  cases htook with
  | none hnone =>
    rw [hch e' hmem, Option.map_eq_none_iff] at hnone
    refine (hrest e' hmem hnone).of_alike (.refl e') fun bd hbd t ht hid => ?_
    exact ⟨t, htargets e' hmem bd hbd t ht hid, .refl t⟩
  | some hchanges happly =>
    rw [hch e hmem, Option.map_eq_some_iff] at hchanges
    obtain ⟨g, hg, rfl⟩ := hchanges
    obtain ⟨f, s, p₀, q₀, rfl, rfl⟩ := of_rebound?_eq_some hg
    obtain ⟨s', hs', hbox, hstart, hfinish, hbound, hbound'⟩ := arrow_of_apply happly
    obtain ⟨hplace, hplace'⟩ := endPlace_between hbox
    have hbindings := mem_bindings (show (shape f .arrow s).arrow? = some s from rfl)
    intro s₁ hs₁ p hp q hq
    obtain rfl : s' = s₁ := Option.some.inj (hs'.symm.trans hs₁)
    cases hstart.symm.trans hp
    cases hfinish.symm.trans hq
    constructor
    · intro bd hbd t ht hid
      rw [hbound] at hbd
      have hmem_t := htargets _ hmem bd ((hbindings bd).mpr (.inl hbd)) t ht hid
      rw [hplace, placeOf?_getD hids hbd hmem_t hid]
    · intro bd hbd t ht hid
      rw [hbound'] at hbd
      have hmem_t := htargets _ hmem bd ((hbindings bd).mpr (.inr hbd)) t ht hid
      rw [hplace', placeOf?_getD hids hbd hmem_t hid]

end Exact

end Element

end Whiteboard

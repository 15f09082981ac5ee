import Whiteboard.Proofs.Drawing.Node

/-!
# Drawn edges and rails

Each edge is drawn as one arrow that is bound to the shapes of its ends
(`Drawing.meets_arrowsAfter`), and each shape on the trunk of an outline has a stub that leads to
one of two rails (`Drawing.meets_rails`), unless a number is out of range.
-/

namespace Whiteboard

variable {α : Type} [Scalar α]

namespace Drawing

/-- The checks let a frame pass as it is, unless numbers are out of range. -/
theorem meets_checked {f : Frame α} (h : UnboundedScalar α → 0 ≤ f.width ∧ 0 ≤ f.height) :
    Meets α (fun f' => f' = f) f.checked.toDrawing := by
  cases hchecked : f.checked with
  | ok f' => exact (Frame.checked_eq_ok_iff.mp hchecked).1
  | bad issues =>
    refine ⟨.invalid issues, fun hα => ?_⟩
    obtain ⟨hwidth, hheight⟩ := h hα
    rw [Frame.checked_eq_ok_iff.mpr ⟨rfl, hwidth, hheight⟩] at hchecked
    cases hchecked

theorem checked_of_toDrawing {f f' : Frame α} (h : f.checked.toDrawing = .ok f') :
    f.checked = .ok f' := by
  cases hchecked : f.checked with
  | ok f'' =>
    rw [hchecked] at h
    cases h
    rfl
  | bad issues =>
    rw [hchecked] at h
    cases h

section Unbounded

theorem orElse_nonneg {x y : α} (hx : 0 ≤ x) (hy : 0 ≤ y) : 0 ≤ Scalar.orElse x y := by
  unfold Scalar.orElse
  split
  · exact hy
  · exact hx

theorem greater_le {x y z : α} (hx : x ≤ z) (hy : y ≤ z) : Scalar.greater x y ≤ z := by
  unfold Scalar.greater
  split
  · exact hy
  · exact hx

variable (hα : UnboundedScalar α)

include hα

theorem le_self (x : α) : x ≤ x :=
  have := hα.toLawfulScalar
  LawfulScalar.le_self (hα.isFinite x)

theorem lesser_le_left (x y : α) : Scalar.lesser x y ≤ x := by
  have := hα.toLawfulScalar
  unfold Scalar.lesser
  split
  · next h => exact Scalar.le_of_lt h
  · exact le_self hα x

theorem lesser_le_greater (x y : α) : Scalar.lesser x y ≤ Scalar.greater x y := by
  have := hα.toLawfulScalar
  exact LawfulScalar.le_trans (lesser_le_left hα x y) (Scalar.le_greater_left (le_self hα x))

theorem spanFrame_nonneg (id : String) (a b : Point α) :
    0 ≤ (spanFrame id a b).width ∧ 0 ≤ (spanFrame id a b).height := by
  have := hα.toLawfulScalar
  have hone : (0 : α) ≤ 1 := Scalar.ofNat_nonneg (by decide)
  exact ⟨orElse_nonneg (hα.sub_nonneg (lesser_le_greater hα _ _)) hone,
    orElse_nonneg (hα.sub_nonneg (lesser_le_greater hα _ _)) hone⟩

theorem greater_one_nonneg (x : α) : 0 ≤ Scalar.greater x 1 := by
  have := hα.toLawfulScalar
  exact LawfulScalar.le_trans (Scalar.ofNat_nonneg (by decide))
    (Scalar.le_greater_right (le_self hα 1) (le_self hα _))

/-- Curves are clamped. -/
theorem curve_mem (bend : Bool) (strength : α) (index total : Int) :
    -1 ≤ Connector.curve bend strength index total ∧
      Connector.curve bend strength index total ≤ 1 := by
  have := hα.toLawfulScalar
  have hone : (-1 : α) ≤ 1 :=
    LawfulScalar.le_trans LawfulScalar.neg_one_nonpos (Scalar.ofNat_nonneg (by decide))
  exact ⟨Scalar.le_greater_left (le_self hα _), greater_le hone (lesser_le_left hα 1 _)⟩

end Unbounded

/-! ## Arrows -/

/-- The arrow of an edge, told apart by a mark and bound to two elements. -/
structure Joins (edge : Edge) (mark source target : String) (e : Element α) : Prop where
  id : e.id = "arrow-" ++ edge.source ++ "-" ++ edge.target ++ "-" ++ mark
  arrow : ∃ s ∈ e.arrow?, s.content = some edge.label ∧
    s.startBinding.map (·.element) = some source ∧ s.finishBinding.map (·.element) = some target

theorem meets_edgeElement (edge : Edge) (source target : Element α) (curve : α) (mark : String) :
    Meets α (Joins edge mark source.id target.id) (edgeElement edge source target curve mark) := by
  refine (meets_checked fun hα => spanFrame_nonneg hα _ _ _).bind fun frame hframe => ?_
  subst hframe
  exact ⟨rfl, _, rfl, rfl, rfl, rfl⟩

theorem valid_of_edgeElement [LawfulScalar α] {edge : Edge} {source target e : Element α}
    {curve : α} {mark : String} (hcurve : -1 ≤ curve ∧ curve ≤ 1)
    (h : edgeElement edge source target curve mark = .ok e) : e.Valid := by
  obtain ⟨frame, hframe, h⟩ := exists_of_bind h
  cases h
  refine .shape (Frame.valid_of_checked (checked_of_toDrawing hframe) rfl) fun c hc => ?_
  cases hc
  exact hcurve

/-- The edges are drawn one by one. -/
theorem meets_arrowsAfter {P : Edge → String → Element α → Prop} {style : DrawingStyle α}
    {g : Graph} {drawn : Entries (Element α)} {before edges : List Edge} (ids : IdSupply)
    (hends : ∀ e ∈ edges, e.source ∈ drawn.keys ∧ e.target ∈ drawn.keys)
    (hedge : ∀ edge ∈ edges, ∀ source target, Entries.get? edge.source drawn = some source →
      Entries.get? edge.target drawn = some target → ∀ before mark,
        Meets α (P edge mark) (edgeElement edge source target (curveOf style g before edge) mark)) :
    MeetsDraft α (fun arrows ids' => ids' = ids.advance edges.length ∧
      List.Forall₂ (fun m arrow => P m.1 m.2 arrow) (edges.zip (ids.shortIds edges.length)) arrows)
      (arrowsAfter style g drawn before edges ids) := by
  induction edges generalizing before ids with
  | nil => exact ⟨rfl, .nil⟩
  | cons edge rest ih =>
    rw [List.forall_mem_cons] at hends hedge
    obtain ⟨source, hsource⟩ := Entries.exists_get?_of_mem_keys hends.1.1
    obtain ⟨target, htarget⟩ := Entries.exists_get?_of_mem_keys hends.1.2
    rw [arrowsAfter, hsource, htarget]
    refine MeetsDraft.andThen (P := fun e ids' => ids' = ids.next ∧ P edge ids.shortId e) ?_ ?_
    · exact (hedge.1 source target hsource htarget before ids.shortId).mono fun e he => ⟨rfl, he⟩
    · rintro arrow _ ⟨rfl, harrow⟩
      refine (ih ids.next hends.2 hedge.2).andThen ?_
      rintro arrows ids' ⟨hids, harrows⟩
      exact ⟨hids.trans (ids.next_advance _), .cons harrow harrows⟩

/-! ## Stubs and rails -/

/-- A line that has an id. -/
structure IsLine (id : String) (e : Element α) : Prop where
  id : e.id = id
  arrow : e.isArrow = true

theorem meets_line (id : String) (p : Point α) (dx dy : α) (color : String) (stroke : α) :
    Meets α (IsLine id) (line id p dx dy color stroke) := by
  refine (meets_checked fun hα => ⟨greater_one_nonneg hα _, greater_one_nonneg hα _⟩).bind
    fun frame hframe => ?_
  subst hframe
  exact ⟨rfl, rfl⟩

theorem valid_of_line [LawfulScalar α] {id : String} {p : Point α} {dx dy : α} {color : String}
    {stroke : α} {e : Element α} (h : line id p dx dy color stroke = .ok e) : e.Valid := by
  obtain ⟨frame, hframe, h⟩ := exists_of_bind h
  cases h
  exact .shape (Frame.valid_of_checked (checked_of_toDrawing hframe) rfl)
    (Shape.valid_of_curve_eq_zero rfl)

theorem meets_mapM {β γ : Type} {R : β → γ → Prop} {f : β → Except DrawingError γ} {l : List β}
    (h : ∀ b ∈ l, Meets α (R b) (f b)) : Meets α (List.Forall₂ R l) (l.mapM f) := by
  induction l with
  | nil => exact .nil
  | cons b l ih =>
    rw [List.forall_mem_cons] at h
    rw [List.mapM_cons]
    refine h.1.bind fun c hc => (ih h.2).bind fun cs hcs => ?_
    exact .cons hc hcs

/-- The stub of a shape on the trunk, which leads to the left or to the right. -/
def Leads (Q : String → Element α → Prop) (e stub : Element α) : Prop :=
  Q ("connector-" ++ e.id ++ "-left") stub ∨ Q ("connector-" ++ e.id ++ "-right") stub

variable {Q : String → Element α → Prop}

theorem meets_stub
    (hline : ∀ id p dx dy color stroke, Meets α (Q id) (line id p dx dy color stroke))
    (left right middle : α) (e : Element α) : Meets α (Leads Q e) (stub left right middle e) := by
  unfold stub
  dsimp only
  split
  · exact (hline _ _ _ _ _ _).mono fun _ => .inl
  · exact (hline _ _ _ _ _ _).mono fun _ => .inr

/-- A trunk has a stub for each shape, and two rails. -/
theorem meets_rails
    (hline : ∀ id p dx dy color stroke, Meets α (Q id) (line id p dx dy color stroke))
    {trunk : List (Element α)} (hne : trunk ≠ []) (ids : IdSupply) :
    MeetsDraft α (fun v _ => List.Forall₂ (Leads Q) trunk v.1 ∧
      List.Forall₂ Q ["guide-left-" ++ ids.shortId, "guide-right-" ++ ids.next.shortId] v.2)
      (rails trunk ids) := by
  cases trunk with
  | nil => contradiction
  | cons e rest =>
    rw [rails, List.map_cons]
    dsimp only
    refine MeetsDraft.andThen (P := fun rail ids' => ids' = ids.next ∧
      Q ("guide-left-" ++ ids.shortId) rail) ?_ ?_
    · exact (hline _ _ _ _ _ _).mono fun rail hrail => ⟨rfl, hrail⟩
    · rintro left _ ⟨rfl, hleft⟩
      refine MeetsDraft.andThen (P := fun rail _ =>
        Q ("guide-right-" ++ ids.next.shortId) rail) ?_ ?_
      · exact hline _ _ _ _ _ _
      · intro right ids' hright
        refine (meets_mapM fun e _ => meets_stub hline _ _ _ e).bind fun stubs hstubs => ?_
        exact ⟨hstubs, .cons hleft (.cons hright .nil)⟩

end Drawing

end Whiteboard

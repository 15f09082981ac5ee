import Whiteboard.Element

/-!
# Equality of documents

Documents are compared with `==`, which is as coarse as that of their numbers. Where `==` of numbers
is symmetric and transitive, so is that of elements, viewports and documents
(`Document.instPartialEquivBEq`).
-/

namespace Whiteboard

section

variable {β γ : Type} [BEq β] [BEq γ]

/-- A comparison through a function into another type. -/
theorem partialEquivBEq_of_comap [PartialEquivBEq γ] (f : β → γ)
    (h : ∀ a b, (a == b) = (f a == f b)) : PartialEquivBEq β where
  symm hab := by rw [h] at hab ⊢; exact BEq.symm hab
  trans hab hbc := by rw [h] at hab hbc ⊢; exact BEq.trans hab hbc

instance instPartialEquivBEqProd [PartialEquivBEq β] [PartialEquivBEq γ] :
    PartialEquivBEq (β × γ) where
  symm {a b} h := by
    change (a.1 == b.1 && a.2 == b.2) = true at h
    change (b.1 == a.1 && b.2 == a.2) = true
    rw [Bool.and_eq_true] at h ⊢
    exact ⟨BEq.symm h.1, BEq.symm h.2⟩
  trans {a b c} h h' := by
    change (a.1 == b.1 && a.2 == b.2) = true at h
    change (b.1 == c.1 && b.2 == c.2) = true at h'
    change (a.1 == c.1 && a.2 == c.2) = true
    rw [Bool.and_eq_true] at h h' ⊢
    exact ⟨BEq.trans h.1 h'.1, BEq.trans h.2 h'.2⟩

instance instPartialEquivBEqOption [PartialEquivBEq β] : PartialEquivBEq (Option β) where
  symm {a b} h := by
    cases a <;> cases b
    · exact h
    · exact h
    · exact h
    · exact BEq.symm (α := β) h
  trans {a b c} h h' := by
    cases a <;> cases b <;> cases c
    any_goals exact h
    any_goals exact h'
    any_goals contradiction
    exact BEq.trans (α := β) h h'

instance instPartialEquivBEqList [PartialEquivBEq β] : PartialEquivBEq (List β) where
  symm {a b} h := by
    induction a generalizing b with
    | nil => cases b <;> simp_all
    | cons x xs ih =>
      cases b with
      | nil => simp at h
      | cons y ys =>
        simp only [List.cons_beq_cons, Bool.and_eq_true] at h ⊢
        exact ⟨BEq.symm h.1, ih h.2⟩
  trans {a b c} h h' := by
    induction a generalizing b c with
    | nil => cases b <;> cases c <;> simp_all
    | cons x xs ih =>
      cases b <;> cases c <;> try simp at h h'
      simp only [List.cons_beq_cons, Bool.and_eq_true] at h h' ⊢
      exact ⟨BEq.trans h.1 h'.1, ih h.2 h'.2⟩

end

section

variable {α : Type} [BEq α] [PartialEquivBEq α]

instance : PartialEquivBEq (Frame α) :=
  partialEquivBEq_of_comap (fun f => (f.id, f.x, f.y, f.width, f.height, f.rotation, f.zIndex))
    fun _ _ => rfl

instance : PartialEquivBEq (Point α) :=
  partialEquivBEq_of_comap (fun p => (p.x, p.y)) fun _ _ => rfl

instance : PartialEquivBEq (TextStyle α) :=
  partialEquivBEq_of_comap (fun s => (s.family, s.size, s.color, s.background, s.bold, s.italic,
    s.underline, s.strikethrough)) fun _ _ => rfl

instance : PartialEquivBEq (RangeStyle α) :=
  partialEquivBEq_of_comap (fun r => (r.start, r.stop, r.bold, r.italic, r.underline,
    r.strikethrough, r.color, r.background, r.size, r.family)) fun _ _ => rfl

instance : PartialEquivBEq (Shape α) :=
  partialEquivBEq_of_comap (fun s => (s.fill, s.borderWidth, s.border, s.cornerRadius, s.content,
    s.textStyle, s.ranges, s.start, s.finish, s.headSize, s.tailWidth, s.curve, s.startBinding,
    s.finishBinding)) fun _ _ => rfl

instance : PartialEquivBEq (TextBlock α) :=
  partialEquivBEq_of_comap (fun t => (t.content, t.style, t.ranges)) fun _ _ => rfl

instance : PartialEquivBEq (Viewport α) :=
  partialEquivBEq_of_comap (fun v => (v.x, v.y, v.scale)) fun _ _ => rfl

end

variable {α : Type} [BEq α]

namespace Element

theorem sameList_eq_beq (es es' : List (Element α)) : sameList es es' = (es == es') := by
  induction es generalizing es' with
  | nil => cases es' <;> rfl
  | cons e es ih =>
    cases es' with
    | nil => rfl
    | cons e' es' => rw [sameList, ih]; rfl

mutual

theorem same_symm [PartialEquivBEq α] (e e' : Element α) (h : same e e' = true) :
    same e' e = true := by
  cases e <;> cases e' <;> simp only [same, Bool.and_eq_true, Bool.false_eq_true] at h ⊢
  case shape.shape => exact ⟨⟨BEq.symm h.1.1, BEq.symm h.1.2⟩, BEq.symm h.2⟩
  case image.image => exact ⟨BEq.symm h.1, BEq.symm h.2⟩
  case text.text => exact ⟨BEq.symm h.1, BEq.symm h.2⟩
  case group.group f cs f' cs' => exact ⟨BEq.symm h.1, sameList_symm cs cs' h.2⟩

theorem sameList_symm [PartialEquivBEq α] (es es' : List (Element α))
    (h : sameList es es' = true) :
    sameList es' es = true := by
  match es, es' with
  | [], [] => rfl
  | [], _ :: _ | _ :: _, [] => simp [sameList] at h
  | e :: es, e' :: es' =>
    simp only [sameList, Bool.and_eq_true] at h ⊢
    exact ⟨same_symm e e' h.1, sameList_symm es es' h.2⟩

end

mutual

theorem same_trans [PartialEquivBEq α] (e e' e'' : Element α) (h : same e e' = true)
    (h' : same e' e'' = true) : same e e'' = true := by
  cases e <;> cases e' <;> simp only [same, Bool.and_eq_true, Bool.false_eq_true] at h <;>
    cases e'' <;> simp only [same, Bool.and_eq_true, Bool.false_eq_true] at h' ⊢
  case shape.shape.shape =>
    exact ⟨⟨BEq.trans h.1.1 h'.1.1, BEq.trans h.1.2 h'.1.2⟩, BEq.trans h.2 h'.2⟩
  case image.image.image => exact ⟨BEq.trans h.1 h'.1, BEq.trans h.2 h'.2⟩
  case text.text.text => exact ⟨BEq.trans h.1 h'.1, BEq.trans h.2 h'.2⟩
  case group.group.group f cs f' cs' f'' cs'' =>
    exact ⟨BEq.trans h.1 h'.1, sameList_trans cs cs' cs'' h.2 h'.2⟩

theorem sameList_trans [PartialEquivBEq α] (es es' es'' : List (Element α))
    (h : sameList es es' = true) (h' : sameList es' es'' = true) : sameList es es'' = true := by
  match es, es', es'' with
  | [], [], _ => exact h'
  | [], _ :: _, _ | _ :: _, [], _ => simp [sameList] at h
  | _ :: _, _ :: _, [] => simp [sameList] at h'
  | e :: es, e' :: es', e'' :: es'' =>
    simp only [sameList, Bool.and_eq_true] at h h' ⊢
    exact ⟨same_trans e e' e'' h.1 h'.1, sameList_trans es es' es'' h.2 h'.2⟩

end

instance [PartialEquivBEq α] : PartialEquivBEq (Element α) where
  symm := same_symm _ _
  trans := same_trans _ _ _

mutual

theorem nesting_eq_of_same (e e' : Element α) (h : same e e' = true) :
    nesting e = nesting e' := by
  cases e <;> cases e' <;> simp only [same, Bool.and_eq_true, Bool.false_eq_true] at h
  case group.group f cs f' cs' => rw [nesting, nesting, nestingOf_eq_of_sameList cs cs' h.2]
  all_goals rfl

theorem nestingOf_eq_of_sameList (es es' : List (Element α))
    (h : sameList es es' = true) : nestingOf es = nestingOf es' := by
  match es, es' with
  | [], [] => rfl
  | [], _ :: _ | _ :: _, [] => simp [sameList] at h
  | e :: es, e' :: es' =>
    simp only [sameList, Bool.and_eq_true] at h
    rw [nestingOf, nestingOf, nesting_eq_of_same e e' h.1, nestingOf_eq_of_sameList es es' h.2]

end

end Element

instance Document.instPartialEquivBEq [PartialEquivBEq α] : PartialEquivBEq (Document α) :=
  partialEquivBEq_of_comap (fun d => (d.elements, d.selected, d.viewport)) fun _ _ => rfl

theorem Document.beq_iff {d d' : Document α} :
    (d == d') = true ↔
      (d.elements == d'.elements) = true ∧ d.selected = d'.selected ∧
        (d.viewport == d'.viewport) = true := by
  change (d.elements == d'.elements && (d.selected == d'.selected && d.viewport == d'.viewport))
    = true ↔ _
  simp only [Bool.and_eq_true, beq_iff_eq]

/-- Two documents show the same: they may differ in what is selected. -/
def Document.ShowsSame (d d' : Document α) : Prop :=
  (d.elements == d'.elements) = true ∧ (d.viewport == d'.viewport) = true

namespace Document.ShowsSame

variable {d d' d'' : Document α}

theorem of_beq (h : (d == d') = true) : d.ShowsSame d' :=
  have ⟨helements, _, hviewport⟩ := Document.beq_iff.mp h
  ⟨helements, hviewport⟩

theorem of_eq (he : d.elements = d'.elements) (hv : d.viewport = d'.viewport)
    (h : (d' == d') = true) : d.ShowsSame d' := by
  unfold ShowsSame
  rw [he, hv]
  exact of_beq h

theorem nesting_eq (h : d.ShowsSame d') :
    Element.nestingOf d.elements = Element.nestingOf d'.elements := by
  refine Element.nestingOf_eq_of_sameList _ _ ?_
  rw [Element.sameList_eq_beq]
  exact h.1

theorem symm [PartialEquivBEq α] (h : d.ShowsSame d') : d'.ShowsSame d :=
  ⟨BEq.symm h.1, BEq.symm h.2⟩

theorem trans [PartialEquivBEq α] (h : d.ShowsSame d') (h' : d'.ShowsSame d'') :
    d.ShowsSame d'' :=
  ⟨BEq.trans h.1 h'.1, BEq.trans h.2 h'.2⟩

end Document.ShowsSame

end Whiteboard

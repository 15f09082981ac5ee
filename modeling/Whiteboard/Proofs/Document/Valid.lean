import Whiteboard.Proofs.Document.Numbers
import Whiteboard.Proofs.Document.Reading

/-!
# Valid documents

What holds of all that was read: sides are not negative, rotations are normalized, curves lie
between -1 and 1, and scales are positive (`Element.valid_of_ofJson`).
-/

namespace Whiteboard

variable {α : Type} [Scalar α]

/-- Frames as they come out of the checks of readers. -/
structure Frame.Valid (f : Frame α) : Prop where
  width_nonneg : 0 ≤ f.width
  height_nonneg : 0 ≤ f.height
  normal : Scalar.normalizeAngle f.rotation = f.rotation

def Shape.Valid (s : Shape α) : Prop := ∀ c ∈ s.curve, -1 ≤ c ∧ c ≤ 1

inductive Element.Valid : Element α → Prop where
  | shape {f : Frame α} {k : ShapeKind} {s : Shape α} : f.Valid → s.Valid → Valid (.shape f k s)
  | image {f : Frame α} {i : Image} : f.Valid → Valid (.image f i)
  | text {f : Frame α} {t : TextBlock α} : f.Valid → Valid (.text f t)
  | group {f : Frame α} {cs : List (Element α)} :
      f.Valid → (∀ c ∈ cs, Valid c) → Valid (.group f cs)

def Viewport.Valid (v : Viewport α) : Prop := 0 < v.scale

instance (v : Viewport α) : Decidable v.Valid := inferInstanceAs (Decidable (0 < v.scale))

structure Document.Valid (d : Document α) : Prop where
  elements : ∀ e ∈ d.elements, e.Valid
  viewport : d.viewport.Valid

namespace Element

theorem Valid.frame {e : Element α} (h : e.Valid) : e.frame.Valid := by
  cases h <;> assumption

theorem Valid.withFrame {e : Element α} (h : e.Valid) {f : Frame α} (hf : f.Valid) :
    (e.withFrame f).Valid := by
  cases h with
  | shape _ hs => exact .shape hf hs
  | image _ => exact .image hf
  | text _ => exact .text hf
  | group _ hcs => exact .group hf hcs

theorem Valid.children {e : Element α} (h : e.Valid) : ∀ c ∈ e.children, c.Valid := by
  cases h with
  | group _ hcs => exact hcs
  | _ => simp [Element.children]

end Element

/-! ## What is read is valid -/

open Schema

theorem Frame.valid_of_ofMembers [LawfulScalar α] {ms : Entries (Json α)} {f : Frame α}
    (h : ofMembers ms = .ok f)
    (hf : Json.AllMembers (fun x => Scalar.isFinite x = true) f.toMembers) : f.Valid := by
  revert f
  simp only [ofMembers, Checked.forall_seq, Checked.forall_map]
  intro _ _ _ _ _ _ width hwidth height hheight rotation hrotation _ _ hf
  have zero_le : (0 : α) ≤ 0 := Scalar.ofNat_nonneg (by decide)
  simp [Frame.toMembers] at hf
  refine ⟨?_, ?_, ?_⟩
  · exact withDefault_of_forall (P := fun x => 0 ≤ x) zero_le (fun _ _ => le_of_atLeast) hwidth
  · exact withDefault_of_forall (P := fun x => 0 ≤ x) zero_le (fun _ _ => le_of_atLeast) hheight
  · refine withDefault_of_forall
      (P := fun x => Scalar.isFinite x = true → Scalar.normalizeAngle x = x)
      (fun _ => Scalar.normalizeAngle_zero) (fun v x hx hfin => ?_) hrotation hf.2.2.2.2
    obtain ⟨y, -, rfl⟩ := Checked.map_eq_ok_iff.mp hx
    exact Scalar.normalizeAngle_normalizeAngle hfin

theorem Shape.valid_of_ofMembers {ms : Entries (Json α)} {s : Shape α}
    (h : ofMembers ms = .ok s) : s.Valid := by
  revert s
  simp only [ofMembers, Checked.forall_seq, Checked.forall_map]
  intro _ _ _ _ _ _ _ _ _ _ _ _ _ _ _ _ _ _ _ _ _ _ curve hcurve _ _ _ _
  have hnone : ∀ c ∈ (none : Option α), -1 ≤ c ∧ c ≤ 1 := nofun
  exact withDefault_of_forall (P := fun o => ∀ c ∈ o, -1 ≤ c ∧ c ≤ 1) hnone
    (fun _ _ ho => optional_of_forall (fun _ _ => mem_of_between) ho) hcurve

theorem Viewport.valid_of_ofMembers [LawfulScalar α] {ms : Entries (Json α)} {w : Viewport α}
    (h : ofMembers ms = .ok w) : w.Valid := by
  revert w
  simp only [ofMembers, Checked.forall_seq, Checked.forall_map]
  intro _ _ _ _ scale hscale
  exact withDefault_of_forall (P := fun x => 0 < x) (Scalar.ofNat_pos (by decide) (by decide))
    (fun _ _ => lt_of_above) hscale

theorem Viewport.valid_of_ofJson [LawfulScalar α] {v : Json α} {w : Viewport α}
    (h : ofJson v = .ok w) : w.Valid := by
  obtain ⟨ms, -, h⟩ := Checked.andThen_eq_ok_iff.mp h
  exact valid_of_ofMembers h

namespace Element

/-- What is read of an element, its kind being known. -/
theorem ofJson_obj_eq_ok {room : Nat} {ms : Entries (Json α)} {e : Element α}
    (h : ofJson room (.obj ms) = .ok e) :
    ∃ f, Frame.ofMembers ms = .ok f ∧
      ((∃ k s, Shape.ofMembers ms = .ok s ∧ e = .shape f k s) ∨ (∃ i, e = .image f i) ∨
        (∃ t, e = .text f t) ∨
        ∃ cs, room ≠ 0 ∧ childrenOf (room - 1) ms = .ok cs ∧ e = .group f cs) := by
  rw [ofJson] at h
  split at h
  · contradiction
  · next k hk =>
    rw [Checked.under_eq_ok_iff] at h
    cases k with
    | shape k =>
      simp only [Checked.seq_eq_ok_iff, Checked.map_eq_ok_iff] at h
      obtain ⟨_, s, ⟨f, hf, rfl⟩, hs, rfl⟩ := h
      exact ⟨f, hf, .inl ⟨k, s, hs, rfl⟩⟩
    | image =>
      simp only [Checked.seq_eq_ok_iff, Checked.map_eq_ok_iff] at h
      obtain ⟨_, i, ⟨f, hf, rfl⟩, -, rfl⟩ := h
      exact ⟨f, hf, .inr (.inl ⟨i, rfl⟩)⟩
    | text =>
      simp only [Checked.seq_eq_ok_iff, Checked.map_eq_ok_iff] at h
      obtain ⟨_, t, ⟨f, hf, rfl⟩, -, rfl⟩ := h
      exact ⟨f, hf, .inr (.inr (.inl ⟨t, rfl⟩))⟩
    | group =>
      dsimp only at h
      split at h
      · contradiction
      · next hroom =>
        simp only [Checked.seq_eq_ok_iff, Checked.map_eq_ok_iff] at h
        obtain ⟨_, cs, ⟨f, hf, rfl⟩, hcs, rfl⟩ := h
        exact ⟨f, hf, .inr (.inr (.inr ⟨cs, hroom, hcs, rfl⟩))⟩

mutual

/-- Elements that are read are valid. -/
theorem valid_of_ofJson [LawfulScalar α] (room : Nat) (v : Json α) (e : Element α)
    (h : ofJson room v = .ok e) (hfin : e.Finite) : e.Valid := by
  cases v with
  | obj ms =>
    obtain ⟨f, hf, h⟩ := ofJson_obj_eq_ok h
    rcases h with ⟨k, s, hs, rfl⟩ | ⟨i, rfl⟩ | ⟨t, rfl⟩ | ⟨cs, -, hcs, rfl⟩
    · exact .shape (Frame.valid_of_ofMembers hf (all_frame hfin)) (Shape.valid_of_ofMembers hs)
    · exact .image (Frame.valid_of_ofMembers hf (all_frame hfin))
    · exact .text (Frame.valid_of_ofMembers hf (all_frame hfin))
    · exact .group (Frame.valid_of_ofMembers hf (all_frame hfin))
        (valid_of_childrenOf (room - 1) ms cs hcs (finite_group hfin))
  | _ => simp [ofJson, Checked.fail] at h

theorem valid_of_childrenOf [LawfulScalar α] (room : Nat) (ms : List (String × Json α))
    (cs : List (Element α)) (h : childrenOf room ms = .ok cs)
    (hfin : ∀ c ∈ cs, c.Finite) : ∀ c ∈ cs, c.Valid := by
  match ms with
  | [] =>
    cases h
    simp
  | (k, v) :: rest =>
    rw [childrenOf.eq_def] at h
    dsimp only at h
    split at h
    · cases v with
      | arr items => exact valid_of_ofJsons room 0 items cs (Checked.under_eq_ok_iff.mp h) hfin
      | _ => simp [Checked.fail] at h
    · exact valid_of_childrenOf room rest cs h hfin

theorem valid_of_ofJsons [LawfulScalar α] (room start : Nat) (vs : List (Json α))
    (cs : List (Element α)) (h : ofJsons room start vs = .ok cs)
    (hfin : ∀ c ∈ cs, c.Finite) : ∀ c ∈ cs, c.Valid := by
  match vs with
  | [] =>
    cases h
    simp
  | v :: rest =>
    simp only [ofJsons, Checked.seq_eq_ok_iff, Checked.map_eq_ok_iff, Checked.under_eq_ok_iff] at h
    obtain ⟨_, cs, ⟨c, hc, rfl⟩, hcs, rfl⟩ := h
    rw [List.forall_mem_cons] at hfin ⊢
    exact ⟨valid_of_ofJson room v c hc hfin.1, valid_of_ofJsons room (start + 1) rest cs hcs hfin.2⟩

end

end Element

end Whiteboard

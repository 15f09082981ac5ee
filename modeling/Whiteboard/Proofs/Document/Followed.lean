import Whiteboard.Proofs.Document.Rebinding
import Whiteboard.Proofs.Document.Roster

/-!
# What changes leave alone

An arrow that is given a new geometry lies there and stays bound as it was
(`Element.arrow_of_apply`). Changes that do not speak of the box of an element leave it where it is
(`Element.box_of_apply`).
-/

namespace Whiteboard

variable {α : Type}

open Schema

theorem Schema.withDefault_of_get? {β : Type} {key : String} {default : β}
    {read : Json α → Checked β} {ms : Entries (Json α)} {v : Json α}
    (h : Entries.get? key ms = some v) :
    withDefault key default read ms = (read v).under key := by
  rw [withDefault, h]

variable [Scalar α]

theorem Schema.eq_of_atLeast {low x y : α} (h : atLeast low (.num x) = .ok y) : x = y :=
  (notBelow_eq_ok_iff.mp h).2

/-- A frame lies where its members say. -/
theorem Frame.box_of_ofMembers {ms : Entries (Json α)} {f : Frame α} {b : Box α}
    (hx : Entries.get? "x" ms = some (.num b.x)) (hy : Entries.get? "y" ms = some (.num b.y))
    (hwidth : Entries.get? "width" ms = some (.num b.width))
    (hheight : Entries.get? "height" ms = some (.num b.height))
    (h : ofMembers ms = .ok f) : f.box = b := by
  revert f
  simp only [ofMembers, Checked.forall_seq, Checked.forall_map, withDefault_of_get? hx,
    withDefault_of_get? hy, withDefault_of_get? hwidth, withDefault_of_get? hheight,
    Checked.under_eq_ok_iff]
  intro _ _ x hx y hy width hwidth height hheight _ _ _ _
  cases hx
  cases hy
  obtain rfl := eq_of_atLeast hwidth
  obtain rfl := eq_of_atLeast hheight
  rfl

/-- The sides of a frame are read from its members. -/
theorem Frame.sides_of_ofMembers {ms : Entries (Json α)} {f : Frame α} (h : ofMembers ms = .ok f) :
    withDefault "width" 0 (atLeast 0) ms = .ok f.width ∧
      withDefault "height" 0 (atLeast 0) ms = .ok f.height := by
  revert f
  simp only [ofMembers, Checked.forall_seq, Checked.forall_map]
  intro _ _ _ _ _ _ _ hwidth _ hheight _ _ _ _
  exact ⟨hwidth, hheight⟩

/-- The ends of an arrow. -/
theorem Shape.ends_of_ofMembers {ms : Entries (Json α)} {s : Shape α}
    {start finish : Option (Point α)}
    (hstart : Entries.get? "arrow_start" ms = some (.ofOption Point.toJson start))
    (hfinish : Entries.get? "arrow_end" ms = some (.ofOption Point.toJson finish))
    (h : ofMembers ms = .ok s) : s.start = start ∧ s.finish = finish := by
  have hpoint (o : Option (Point α)) : optional Point.ofJson (.ofOption Point.toJson o) = .ok o :=
    optional_ofOption (fun _ => rfl) fun p _ => p.ofJson_toJson
  revert s
  simp only [ofMembers, Checked.forall_seq, Checked.forall_map, withDefault_of_get? hstart,
    withDefault_of_get? hfinish, hpoint, Checked.under_ok, Checked.ok.injEq]
  rintro _ _ _ _ _ _ _ _ _ _ _ _ _ _ _ rfl _ rfl _ _ _ _ _ _ _ _ _ _
  exact ⟨rfl, rfl⟩

/-- What the ends of an arrow are bound to. -/
theorem Shape.bindings_of_ofMembers {ms : Entries (Json α)} {s : Shape α}
    {startBinding finishBinding : Option Binding}
    (hstart : Entries.get? "start_binding" ms = some (.ofOption Binding.toJson startBinding))
    (hfinish : Entries.get? "end_binding" ms = some (.ofOption Binding.toJson finishBinding))
    (h : ofMembers ms = .ok s) :
    s.startBinding = startBinding ∧ s.finishBinding = finishBinding := by
  have hbinding (o : Option Binding) :
      optional Binding.ofJson (.ofOption Binding.toJson o : Json α) = .ok o :=
    optional_ofOption (fun _ => rfl) fun b _ => b.ofJson_toJson
  revert s
  simp only [ofMembers, Checked.forall_seq, Checked.forall_map, withDefault_of_get? hstart,
    withDefault_of_get? hfinish, hbinding, Checked.under_ok, Checked.ok.injEq]
  rintro _ _ _ _ _ _ _ _ _ _ _ _ _ _ _ _ _ _ _ _ _ _ _ _ _ rfl _ rfl
  exact ⟨rfl, rfl⟩

namespace Changes

variable {changes changes' : Changes α}

theorem mem_of_mem_putEnd {key : String} {p : Option (Point α)} {sx sy : α} {m : String × Json α}
    (h : m ∈ putEnd key p sx sy changes) : m.1 = key ∨ m ∈ changes := by
  unfold putEnd at h
  split at h
  · split at h
    · exact .inr h
    · exact (Entries.mem_of_mem_set h).imp_left (congrArg Prod.fst)
  · exact .inr h

theorem mem_of_mem_completed {e : Element α} (h : completed e changes = .ok changes')
    {m : String × Json α} (hm : m ∈ changes') :
    m.1 ∈ completedFields ∨ m ∈ changes := by
  unfold completed at h
  split at h
  · next f s =>
    obtain ⟨sx, sy, rfl⟩ := exists_of_putEnds h
    rcases mem_of_mem_putEnd hm with hend | hm
    · exact .inl (hend ▸ by decide)
    · rcases mem_of_mem_putEnd hm with hstart | hm
      · exact .inl (hstart ▸ by decide)
      · exact .inr hm
  · next f t =>
    unfold putStyle at h
    split at h
    · cases h
      exact .inr hm
    · cases h
      exact .inr hm
    · cases h
      rcases Entries.mem_of_mem_set hm with rfl | hm
      · exact .inl (show "style" ∈ completedFields by decide)
      · exact .inr hm
    · contradiction
  · cases h
    exact .inr hm

/-- The geometry of an arrow tells both its ends, so that nothing is put in. -/
theorem completed_toChanges {f : Frame α} {s : Shape α} {g : ArrowGeometry α}
    (h : completed (.shape f .arrow s) (Entries.erase "id" g.toChanges) = .ok changes') :
    changes' = g.toChanges := by
  obtain ⟨sx, sy, rfl⟩ := exists_of_putEnds h
  have hkept : Entries.erase "id" g.toChanges = g.toChanges := rfl
  have hput (key : String) (p : Option (Point α)) (hkey : Entries.has key g.toChanges = true) :
      putEnd key p sx sy g.toChanges = g.toChanges := by
    unfold putEnd
    split
    · exact if_pos hkey
    · rfl
  rw [hkept, hput "arrow_start" _ rfl, hput "arrow_end" _ rfl]

/-- Changes that do not make an element one of another kind. -/
def KeepsKind (changes : Changes α) (e : Element α) : Prop :=
  ∀ v, ("type", v) ∈ changes → v = .str (Named.name e.kind)

end Changes

namespace Element

variable {ids ids' : IdSupply} {e e' : Element α} {changes : Changes α}

omit [Scalar α] in
theorem get?_type_toMembers (e : Element α) :
    Entries.get? "type" e.toMembers = some (.str (Named.name e.kind)) := by
  cases e <;> rfl

theorem kind_of_apply (h : e.apply ids changes = (.ok e', ids')) (hkind : changes.KeepsKind e) :
    e'.kind = e.kind := by
  obtain ⟨changes', ms, hcompleted, hkeys, hread⟩ := ofJson_of_apply h
  have hmerged : ∀ v, Entries.get? "type" (Entries.merge e.toMembers changes') = some v →
      v = .str (Named.name e.kind) := by
    intro v hv
    rcases Entries.get?_merge hv with hmem | hbase
    · rcases Changes.mem_of_mem_completed hcompleted hmem with hkey | hmem
      · exact absurd hkey (show "type" ∉ Changes.completedFields by decide)
      · exact hkind v (List.mem_filter.mp hmem).1
    · rw [get?_type_toMembers] at hbase
      cases hbase
      rfl
  have hread := kind_of_ofJson hread
  rw [kindOf, hkeys "type" (by decide)] at hread
  cases hv : Entries.get? "type" (Entries.merge e.toMembers changes') with
  | none =>
    rw [hv] at hread
    contradiction
  | some v =>
    rw [hv, hmerged v hv] at hread
    simp only [ElementKind.ofName?_name, Except.ok.injEq] at hread
    exact hread.symm

omit [Scalar α] in
theorem get?_box_toMembers (e : Element α) :
    Entries.get? "x" e.toMembers = some (.num e.frame.box.x) ∧
      Entries.get? "y" e.toMembers = some (.num e.frame.box.y) ∧
      Entries.get? "width" e.toMembers = some (.num e.frame.box.width) ∧
      Entries.get? "height" e.toMembers = some (.num e.frame.box.height) := by
  cases e <;> exact ⟨rfl, rfl, rfl, rfl⟩

theorem box_of_apply (h : e.apply ids changes = (.ok e', ids'))
    (hstill : ∀ m ∈ changes, m.1 ∉ Batch.geometryFields) : e'.frame.box = e.frame.box := by
  obtain ⟨changes', ms, hcompleted, hkeys, hread⟩ := ofJson_of_apply h
  have hkept (key : String) (hkey : key ∈ Batch.geometryFields)
      (hfields : key ∉ "children" :: "id" :: Changes.completedFields) :
      Entries.get? key ms = Entries.get? key e.toMembers := by
    rw [List.mem_cons, not_or] at hfields
    rw [hkeys key (Ne.symm hfields.1)]
    refine get?_merge_completed hfields.2 ?_ hcompleted
    exact Entries.get?_eq_none_of_forall fun m hm heq => hstill m hm (heq ▸ hkey)
  obtain ⟨hx, hy, hwidth, hheight⟩ := e.get?_box_toMembers
  refine Frame.box_of_ofMembers ?_ ?_ ?_ ?_ (frame_of_ofJson hread)
  · rw [hkept "x" (by decide) (by decide), hx]
  · rw [hkept "y" (by decide) (by decide), hy]
  · rw [hkept "width" (by decide) (by decide), hwidth]
  · rw [hkept "height" (by decide) (by decide), hheight]

/-- What is read of an element that turns out to be a shape. -/
theorem exists_shape_of_ofJson {room : Nat} {ms : Entries (Json α)} {k : ShapeKind}
    (h : ofJson room (.obj ms) = .ok e) (hkind : e.kind = .shape k) :
    ∃ f s, e = shape f k s ∧ Frame.ofMembers ms = .ok f ∧ Shape.ofMembers ms = .ok s := by
  obtain ⟨f, hf, ⟨k', s, hs, rfl⟩ | ⟨i, rfl⟩ | ⟨t, rfl⟩ | ⟨cs, -, -, rfl⟩⟩ := ofJson_obj_eq_ok h
  · cases hkind
    exact ⟨f, s, rfl, hf, hs⟩
  · contradiction
  · contradiction
  · contradiction

/-- An arrow takes over a new geometry, and nothing else changes that matters to its ends. -/
theorem arrow_of_apply {f : Frame α} {s : Shape α} {g : ArrowGeometry α}
    (h : (shape f .arrow s).apply ids g.toChanges = (.ok e', ids')) :
    ∃ s', e'.arrow? = some s' ∧ e'.frame.box = g.box ∧ s'.start = some g.start ∧
      s'.finish = some g.finish ∧ s'.startBinding = s.startBinding ∧
      s'.finishBinding = s.finishBinding := by
  have hkind := kind_of_apply h fun v hv => by simp [ArrowGeometry.toChanges] at hv
  obtain ⟨changes', ms, hcompleted, hkeys, hread⟩ := ofJson_of_apply h
  rw [Changes.completed_toChanges hcompleted] at hkeys
  have hmerged (key : String) : Entries.get? key (Entries.merge (shape f .arrow s).toMembers
      g.toChanges) = (Entries.get? key g.toChanges).or
        (Entries.get? key (shape f .arrow s).toMembers) :=
    Entries.get?_merge_of_nodup (by simp [ArrowGeometry.toChanges, Entries.keys])
  obtain ⟨f', s', rfl, hf, hs⟩ := exists_shape_of_ofJson hread hkind
  have hbox : f'.box = g.box := by
    refine Frame.box_of_ofMembers ?_ ?_ ?_ ?_ hf <;>
    · rw [hkeys _ (by decide), hmerged]
      rfl
  have hends : s'.start = some g.start ∧ s'.finish = some g.finish := by
    refine Shape.ends_of_ofMembers ?_ ?_ hs <;>
    · rw [hkeys _ (by decide), hmerged]
      rfl
  have hbindings : s'.startBinding = s.startBinding ∧ s'.finishBinding = s.finishBinding := by
    refine Shape.bindings_of_ofMembers ?_ ?_ hs <;>
    · rw [hkeys _ (by decide), hmerged]
      rfl
  exact ⟨s', rfl, hbox, hends.1, hends.2, hbindings⟩

end Element

end Whiteboard

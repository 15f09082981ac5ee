import Whiteboard.Proofs.Document.Apply
import Whiteboard.Proofs.Document.RoundTrip

/-!
# Placed elements

Changes that place an element anew tell its position, sides that are not negative, and the ends of
an arrow. A valid element never refuses them (`Element.apply_of_places`).
-/

namespace Whiteboard

namespace Checked

variable {β γ : Type}

@[simp]
theorem isOk_map (f : β → γ) (x : Checked β) : (f <$> x).isOk = x.isOk := by
  cases x <;> rfl

@[simp]
theorem isOk_seq (f : Checked (β → γ)) (x : Checked β) : (f <*> x).isOk = (f.isOk && x.isOk) := by
  cases f <;> cases x <;> rfl

@[simp]
theorem isOk_under (segment : String) (x : Checked β) : (x.under segment).isOk = x.isOk := by
  cases x <;> rfl

theorem isOk_iff {x : Checked β} : x.isOk = true ↔ ∃ v, x = ok v := by
  cases x <;> simp [isOk]

end Checked

variable {α : Type}

/-! ## Names -/

namespace Element

/-- Where the children have ids, nothing is named. -/
theorem nameChildren_eq_self {room : Nat} {s : IdSupply} {ms : Entries (Json α)}
    (h : ∀ items, Entries.get? "children" ms = some (.arr items) →
      nameAll room s items = (items, s)) : nameChildren room s ms = (ms, s) := by
  induction ms with
  | nil => rw [nameChildren]
  | cons m rest ih =>
    obtain ⟨k, v⟩ := m
    rw [nameChildren.eq_def]
    dsimp only
    split
    · next hk =>
      subst hk
      split
      · next items =>
        rw [h items (by simp [Entries.get?])]
      · rfl
    · next hk =>
      rw [ih fun items hitems => h items (by rw [Entries.get?, if_neg hk, hitems])]

/-- Members with an id whose children have ids stay. -/
theorem nameMissing_obj {room : Nat} {s : IdSupply} {ms : Entries (Json α)} {v : Json α}
    (hid : Entries.get? "id" ms = some v)
    (h : ∀ items, Entries.get? "children" ms = some (.arr items) →
      nameAll (room - 1) s items = (items, s)) : nameMissing room s (.obj ms) = (.obj ms, s) := by
  have hown : missingId s ms = ([], s) := if_pos (by rw [Entries.has, hid]; rfl)
  rw [nameMissing.eq_def]
  dsimp only
  split
  · rfl
  · split
    · rfl
    · rw [hown]
      split
      · simp only [nameChildren_eq_self h, List.append_nil]
      · rw [List.append_nil]

theorem toJson_eq (e : Element α) : e.toJson = .obj e.toMembers := by
  cases e <;> rfl

theorem get?_children_toMembers {e : Element α} {v : Json α}
    (h : Entries.get? "children" e.toMembers = some v) : v = .arr (toJsons e.children) := by
  cases e <;>
    simp [toMembers, toJson, Frame.toMembers, kindMember, Shape.toMembers, Image.toMembers,
      TextBlock.toMembers, Entries.get?, children] at h ⊢
  exact h.symm

mutual

/-- What was written has ids. -/
theorem nameMissing_toJson (room : Nat) (s : IdSupply) (e : Element α) :
    nameMissing room s e.toJson = (e.toJson, s) := by
  rw [toJson_eq]
  refine nameMissing_obj (get?_id_toMembers e) fun items hitems => ?_
  have hchildren := get?_children_toMembers hitems
  cases e with
  | group f cs =>
    cases hchildren
    exact nameAll_toJsons (room - 1) s cs
  | _ =>
    cases hchildren
    change nameAll (room - 1) s [] = ([], s)
    rw [nameAll]

theorem nameAll_toJsons (room : Nat) (s : IdSupply) (es : List (Element α)) :
    nameAll room s (toJsons es) = (toJsons es, s) := by
  cases es with
  | nil => rw [toJsons, nameAll]
  | cons e es =>
    rw [toJsons, nameAll]
    simp only [nameMissing_toJson room s e, nameAll_toJsons room s es]

end

end Element

/-! ## Changes of place and size -/

variable [Scalar α]

/-- The fields that place an element. -/
def placingFields : List String := ["x", "y", "width", "height", "arrow_start", "arrow_end"]

/-- Members that place an element. -/
inductive Placing : String × Json α → Prop where
  | position {key : String} {n : α} : key = "x" ∨ key = "y" → Placing (key, .num n)
  | side {key : String} {n : α} : key = "width" ∨ key = "height" → 0 ≤ n → Placing (key, .num n)
  | finish {key : String} {p : Point α} : key = "arrow_start" ∨ key = "arrow_end" →
      Placing (key, p.toJson)

/-- Changes that place an element. -/
def Changes.Places (changes : Changes α) : Prop := ∀ m ∈ changes, Placing m

theorem Placing.mem {key : String} {v : Json α} (h : Placing (key, v)) : key ∈ placingFields := by
  cases h with
  | position hkey | side hkey | finish hkey => rcases hkey with rfl | rfl <;> decide

theorem Placing.isOk_position {key : String} {v : Json α} (h : Placing (key, v))
    (hkey : key = "x" ∨ key = "y") : (Schema.number v).isOk = true := by
  cases h with
  | position | side => rfl
  | finish hkey' => rcases hkey with rfl | rfl <;> simp at hkey'

theorem Placing.isOk_side {key : String} {v : Json α} (h : Placing (key, v))
    (hkey : key = "width" ∨ key = "height") : (Schema.atLeast 0 v).isOk = true := by
  cases h with
  | position hkey' | finish hkey' => rcases hkey with rfl | rfl <;> simp at hkey'
  | side _ hn =>
    rw [Schema.atLeast, Schema.number_num, Checked.andThen_ok, Schema.notBelow, if_pos hn]
    rfl

theorem Placing.isOk_finish {key : String} {v : Json α} (h : Placing (key, v))
    (hkey : key = "arrow_start" ∨ key = "arrow_end") :
    (Schema.optional Point.ofJson v).isOk = true := by
  cases h with
  | position hkey' | side hkey' => rcases hkey with rfl | rfl <;> simp at hkey'
  | finish => rfl

namespace Changes.Places

variable {changes : Changes α}

theorem get?_eq_none (h : changes.Places) {key : String} (hkey : key ∉ placingFields) :
    Entries.get? key changes = none := by
  cases hv : Entries.get? key changes with
  | none => rfl
  | some v => exact absurd (h _ (Entries.mem_of_get? hv)).mem hkey

theorem erase (h : changes.Places) (key : String) : Places (Entries.erase key changes) :=
  fun m hm => h m (List.mem_filter.mp hm).1

theorem putEnd (h : changes.Places) {key : String} (hkey : key = "arrow_start" ∨ key = "arrow_end")
    (p : Option (Point α)) (sx sy : α) : Places (Changes.putEnd key p sx sy changes) := by
  unfold Changes.putEnd
  split
  · split
    · exact h
    · intro m hm
      rcases Entries.mem_of_mem_set hm with rfl | hm
      · exact .finish hkey
      · exact h m hm
  · exact h

/-- A size that is told is a number. -/
theorem growth_ok (h : changes.Places) {key : String} (hkey : key = "width" ∨ key = "height")
    (old : α) : ∃ s, growth key old changes = .ok s := by
  unfold growth
  split
  · exact ⟨1, rfl⟩
  · cases hv : Entries.get? key changes with
    | none => exact ⟨1, rfl⟩
    | some v =>
      cases h _ (Entries.mem_of_get? hv) with
      | position | side => exact ⟨_, rfl⟩
      | finish hkey' => rcases hkey with rfl | rfl <;> simp at hkey'

/-- What places an element is completed to what does. -/
theorem completed_ok (h : changes.Places) (e : Element α) :
    ∃ changes', completed e changes = .ok changes' ∧ changes'.Places := by
  unfold completed
  split
  · next f s =>
    obtain ⟨sx, hx⟩ := h.growth_ok (.inl rfl) f.width
    obtain ⟨sy, hy⟩ := h.growth_ok (.inr rfl) f.height
    refine ⟨_, by rw [putEnds, hx, hy]; rfl, ?_⟩
    exact (h.putEnd (.inl rfl) s.start sx sy).putEnd (.inr rfl) s.finish sx sy
  · refine ⟨changes, ?_, h⟩
    rw [putStyle, h.get?_eq_none (by decide)]
  · exact ⟨changes, rfl, h⟩

end Changes.Places

/-! ## Merged members -/

section Merge

variable {base changes : Entries (Json α)} (h : Changes.Places changes)

open Schema Checked

include h

theorem Schema.isOk_withDefault_merge {β : Type} {key : String} {default : β}
    {read : Json α → Checked β} (hr : ∀ v, Placing (key, v) → (read v).isOk = true)
    (hb : (withDefault key default read base).isOk = true) :
    (withDefault key default read (Entries.merge base changes)).isOk = true := by
  unfold withDefault at hb ⊢
  split
  · next v hv =>
    rw [isOk_under]
    rcases Entries.get?_merge hv with hv | hv
    · exact hr v (h _ hv)
    · rw [hv] at hb
      rwa [isOk_under] at hb
  · rfl

/-- Fields that do not place an element stay. -/
theorem Schema.withDefault_merge (key : String) (hkey : key ∉ placingFields) {β : Type}
    {default : β} {read : Json α → Checked β} :
    withDefault key default read (Entries.merge base changes)
      = withDefault key default read base := by
  unfold withDefault
  rw [Entries.get?_merge_of_eq_none (h.get?_eq_none hkey)]

theorem Schema.required_merge {β : Type} {key : String} {read : Json α → Checked β}
    (hkey : key ∉ placingFields) :
    required key read (Entries.merge base changes) = required key read base := by
  unfold required
  rw [Entries.get?_merge_of_eq_none (h.get?_eq_none hkey)]

theorem Frame.isOk_merge (hb : (Frame.ofMembers base).isOk = true) :
    (Frame.ofMembers (Entries.merge base changes)).isOk = true := by
  simp only [Frame.ofMembers, isOk_seq, isOk_map, Bool.and_eq_true] at hb ⊢
  obtain ⟨⟨⟨⟨⟨⟨hid, hx⟩, hy⟩, hwidth⟩, hheight⟩, hrotation⟩, hz⟩ := hb
  rw [required_merge h (by decide), withDefault_merge h "rotation" (by decide),
    withDefault_merge h "z_index" (by decide)]
  exact ⟨⟨⟨⟨⟨⟨hid, isOk_withDefault_merge h (fun v hv => hv.isOk_position (.inl rfl)) hx⟩,
    isOk_withDefault_merge h (fun v hv => hv.isOk_position (.inr rfl)) hy⟩,
    isOk_withDefault_merge h (fun v hv => hv.isOk_side (.inl rfl)) hwidth⟩,
    isOk_withDefault_merge h (fun v hv => hv.isOk_side (.inr rfl)) hheight⟩, hrotation⟩, hz⟩

theorem Shape.isOk_merge (hb : (Shape.ofMembers base).isOk = true) :
    (Shape.ofMembers (Entries.merge base changes)).isOk = true := by
  simp only [Shape.ofMembers, isOk_seq, isOk_map, Bool.and_eq_true] at hb ⊢
  obtain ⟨⟨⟨⟨⟨⟨⟨hlook, hstart⟩, hfinish⟩, hhead⟩, htail⟩, hcurve⟩, hbinding⟩, hbinding'⟩ := hb
  rw [withDefault_merge h "background_color" (by decide),
    withDefault_merge h "border_width" (by decide),
    withDefault_merge h "border_color" (by decide),
    withDefault_merge h "corner_radius" (by decide),
    withDefault_merge h "content" (by decide),
    withDefault_merge h "text_style" (by decide),
    withDefault_merge h "text_range_styles" (by decide),
    withDefault_merge h "arrow_head_size" (by decide),
    withDefault_merge h "arrow_tail_width" (by decide),
    withDefault_merge h "arrow_curve" (by decide),
    withDefault_merge h "start_binding" (by decide),
    withDefault_merge h "end_binding" (by decide)]
  exact ⟨⟨⟨⟨⟨⟨⟨hlook, isOk_withDefault_merge h (fun v hv => hv.isOk_finish (.inl rfl)) hstart⟩,
    isOk_withDefault_merge h (fun v hv => hv.isOk_finish (.inr rfl)) hfinish⟩, hhead⟩, htail⟩,
    hcurve⟩, hbinding⟩, hbinding'⟩

theorem Image.ofMembers_merge :
    Image.ofMembers (Entries.merge base changes) = Image.ofMembers base := by
  rw [Image.ofMembers, Image.ofMembers, required_merge h (by decide),
    withDefault_merge h "filter" (by decide)]

theorem TextBlock.ofMembers_merge :
    TextBlock.ofMembers (Entries.merge base changes) = TextBlock.ofMembers base := by
  rw [TextBlock.ofMembers, TextBlock.ofMembers, withDefault_merge h "content" (by decide),
    withDefault_merge h "style" (by decide),
    withDefault_merge h "range_styles" (by decide)]

theorem Element.kindOf_merge :
    Element.kindOf (Entries.merge base changes) = Element.kindOf base := by
  rw [Element.kindOf, Element.kindOf, Entries.get?_merge_of_eq_none (h.get?_eq_none (by decide))]

end Merge

namespace Element

/-- The children are read from the first member that has their name. -/
theorem childrenOf_eq (room : Nat) (ms : Entries (Json α)) :
    childrenOf room ms =
      match Entries.get? "children" ms with
      | none => .ok []
      | some (.arr items) => (ofJsons room 0 items).under "children"
      | some _ => (Checked.fail .listExpected).under "children" := by
  induction ms with
  | nil => rw [childrenOf, Entries.get?]
  | cons m rest ih =>
    obtain ⟨k, v⟩ := m
    rw [childrenOf.eq_def, Entries.get?]
    dsimp only
    split
    · next hk =>
      subst hk
      cases v <;> rfl
    · exact ih

/-- A valid element never refuses to be placed anew. -/
theorem apply_of_places {e : Element α} (he : e.Valid) (hroom : nesting e ≤ maxNesting)
    {changes : Changes α} (h : changes.Places) (ids : IdSupply) :
    ∃ e', e.apply ids changes = (.ok e', ids) := by
  obtain ⟨changes', hcompleted, hplaces⟩ := (h.erase "id").completed_ok e
  have hmerged (key : String) (hkey : key ∉ placingFields) :
      Entries.get? key (Entries.merge e.toMembers changes') = Entries.get? key e.toMembers :=
    Entries.get?_merge_of_eq_none (hplaces.get?_eq_none hkey)
  have hnamed : nameMissing maxNesting ids (.obj (Entries.merge e.toMembers changes'))
      = (.obj (Entries.merge e.toMembers changes'), ids) := by
    refine nameMissing_obj (hmerged "id" (by decide) ▸ get?_id_toMembers e) fun items hitems => ?_
    rw [hmerged "children" (by decide)] at hitems
    cases get?_children_toMembers hitems
    exact nameAll_toJsons (maxNesting - 1) ids e.children
  have hread : (ofJson maxNesting (.obj (Entries.merge e.toMembers changes'))).isOk = true := by
    rw [ofJson, kindOf_merge hplaces]
    cases he with
    | shape hf hs =>
      rw [toMembers, toJson, kindOf_append]
      simp only [Checked.isOk_under, Checked.isOk_seq, Checked.isOk_map, Bool.and_eq_true]
      exact ⟨Frame.isOk_merge hplaces (by rw [Frame.ofMembers_append hf]; rfl),
        Shape.isOk_merge hplaces (by rw [Shape.ofMembers_append hs]; rfl)⟩
    | image hf =>
      rw [toMembers, toJson, kindOf_append]
      simp only [Checked.isOk_under, Checked.isOk_seq, Checked.isOk_map, Bool.and_eq_true]
      exact ⟨Frame.isOk_merge hplaces (by rw [Frame.ofMembers_append hf]; rfl),
        by rw [Image.ofMembers_merge hplaces, Image.ofMembers_append]; rfl⟩
    | text hf =>
      rw [toMembers, toJson, kindOf_append]
      simp only [Checked.isOk_under, Checked.isOk_seq, Checked.isOk_map, Bool.and_eq_true]
      exact ⟨Frame.isOk_merge hplaces (by rw [Frame.ofMembers_append hf]; rfl),
        by rw [TextBlock.ofMembers_merge hplaces, TextBlock.ofMembers_append]; rfl⟩
    | @group f cs hf hcs =>
      have hchildren : childrenOf (maxNesting - 1) (Entries.merge (group f cs).toMembers changes')
          = .ok cs := by
        rw [nesting] at hroom
        have hcs' : ofJsons (maxNesting - 1) 0 (toJsons cs) = .ok cs := ofJsons_toJsons (fun c hc =>
          ofJson_toJson (hcs c hc) (by have := nesting_le_nestingOf hc; omega)) 0
        rw [childrenOf_eq, hmerged "children" (by decide)]
        exact Checked.under_eq_ok_iff.mpr hcs'
      rw [toMembers, toJson] at hchildren ⊢
      rw [kindOf_append]
      simp only [Checked.isOk_under]
      rw [if_neg (by decide), hchildren]
      simp only [Checked.isOk_seq, Checked.isOk_map, Bool.and_eq_true]
      exact ⟨Frame.isOk_merge hplaces (by rw [Frame.ofMembers_append hf]; rfl), rfl⟩
  obtain ⟨e', he'⟩ := Checked.isOk_iff.mp hread
  refine ⟨e', ?_⟩
  simp only [apply, hcompleted, read, hnamed, he']
  rfl

end Element

end Whiteboard

import Whiteboard.Proofs.Document.Valid

/-!
# Writing and reading documents

Valid documents whose groups are not nested too deep are read back as they were written
(`Document.reread_eq`).
-/

namespace Whiteboard

open Schema

variable {α : Type}

namespace Element

theorem kindOf_append (f : Frame α) (k : ElementKind) (ms : Entries (Json α)) :
    kindOf (f.toMembers ++ kindMember k ++ ms) = .ok k := by
  simp [kindOf, Frame.toMembers, kindMember, Entries.get?, ElementKind.ofName?_name]

theorem nestingOf_le_iff {es : List (Element α)} {n : Nat} :
    nestingOf es ≤ n ↔ ∀ e ∈ es, nesting e ≤ n := by
  induction es with
  | nil => simp [nestingOf]
  | cons e es ih => rw [nestingOf, Nat.max_le, ih, List.forall_mem_cons]

theorem nesting_le_nestingOf {es : List (Element α)} {e : Element α} (h : e ∈ es) :
    nesting e ≤ nestingOf es := nestingOf_le_iff.mp (Nat.le_refl _) e h

end Element

variable [Scalar α]

/-! ## Parts of elements -/

theorem Point.ofJson_toJson (p : Point α) : ofJson p.toJson = .ok p := rfl

theorem Binding.ofJson_toJson (b : Binding) : ofJson (b.toJson : Json α) = .ok b := by
  simp [ofJson, toJson, ofMembers, required, withDefault, Entries.get?,
    named_name (Anchor.ofName?_name _)]

theorem TextStyle.ofJson_toJson (s : TextStyle α) : ofJson s.toJson = .ok s := by
  have hbackground : optional Schema.text (.ofOption .str s.background : Json α)
      = .ok s.background := optional_ofOption (fun _ => rfl) fun _ _ => rfl
  simp [ofJson, toJson, toMembers, withDefault, Entries.get?, hbackground]

theorem RangeStyle.ofJson_toJson (r : RangeStyle α) : ofJson r.toJson = .ok r := by
  have htruth (o : Option Bool) : optional truth (.ofOption .bool o : Json α) = .ok o :=
    optional_ofOption (fun _ => rfl) fun _ _ => rfl
  have htext (o : Option String) : optional Schema.text (.ofOption .str o : Json α) = .ok o :=
    optional_ofOption (fun _ => rfl) fun _ _ => rfl
  have hnumber (o : Option α) : optional number (.ofOption .num o : Json α) = .ok o :=
    optional_ofOption (fun _ => rfl) fun _ _ => rfl
  simp [ofJson, toJson, required, withDefault, Entries.get?, htruth, htext, hnumber]

/-- A frame is read back with its rotation brought into a full turn. -/
theorem Frame.ofMembers_append_of_sides {f : Frame α} (hw : 0 ≤ f.width) (hh : 0 ≤ f.height)
    (k : ElementKind) (ms : Entries (Json α)) :
    ofMembers (f.toMembers ++ Element.kindMember k ++ ms)
      = .ok { f with rotation := Scalar.normalizeAngle f.rotation } := by
  simp [ofMembers, toMembers, Element.kindMember, required, withDefault, Entries.get?, atLeast,
    notBelow, hw, hh]

theorem Frame.ofMembers_append {f : Frame α} (h : f.Valid) (k : ElementKind)
    (ms : Entries (Json α)) : ofMembers (f.toMembers ++ Element.kindMember k ++ ms) = .ok f := by
  rw [ofMembers_append_of_sides h.width_nonneg h.height_nonneg, h.normal]

theorem Shape.ofMembers_append {s : Shape α} (h : s.Valid) (f : Frame α) (k : ElementKind) :
    ofMembers (f.toMembers ++ Element.kindMember k ++ s.toMembers) = .ok s := by
  have hcurve : optional (between (-1) 1) (.ofOption .num s.curve : Json α) = .ok s.curve :=
    optional_ofOption (fun _ => rfl) fun c hc => by
      obtain ⟨hlow, hhigh⟩ := h c hc
      simp [between, notBelow, hlow, hhigh]
  have htext (o : Option String) : optional Schema.text (.ofOption .str o : Json α) = .ok o :=
    optional_ofOption (fun _ => rfl) fun _ _ => rfl
  have hnumber (o : Option α) : optional number (.ofOption .num o : Json α) = .ok o :=
    optional_ofOption (fun _ => rfl) fun _ _ => rfl
  have hpoint (o : Option (Point α)) : optional Point.ofJson (.ofOption Point.toJson o) = .ok o :=
    optional_ofOption (fun _ => rfl) fun p _ => p.ofJson_toJson
  have hstyle (o : Option (TextStyle α)) :
      optional TextStyle.ofJson (.ofOption TextStyle.toJson o) = .ok o :=
    optional_ofOption (fun _ => rfl) fun t _ => t.ofJson_toJson
  have hbinding (o : Option Binding) :
      optional Binding.ofJson (.ofOption Binding.toJson o : Json α) = .ok o :=
    optional_ofOption (fun _ => rfl) fun b _ => b.ofJson_toJson
  have hranges : listOf RangeStyle.ofJson (.arr (s.ranges.map RangeStyle.toJson)) = .ok s.ranges :=
    listOf_arr fun r _ => r.ofJson_toJson
  simp [ofMembers, toMembers, Frame.toMembers, Element.kindMember, withDefault, Entries.get?, htext,
    hnumber, hpoint, hstyle, hbinding, hranges, hcurve]

theorem Image.ofMembers_append (i : Image) (f : Frame α) (k : ElementKind) :
    ofMembers (f.toMembers ++ Element.kindMember k ++ i.toMembers) = .ok i := by
  simp [ofMembers, toMembers, Frame.toMembers, Element.kindMember, required, withDefault,
    Entries.get?, named_name (ImageFilter.ofName?_name _)]

theorem TextBlock.ofMembers_append (t : TextBlock α) (f : Frame α) (k : ElementKind) :
    ofMembers (f.toMembers ++ Element.kindMember k ++ t.toMembers) = .ok t := by
  have hranges : listOf RangeStyle.ofJson (.arr (t.ranges.map RangeStyle.toJson)) = .ok t.ranges :=
    listOf_arr fun r _ => r.ofJson_toJson
  simp [ofMembers, toMembers, Frame.toMembers, Element.kindMember, withDefault, Entries.get?,
    hranges, TextStyle.ofJson_toJson]

/-! ## Elements -/

namespace Element

theorem childrenOf_append (room : Nat) (f : Frame α) (k : ElementKind) (vs : List (Json α)) :
    childrenOf room (f.toMembers ++ kindMember k ++ [("children", .arr vs)])
      = (ofJsons room 0 vs).under "children" := by
  simp [childrenOf, Frame.toMembers, kindMember]

theorem ofJsons_toJsons {room : Nat} {es : List (Element α)}
    (h : ∀ e ∈ es, ofJson room e.toJson = .ok e) (start : Nat) :
    ofJsons room start (toJsons es) = .ok es := by
  induction es generalizing start with
  | nil => rfl
  | cons e es ih =>
    rw [List.forall_mem_cons] at h
    rw [toJsons, ofJsons, h.1, ih h.2]
    rfl

/-- Valid elements are read back as they were written. -/
theorem ofJson_toJson {e : Element α} (h : e.Valid) {room : Nat} (hroom : nesting e ≤ room) :
    ofJson room e.toJson = .ok e := by
  induction h generalizing room with
  | shape hf hs =>
    rw [toJson, ofJson, kindOf_append]
    simp only [Frame.ofMembers_append hf, Shape.ofMembers_append hs, Checked.map_ok,
      Checked.seq_ok, Checked.under_ok]
  | image hf =>
    rw [toJson, ofJson, kindOf_append]
    simp only [Frame.ofMembers_append hf, Image.ofMembers_append, Checked.map_ok, Checked.seq_ok,
      Checked.under_ok]
  | text hf =>
    rw [toJson, ofJson, kindOf_append]
    simp only [Frame.ofMembers_append hf, TextBlock.ofMembers_append, Checked.map_ok,
      Checked.seq_ok, Checked.under_ok]
  | @group f cs hf hcs ih =>
    rw [nesting] at hroom
    have hchildren : ofJsons (room - 1) 0 (toJsons cs) = .ok cs :=
      ofJsons_toJsons (fun c hc => ih c hc (by have := nesting_le_nestingOf hc; omega)) 0
    rw [toJson, ofJson, kindOf_append]
    simp only [if_neg (show ¬ room = 0 by omega), Frame.ofMembers_append hf, childrenOf_append,
      hchildren, Checked.map_ok, Checked.seq_ok, Checked.under_ok]

mutual

/-- What is read back is nested no deeper than there is room. -/
theorem nesting_le_of_ofJson (room : Nat) (e e' : Element α) (h : ofJson room e.toJson = .ok e') :
    nesting e ≤ room := by
  cases e with
  | group f cs =>
    rw [toJson, ofJson, kindOf_append] at h
    dsimp only at h
    split at h
    · contradiction
    · next hroom =>
      rw [childrenOf_append, Checked.under_eq_ok_iff] at h
      obtain ⟨_, cs', -, hcs, -⟩ := Checked.seq_eq_ok_iff.mp h
      have := nestingOf_le_of_ofJsons (room - 1) 0 cs cs' (Checked.under_eq_ok_iff.mp hcs)
      rw [nesting]
      omega
  | _ => exact Nat.zero_le room

theorem nestingOf_le_of_ofJsons (room start : Nat) (es es' : List (Element α))
    (h : ofJsons room start (toJsons es) = .ok es') : nestingOf es ≤ room := by
  cases es with
  | nil => exact Nat.zero_le room
  | cons e es =>
    rw [toJsons, ofJsons] at h
    obtain ⟨_, es', hcons, hes, -⟩ := Checked.seq_eq_ok_iff.mp h
    obtain ⟨e', he, -⟩ := Checked.map_eq_ok_iff.mp hcons
    rw [nestingOf]
    exact Nat.max_le.mpr ⟨nesting_le_of_ofJson room e e' (Checked.under_eq_ok_iff.mp he),
      nestingOf_le_of_ofJsons room (start + 1) es es' hes⟩

end

end Element

/-! ## Documents -/

/-- Groups are nested no deeper than readers follow. -/
def Document.Writable (d : Document α) : Prop := Element.nestingOf d.elements ≤ Element.maxNesting

instance (d : Document α) : Decidable d.Writable :=
  inferInstanceAs (Decidable (Element.nestingOf d.elements ≤ Element.maxNesting))

theorem Viewport.ofJson_toJson {v : Viewport α} (h : v.Valid) : ofJson v.toJson = .ok v := by
  have hscale : (0 : α) < v.scale := h
  simp [ofJson, toJson, toMembers, ofMembers, withDefault, Entries.get?, above, hscale]

/-- Valid documents are read back as they were written. -/
theorem Document.ofJson_toJson {d : Document α} (h : d.Valid) (hw : d.Writable) :
    ofJson d.toJson = .ok d := by
  have helements : Element.ofJsons Element.maxNesting 0 (Element.toJsons d.elements)
      = .ok d.elements :=
    Element.ofJsons_toJsons (fun e he => Element.ofJson_toJson (h.elements e he)
      (Nat.le_trans (Element.nesting_le_nestingOf he) hw)) 0
  have hselected : listOf Schema.text (.ofStrings d.selected : Json α) = .ok d.selected :=
    listOf_arr fun _ _ => rfl
  simp [ofJson, toJson, toMembers, elementsOf, withDefault, Entries.get?, helements, hselected,
    Viewport.ofJson_toJson h.viewport]

theorem Document.reread_eq {d : Document α} (h : d.Valid) (hw : d.Writable) :
    d.reread = .ok d := by
  rw [reread, ofJson_toJson h hw]
  rfl

theorem Document.writable_of_ofJson {d d' : Document α} (h : ofJson d.toJson = .ok d') :
    d.Writable := by
  obtain ⟨ms, hms, h⟩ := Checked.andThen_eq_ok_iff.mp h
  cases hms
  obtain ⟨_, _, h, -, -⟩ := Checked.seq_eq_ok_iff.mp h
  obtain ⟨_, _, h, -, -⟩ := Checked.seq_eq_ok_iff.mp h
  obtain ⟨es, hes, -⟩ := Checked.map_eq_ok_iff.mp h
  exact Element.nestingOf_le_of_ofJsons _ 0 d.elements es (Checked.under_eq_ok_iff.mp hes)

/-- A valid document that is read back at all is read back as it was written. -/
theorem Document.eq_of_reread {d d' : Document α} (h : d.Valid) (hr : d.reread = .ok d') :
    d' = d := by
  have hread : ofJson d.toJson = .ok d' := Checked.toEdit_eq_ok_iff.mp hr
  rw [reread_eq h (writable_of_ofJson hread)] at hr
  cases hr
  rfl

end Whiteboard

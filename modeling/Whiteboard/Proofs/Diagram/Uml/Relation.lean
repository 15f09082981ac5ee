import Whiteboard.Diagram.Uml.Relation
import Whiteboard.Proofs.Text.Blank
import Whiteboard.Proofs.Text.Scan

/-!
# Where relations stand

A symbol begins with its first stroke, and no text that lacks a character of it holds it
(`Uml.mem_of_dropStrokes?`). A word that no symbol follows takes part in no relation
(`Uml.RelationForm.find?_word`).
-/

namespace Whiteboard.Diagram.Uml

variable {c : Char} {s : Stroke} {strokes : List Stroke} {f : RelationForm}
  {cs w u rest left : List Char}

/-! ## Symbols -/

/-- The character that a stroke cannot do without. -/
def Stroke.required? : Stroke → Option Char
  | one c => some c
  | many c => some c
  | maybe _ => none

theorem Stroke.drop?_many_eq_some (h : (many c).drop? cs = some rest) :
    cs.head? = some c ∧ rest <:+ cs := by
  cases cs with
  | nil => cases h
  | cons d cs =>
    by_cases hd : d = c
    · subst hd
      have hrest : (d :: cs).dropWhile (· == d) = rest := by
        simpa [drop?, Text.span] using h
      exact ⟨rfl, hrest ▸ List.dropWhile_suffix _⟩
    · simp [drop?, Text.span, hd] at h

theorem Stroke.isSuffix_drop? (h : s.drop? cs = some rest) : rest <:+ cs := by
  cases s with
  | one c => exact ⟨[c], (Text.dropWord?_eq_some_iff.mp h).symm⟩
  | many c => exact (drop?_many_eq_some h).2
  | maybe c =>
    cases h
    cases hword : Text.dropWord? [c] cs with
    | none => exact List.suffix_rfl
    | some r => exact ⟨[c], (Text.dropWord?_eq_some_iff.mp hword).symm⟩

theorem Stroke.head?_of_drop? (h : s.drop? cs = some rest) (hc : s.required? = some c) :
    cs.head? = some c := by
  cases s with
  | one d =>
    cases hc
    rw [Text.dropWord?_eq_some_iff.mp h]
    rfl
  | many d =>
    cases hc
    exact (drop?_many_eq_some h).1
  | maybe d => cases hc

/-- A text that holds a symbol has all characters that the symbol needs. -/
theorem mem_of_dropStrokes? (h : dropStrokes? strokes cs = some rest) (hs : s ∈ strokes)
    (hc : s.required? = some c) : c ∈ cs := by
  induction strokes generalizing cs with
  | nil => cases hs
  | cons t strokes ih =>
    obtain ⟨r, hdrop, hmore⟩ := Option.bind_eq_some_iff.mp h
    rcases List.mem_cons.mp hs with rfl | hs
    · exact List.mem_of_mem_head? (Stroke.head?_of_drop? hdrop hc)
    · exact (Stroke.isSuffix_drop? hdrop).subset (ih hmore hs)

/-- The characters with which symbols begin. -/
theorem required?_head : ∀ f ∈ relationForms, f.strokes.head?.bind Stroke.required? ∈
    [some '<', some '-', some '*', some 'o', some '.'] := by decide

theorem exists_required : ∀ f ∈ relationForms, ∃ c ∈ ['-', '>'], ∃ s ∈ f.strokes,
    s.required? = some c := by decide

theorem dropStrokes?_of_head (hf : f ∈ relationForms)
    (h : ∀ c ∈ cs.head?, c ∉ ['<', '-', '*', 'o', '.']) : dropStrokes? f.strokes cs = none := by
  refine Option.eq_none_iff_forall_ne_some.mpr fun rest hrest => ?_
  obtain ⟨c, hc, hrequired⟩ : ∃ c ∈ ['<', '-', '*', 'o', '.'],
      f.strokes.head?.bind Stroke.required? = some c := by
    simpa using required?_head f hf
  obtain ⟨s, hs, hrequired⟩ := Option.bind_eq_some_iff.mp hrequired
  obtain ⟨more, hstrokes⟩ := List.head?_eq_some_iff.mp hs
  rw [hstrokes] at hrest
  obtain ⟨r, hdrop, -⟩ := Option.bind_eq_some_iff.mp hrest
  exact h c (Stroke.head?_of_drop? hdrop hrequired) hc

/-- A blank ends every symbol. -/
theorem Stroke.drop?_append (hs : s ∉ [one ' ', many ' ', maybe ' ']) (cs rest : List Char) :
    s.drop? (cs ++ ' ' :: rest) = (s.drop? cs).map (· ++ ' ' :: rest) := by
  cases s with
  | one c => exact Text.dropWord?_singleton_append (by simpa [eq_comm] using hs) cs
  | many c =>
    have hc : c ≠ ' ' := by simpa using hs
    have hspan : Text.span (· == c) (cs ++ ' ' :: rest)
        = ((Text.span (· == c) cs).1, (Text.span (· == c) cs).2 ++ ' ' :: rest) :=
      Text.span_append_right (by simpa using Ne.symm hc) cs
    rw [drop?, drop?, hspan]
    rcases Text.span (· == c) cs with ⟨_ | ⟨d, dashes⟩, after⟩ <;> rfl
  | maybe c =>
    rw [drop?, drop?, Text.dropWord?_singleton_append (by simpa [eq_comm] using hs) cs]
    cases Text.dropWord? [c] cs <;> rfl

theorem dropStrokes?_append (h : ∀ s ∈ strokes, s ∉ [.one ' ', .many ' ', .maybe ' '])
    (cs rest : List Char) : dropStrokes? strokes (cs ++ ' ' :: rest)
      = (dropStrokes? strokes cs).map (· ++ ' ' :: rest) := by
  induction strokes generalizing cs with
  | nil => rfl
  | cons s strokes ih =>
    rw [List.forall_mem_cons] at h
    rw [dropStrokes?, dropStrokes?, Stroke.drop?_append h.1]
    cases s.drop? cs with
    | none => rfl
    | some r => exact ih h.2 r

theorem not_blank_of_mem : ∀ f ∈ relationForms, ∀ s ∈ f.strokes,
    s ∉ [.one ' ', .many ' ', .maybe ' '] := by decide

/-! ## Words -/

/-- A word, as one may stand on either side of a symbol. -/
def IsWord (w : List Char) : Prop := w ≠ [] ∧ ∀ c ∈ w, Text.isWord c = true

instance : DecidablePred IsWord := fun _ => instDecidableAnd

theorem span_word (hw : ∀ c ∈ w, Text.isWord c = true) (rest : List Char) :
    Text.span Text.isWord (w ++ ' ' :: rest) = (w, ' ' :: rest) :=
  Text.span_append hw (by simpa using (by decide : Text.isWord ' ' = false))

theorem IsWord.head (h : IsWord w) : ∃ c ∈ w.head?, Text.isBlank c = false := by
  obtain ⟨hne, hw⟩ := h
  obtain ⟨c, w, rfl⟩ := List.exists_cons_of_ne_nil hne
  exact ⟨c, rfl, Text.isBlank_of_isWord (hw c List.mem_cons_self)⟩

/-- All symbols have hyphens or arrow heads. -/
theorem dropStrokes?_plain (hf : f ∈ relationForms) (hcs : ∀ c ∈ cs, c ∉ ['-', '>']) :
    dropStrokes? f.strokes cs = none := by
  obtain ⟨c, hc, s, hs, hrequired⟩ := exists_required f hf
  refine Option.eq_none_iff_forall_ne_some.mpr fun rest hrest => ?_
  exact hcs c (mem_of_dropStrokes? hrest hs hrequired) hc

/-- No symbol stands behind a plain text that is not blank. -/
theorem dropStrokes?_append_plain (hf : f ∈ relationForms) (hcs : ∀ c ∈ cs, c ∉ ['-', '>'])
    (hblank : ∃ c ∈ cs, Text.isBlank c = false) (rest : List Char) :
    dropStrokes? f.strokes (Text.trimLeft (cs ++ ' ' :: rest)) = none := by
  have hplain : ∀ c ∈ Text.trimLeft cs, c ∉ ['-', '>'] := fun c hc =>
    hcs c ((List.dropWhile_suffix _).subset hc)
  rw [Text.trimLeft_append_of_mem hblank, dropStrokes?_append (not_blank_of_mem f hf),
    dropStrokes?_plain hf hplain, Option.map_none]

theorem plain_of_isWord (hw : ∀ c ∈ w, Text.isWord c = true) : ∀ c ∈ w, c ∉ ['-', '>'] := by
  have hall : ∀ c ∈ ['-', '>'], Text.isWord c = false := by decide
  intro c hc hmem
  exact Bool.false_ne_true ((hall c hmem).symm.trans (hw c hc))

/-- No symbol stands right behind a part of a word. -/
theorem dropStrokes?_append_word (hf : f ∈ relationForms) (hw : ∀ c ∈ w, Text.isWord c = true)
    (hrest : dropStrokes? f.strokes (Text.trimLeft rest) = none) :
    dropStrokes? f.strokes (Text.trimLeft (w ++ ' ' :: rest)) = none := by
  cases w with
  | nil => rwa [List.nil_append, Text.trimLeft_space]
  | cons c w =>
    have hc : Text.isBlank c = false := Text.isBlank_of_isWord (hw c List.mem_cons_self)
    exact dropStrokes?_append_plain hf (plain_of_isWord hw) ⟨c, List.mem_cons_self, hc⟩ rest

/-! ## Relations -/

namespace RelationForm

theorem behind?_of_none (h : dropStrokes? f.strokes (Text.trimLeft rest) = none) :
    f.behind? left rest = none := by rw [behind?, h]

theorem withLeft?_of_none {n : Nat}
    (h : ∀ m < n, f.behind? (cs.take (m + 1)) (cs.drop (m + 1)) = none) :
    f.withLeft? cs n = none := by
  induction n with
  | zero => rfl
  | succ n ih =>
    rw [withLeft?, h n (Nat.lt_succ_self n), ih fun m hm => h m (Nat.lt_succ_of_lt hm)]
    rfl

/-- A relation at the front of a text needs a beginning of its first word, with the rest of the
relation behind it. -/
theorem atFront?_eq_none (h : ∀ u c rest, cs = u ++ c :: rest → (∀ d ∈ u, Text.isWord d = true) →
    Text.isWord c = true → ∀ left, f.behind? left rest = none) : f.atFront? cs = none := by
  refine withLeft?_of_none fun m hm => ?_
  have hprefix := List.takeWhile_prefix Text.isWord (l := cs)
  have hlt : m < cs.length := hm.trans_le hprefix.length_le
  have hword : ∀ d ∈ cs.take (m + 1), Text.isWord d = true := by
    intro d hd
    have htake : cs.take (m + 1) <+: cs.takeWhile Text.isWord :=
      List.prefix_of_prefix_length_le (List.take_prefix _ _) hprefix
        ((List.length_take_le _ _).trans (Nat.succ_le_of_lt hm))
    exact List.mem_takeWhile_imp (htake.subset hd)
  rw [List.take_succ_eq_append_getElem hlt, List.forall_mem_append, List.forall_mem_singleton]
    at hword
  refine h (cs.take m) cs[m] _ ?_ hword.1 hword.2 _
  rw [← List.drop_eq_getElem_cons hlt, List.take_append_drop]

/-- A relation needs a character of a word with the rest of the relation behind it. -/
theorem find?_eq_none (h : ∀ u c rest, cs = u ++ c :: rest → Text.isWord c = true →
    ∀ left, f.behind? left rest = none) : f.find? cs = none := by
  induction cs with
  | nil => rfl
  | cons d cs ih =>
    rw [find?, atFront?_eq_none fun u c rest hcs _ => h u c rest hcs, Option.none_or]
    exact ih fun u c rest hcs => h (d :: u) c rest (congrArg (d :: ·) hcs)

/-- A text that no relation begins in is passed over, if it ends between words. -/
theorem find?_append (hend : ∀ c ∈ u.getLast?, Text.isWord c = false)
    (h : ∀ v c t, u = v ++ c :: t → Text.isWord c = true →
      ∀ left, f.behind? left (t ++ rest) = none) : f.find? (u ++ rest) = f.find? rest := by
  induction u with
  | nil => rfl
  | cons d u ih =>
    have hlast : ∃ x ∈ d :: u, Text.isWord x = false :=
      ⟨_, List.getLast_mem (List.cons_ne_nil d u),
        hend _ (List.getLast?_eq_some_getLast (List.cons_ne_nil d u))⟩
    have hfront : f.atFront? (d :: u ++ rest) = none := by
      refine atFront?_eq_none fun v c r hcs hv hc => ?_
      obtain ⟨x, hx, hnot⟩ := hlast
      have hout : x ∉ v ++ [c] := by
        intro hmem
        rcases List.mem_append.mp hmem with hmem | hmem
        · exact Bool.false_ne_true (hnot.symm.trans (hv x hmem))
        · rw [List.mem_singleton.mp hmem] at hnot
          exact Bool.false_ne_true (hnot.symm.trans hc)
      rw [List.append_cons] at hcs
      rcases List.append_eq_append_iff.mp hcs with ⟨t, ht, -⟩ | ⟨t, ht, hr⟩
      · exact absurd (ht ▸ List.mem_append_left t hx) hout
      · rw [hr]
        exact h v c t (by rw [ht, ← List.append_cons]) hc
    rw [List.cons_append] at hfront ⊢
    rw [find?, hfront, Option.none_or]
    refine ih (fun c hc => hend c ?_) fun v c t hu => h (d :: v) c t (congrArg (d :: ·) hu)
    rw [List.getLast?_cons, hc]
    rfl

theorem find?_cons_of_not_isWord (hc : Text.isWord c = false) :
    f.find? (c :: rest) = f.find? rest := by
  have hspan : (Text.span Text.isWord (c :: rest)).1 = [] := by simp [Text.span, hc]
  rw [find?, atFront?, hspan]
  rfl

theorem find?_append_of_not_isWord (hu : ∀ c ∈ u, Text.isWord c = false) :
    f.find? (u ++ rest) = f.find? rest := by
  induction u with
  | nil => rfl
  | cons c u ih =>
    rw [List.forall_mem_cons] at hu
    rw [List.cons_append, find?_cons_of_not_isWord hu.1, ih hu.2]

theorem atFront?_word (hf : f ∈ relationForms) (hw : ∀ c ∈ w, Text.isWord c = true)
    (hrest : dropStrokes? f.strokes (Text.trimLeft rest) = none) :
    f.atFront? (w ++ ' ' :: rest) = none := by
  rw [atFront?, span_word hw]
  refine withLeft?_of_none fun m hm => behind?_of_none ?_
  rw [List.drop_append_of_le_length (Nat.succ_le_of_lt hm)]
  exact dropStrokes?_append_word hf (fun c hc => hw c (List.mem_of_mem_drop hc)) hrest

/-- A word that no symbol follows is passed over. -/
theorem find?_word (hf : f ∈ relationForms) (hw : ∀ c ∈ w, Text.isWord c = true)
    (hrest : dropStrokes? f.strokes (Text.trimLeft rest) = none) :
    f.find? (w ++ ' ' :: rest) = f.find? rest := by
  induction w with
  | nil => exact find?_cons_of_not_isWord (by decide)
  | cons c w ih =>
    have hfront := atFront?_word hf hw hrest
    rw [List.cons_append] at hfront ⊢
    rw [find?, hfront, Option.none_or, ih fun d hd => hw d (List.mem_cons_of_mem _ hd)]

/-- A relation needs all characters of its symbol. -/
theorem find?_of_not_mem {s : Stroke} (hs : s ∈ f.strokes) (hc : s.required? = some c)
    (h : c ∉ cs) : f.find? cs = none := by
  refine find?_eq_none fun u d rest hcs _ left => behind?_of_none ?_
  refine Option.eq_none_iff_forall_ne_some.mpr fun after hafter => h ?_
  have hmem := (List.dropWhile_suffix _).subset (mem_of_dropStrokes? hafter hs hc)
  rw [hcs]
  exact List.mem_append_right u (List.mem_cons_of_mem d hmem)

theorem edge_trimLeft (f : RelationForm) (left right label : List Char) :
    f.edge left right (Text.trimLeft label) = f.edge left right label := by
  rw [edge, edge, Text.trim_trimLeft]

end RelationForm

theorem labelBehind?_of_not_mem (h : ':' ∉ cs) : labelBehind? cs = none := by
  unfold labelBehind?
  split
  · next heq =>
    exact absurd ((List.dropWhile_suffix _).subset (heq ▸ List.mem_cons_self)) h
  · rfl

theorem labelBehind?_colon {label : List Char} (h : Text.trim label ≠ []) :
    labelBehind? (' ' :: ':' :: ' ' :: label) = some (Text.trimLeft label) := by
  obtain ⟨c, cs, hcons⟩ := List.exists_cons_of_ne_nil (Text.trimLeft_ne_nil h)
  have hcolon : Text.trimLeft (' ' :: ':' :: ' ' :: label) = ':' :: ' ' :: label := by
    rw [Text.trimLeft_space, Text.trimLeft_cons (by decide)]
  simp only [labelBehind?, hcolon, Text.trimLeft_space, hcons]

section Between

variable {operator right tail label : List Char}

/-- Behind the left word: an operator that a form reads, the right word and what follows it. -/
theorem RelationForm.behind?_between (hf : f ∈ relationForms)
    (hhead : ∃ c ∈ operator.head?, Text.isBlank c = false)
    (hdrop : dropStrokes? f.strokes operator = some []) (hright : IsWord right)
    (htail : ∀ c ∈ tail.head?, Text.isWord c = false) (left : List Char) :
    f.behind? left (' ' :: (operator ++ ' ' :: (right ++ tail)))
      = some (f.edge left right (if f.labelled then (labelBehind? tail).getD [] else [])) := by
  have hstrokes : ∀ rest,
      dropStrokes? f.strokes (operator ++ ' ' :: rest) = some (' ' :: rest) := by
    intro rest
    rw [dropStrokes?_append (not_blank_of_mem f hf), hdrop]
    rfl
  have hspan := Text.span_append hright.2 htail
  obtain ⟨r, rs, rfl⟩ := List.exists_cons_of_ne_nil hright.1
  simp only [behind?, Text.trimLeft_space, Text.trimLeft_append_of_head hhead, hstrokes,
    Text.trimLeft_append_of_head hright.head, hspan]

/-- The relation between two words at the front of a line. -/
theorem RelationForm.find?_between (hf : f ∈ relationForms)
    (hhead : ∃ c ∈ operator.head?, Text.isBlank c = false)
    (hdrop : dropStrokes? f.strokes operator = some []) (hleft : IsWord left)
    (hright : IsWord right) (htail : ∀ c ∈ tail.head?, Text.isWord c = false) :
    f.find? (left ++ ' ' :: (operator ++ ' ' :: (right ++ tail)))
      = some (f.edge left right (if f.labelled then (labelBehind? tail).getD [] else [])) := by
  have hbehind := behind?_between hf hhead hdrop hright htail left
  have hspan := span_word hleft.2 (operator ++ ' ' :: (right ++ tail))
  obtain ⟨c, cs, rfl⟩ := List.exists_cons_of_ne_nil hleft.1
  rw [List.cons_append] at hspan ⊢
  rw [find?, atFront?, hspan, List.length_cons, withLeft?, List.take_succ_cons, List.drop_succ_cons,
    List.take_left, List.drop_left, hbehind, Option.some_or, Option.some_or]

theorem RelationForm.find?_labelled (hf : f ∈ relationForms) (hlabelled : f.labelled = true)
    (hhead : ∃ c ∈ operator.head?, Text.isBlank c = false)
    (hdrop : dropStrokes? f.strokes operator = some []) (hleft : IsWord left)
    (hright : IsWord right) (hlabel : Text.trim label ≠ []) :
    f.find? (left ++ ' ' :: (operator ++ ' ' :: (right ++ ' ' :: ':' :: ' ' :: label)))
      = some (f.edge left right label) := by
  have hblank : ∀ c ∈ (' ' :: ':' :: ' ' :: label).head?, Text.isWord c = false := by
    rintro c ⟨⟩
    decide
  rw [find?_between hf hhead hdrop hleft hright hblank, if_pos hlabelled,
    labelBehind?_colon hlabel, Option.getD_some, edge_trimLeft]

end Between

end Whiteboard.Diagram.Uml

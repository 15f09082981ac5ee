import Whiteboard.Diagram.Flowchart
import Whiteboard.Proofs.Text.Blank
import Whiteboard.Proofs.Text.Scan
import Mathlib

/-!
# Declarations in flowcharts

Where ids end, and what taking the declarations in one kind of brackets out of a text does: a text
in which none stands is left alone (`Flowchart.declarations_of_not_standsIn`), and what stands
around a label does not matter to the declarations in it (`Flowchart.declarations_around`).
-/

namespace Whiteboard.Diagram.Flowchart

variable {cs id rest : List Char} {c : Char}

/-! ## Ids -/

/-- An id: runs of id characters joined by single hyphens. -/
def IsId : List Char → Prop := Text.Joined '-' isIdChar

instance : DecidablePred IsId := fun _ => Text.instDecidableJoined

/-- A text that does not go on an id. -/
def Stops (rest : List Char) : Prop := ∀ c ∈ rest.head?, isIdChar c = false ∧ c ≠ '-'

/-- A text in front of which an id ends. Unlike a text that stops, it may begin with a hyphen. -/
def Halts (rest : List Char) : Prop := takeIdTail rest = ([], rest)

instance : DecidablePred Halts := fun _ => instDecidableEqProd _ _

theorem stops_nil : Stops [] := by simp [Stops]

theorem stops_cons (h : isIdChar c = false ∧ c ≠ '-') : Stops (c :: rest) := by
  simpa [Stops] using h

theorem isWord_of_isIdChar (h : isIdChar c = true) : Text.isWord c = true := by
  rcases Bool.or_eq_true_iff.mp h with halnum | hscore
  · have hascii : c.toNat < 128 := by
      simp only [Char.isAlphanum, Char.isAlpha, Char.isUpper, Char.isLower, Char.isDigit,
        Bool.or_eq_true, Bool.and_eq_true, decide_eq_true_eq, ge_iff_le, UInt32.le_iff_toNat_le]
        at halnum
      change ((65 ≤ c.toNat ∧ c.toNat ≤ 90) ∨ 97 ≤ c.toNat ∧ c.toNat ≤ 122) ∨
        48 ≤ c.toNat ∧ c.toNat ≤ 57 at halnum
      omega
    rw [Text.isWord, Text.isAlphanumeric, if_pos hascii, halnum, Bool.true_or]
  · rw [Text.isWord, hscore, Bool.or_true]

theorem isBlank_of_isIdChar (h : isIdChar c = true) : Text.isBlank c = false :=
  Text.isBlank_of_isWord (isWord_of_isIdChar h)

theorem takeIdTail_cons (h : isIdChar c = true) :
    takeIdTail (c :: cs) = (c :: (takeIdTail cs).1, (takeIdTail cs).2) := by
  have hc : c ≠ '-' := by
    rintro rfl
    exact absurd h (by decide)
  rw [takeIdTail.eq_2 c cs fun _ _ heq _ => hc heq, if_pos h]

theorem takeIdTail_hyphen (h : isIdChar c = true) :
    takeIdTail ('-' :: c :: cs) = ('-' :: c :: (takeIdTail cs).1, (takeIdTail cs).2) := by
  rw [takeIdTail, if_pos h]

theorem Stops.halts (h : Stops rest) : Halts rest := by
  cases rest with
  | nil => rfl
  | cons c rest =>
    obtain ⟨hid, hc⟩ := h c rfl
    rw [Halts, takeIdTail.eq_2 c rest fun _ _ heq _ => hc heq, hid]
    rfl

theorem Halts.head (h : Halts rest) : ∀ c ∈ rest.head?, isIdChar c = false := by
  cases rest with
  | nil => exact nofun
  | cons c rest =>
    intro d hd
    cases hd
    rw [← Bool.not_eq_true]
    intro hc
    rw [Halts, takeIdTail_cons hc] at h
    cases h

/-- An id goes on with each character of its own, and with a hyphen before one. -/
theorem takeIdTail_cons_eq (c : Char) (cs : List Char) : takeIdTail (c :: cs) =
    if isIdChar c = true ∨ c = '-' ∧ ∃ d ∈ cs.head?, isIdChar d = true then
      (c :: (takeIdTail cs).1, (takeIdTail cs).2) else ([], c :: cs) := by
  by_cases hc : isIdChar c = true
  · rw [takeIdTail_cons hc, if_pos (.inl hc)]
  · by_cases hhyphen : c = '-'
    · subst hhyphen
      cases cs with
      | nil => rfl
      | cons d cs =>
        by_cases hd : isIdChar d = true
        · rw [takeIdTail_hyphen hd, if_pos (.inr ⟨rfl, d, rfl, hd⟩), takeIdTail_cons hd]
        · rw [takeIdTail, if_neg hd, if_neg]
          rintro (hc' | ⟨-, e, he, hd'⟩)
          · exact hc hc'
          · cases he
            exact hd hd'
    · rw [(stops_cons ⟨by simpa using hc, hhyphen⟩ : Stops (c :: cs)).halts, if_neg]
      exact not_or.mpr ⟨hc, fun h => hhyphen h.1⟩

theorem takeIdTail_append (h : Halts rest) (cs : List Char) :
    takeIdTail (cs ++ rest) = ((takeIdTail cs).1, (takeIdTail cs).2 ++ rest) := by
  fun_induction takeIdTail cs with
  | case1 c cs hc tail after heq ih =>
    rw [heq] at ih
    rw [List.cons_append, List.cons_append, takeIdTail_hyphen hc, ih]
  | case2 c cs hc => simp [takeIdTail, hc]
  | case3 c cs hhyphen hc tail after heq ih =>
    rw [heq] at ih
    rw [List.cons_append, takeIdTail_cons hc, ih]
  | case4 c cs hhyphen hc =>
    -- a hyphen at the very end may not be followed by an id character
    cases cs with
    | cons d cs =>
      have hne : c ≠ '-' := fun heq => hhyphen d cs heq rfl
      rw [List.cons_append, takeIdTail.eq_2 c _ fun _ _ heq _ => hne heq, if_neg hc]
    | nil =>
      cases rest with
      | nil => simp [takeIdTail, hc]
      | cons d rest =>
        by_cases hne : c = '-'
        · subst hne
          simp [takeIdTail, h.head d rfl]
        · rw [List.cons_append, takeIdTail.eq_2 c _ fun _ _ heq _ => hne heq, if_neg hc]
  | case5 => exact h

theorem takeId?_cons (h : isIdChar c = true) : takeId? (c :: cs) = some (takeIdTail (c :: cs)) := by
  rw [takeId?, if_pos h, takeIdTail_cons h]

theorem takeId?_of_head (h : ∀ c ∈ cs.head?, isIdChar c = false) : takeId? cs = none := by
  cases cs with
  | nil => rfl
  | cons c cs =>
    rw [takeId?, h c rfl]
    rfl

theorem takeId?_append (h : Halts rest) (cs : List Char) :
    takeId? (cs ++ rest) = (takeId? cs).map fun (id, after) => (id, after ++ rest) := by
  cases cs with
  | nil => exact takeId?_of_head h.head
  | cons c cs =>
    by_cases hc : isIdChar c = true
    · rw [takeId?_cons hc, List.cons_append, takeId?_cons hc, ← List.cons_append,
        takeIdTail_append h]
      rfl
    · simp only [List.cons_append, takeId?, if_neg hc, Option.map_none]

theorem takeIdTail_isId (h : IsId id) : takeIdTail id = (id, []) := by
  induction h with
  | last hc =>
    rw [takeIdTail_cons hc]
    rfl
  | next hc _ ih => rw [takeIdTail_cons hc, ih]
  | @join c cs hc htail ih =>
    obtain ⟨d, ds, rfl, hd⟩ := htail.exists_cons
    rw [takeIdTail_cons hd, Prod.mk.injEq, List.cons.injEq] at ih
    rw [takeIdTail_cons hc, takeIdTail_hyphen hd, ih.1.2, ih.2]

/-- An id is read up to a text that does not go on. -/
theorem takeId?_isId (h : IsId id) (hrest : Stops rest) :
    takeId? (id ++ rest) = some (id, rest) := by
  have hid : takeId? id = some (id, []) := by
    obtain ⟨c, cs, rfl, hc⟩ := h.exists_cons
    rw [takeId?_cons hc, takeIdTail_isId h]
  rw [takeId?_append hrest.halts, hid]
  rfl

theorem append_takeIdTail (cs : List Char) :
    (takeIdTail cs).1 ++ (takeIdTail cs).2 = cs ∧
      ∀ c ∈ (takeIdTail cs).1.getLast?, isIdChar c = true := by
  fun_induction takeIdTail cs with
  | case1 c cs hc tail after heq ih =>
    rw [heq] at ih
    refine ⟨by rw [List.cons_append, List.cons_append, ih.1], ?_⟩
    cases tail with
    | nil => simpa using hc
    | cons d tail => simpa using ih.2
  | case2 => simp
  | case3 c cs hhyphen hc tail after heq ih =>
    rw [heq] at ih
    refine ⟨by rw [List.cons_append, ih.1], ?_⟩
    cases tail with
    | nil => simpa using hc
    | cons d tail => simpa using ih.2
  | case4 => simp
  | case5 => simp

theorem takeId?_eq_some {after : List Char} (h : takeId? cs = some (id, after)) :
    cs = id ++ after ∧ ∃ front c, id = front ++ [c] ∧ isIdChar c = true := by
  cases cs with
  | nil => cases h
  | cons c cs =>
    by_cases hc : isIdChar c = true
    · have htail := append_takeIdTail (c :: cs)
      rw [takeId?_cons hc, Option.some.injEq] at h
      rw [h] at htail
      refine ⟨htail.1.symm, ?_⟩
      have hne : id ≠ [] := by
        rintro rfl
        rw [takeIdTail_cons hc] at h
        cases h
      exact ⟨id.dropLast, id.getLast hne, (List.dropLast_append_getLast hne).symm,
        htail.2 _ (List.getLast?_eq_some_getLast hne)⟩
    · rw [takeId?, if_neg hc] at h
      cases h

theorem isId_cons_takeIdTail (h : isIdChar c = true) (cs : List Char) :
    IsId (c :: (takeIdTail cs).1) := by
  fun_induction takeIdTail cs generalizing c with
  | case1 d cs hd tail after heq ih =>
    rw [heq] at ih
    exact .join h (ih hd)
  | case2 => exact .last h
  | case3 d cs hhyphen hd tail after heq ih =>
    rw [heq] at ih
    exact .next h (ih hd)
  | case4 => exact .last h
  | case5 => exact .last h

theorem isId_of_takeId? {after : List Char} (h : takeId? cs = some (id, after)) : IsId id := by
  cases cs with
  | nil => cases h
  | cons c cs =>
    by_cases hc : isIdChar c = true
    · rw [takeId?_cons hc, takeIdTail_cons hc, Option.some.injEq, Prod.mk.injEq] at h
      rw [← h.1]
      exact isId_cons_takeIdTail hc cs
    · rw [takeId?, if_neg hc] at h
      cases h

/-! ## Brackets -/

/-- The characters of brackets. -/
def marks : List Char := ['[', ']', '(', ')', '{', '}', '/', '\\']

theorem Bracket.mem_marks : ∀ b ∈ brackets, ∀ c ∈ b.opening ++ b.closing, c ∈ marks := by decide

theorem Bracket.opening_ne_nil : ∀ b ∈ brackets, b.opening ≠ [] := by decide

theorem Bracket.closing_ne_nil : ∀ b ∈ brackets, b.closing ≠ [] := by decide

theorem stops_of_mem_marks (h : c ∈ marks) : Stops (c :: rest) := by
  have hall : ∀ d ∈ marks, isIdChar d = false ∧ d ≠ '-' := by decide
  exact stops_cons (hall c h)

theorem Bracket.exists_opening {b : Bracket} (hb : b ∈ brackets) :
    ∃ o os, b.opening = o :: os ∧ o ∈ marks := by
  obtain ⟨o, os, hopening⟩ := List.exists_cons_of_ne_nil (opening_ne_nil b hb)
  exact ⟨o, os, hopening, mem_marks b hb o (by simp [hopening])⟩

theorem Bracket.stops_opening {b : Bracket} (hb : b ∈ brackets) (rest : List Char) :
    Stops (b.opening ++ rest) := by
  obtain ⟨o, os, hopening, hmark⟩ := exists_opening hb
  rw [hopening]
  exact stops_of_mem_marks hmark

theorem Bracket.head?_opening_ne :
    ∀ b ∈ brackets, b.opening.head? ∈ [some '[', some '(', some '{'] ∧
      b.closing.head? ∉ [some '[', some '(', some '{'] := by decide

theorem Bracket.not_isPrefix : brackets.Pairwise fun e b =>
    ¬ e.opening <+: b.opening ++ b.closing ∧ ¬ b.opening ++ b.closing <+: e.opening := by
  decide

/-- Where brackets open around a text without marks no earlier ones open. -/
theorem Bracket.not_isPrefix_opening {b e : Bracket} {earlier later : List Bracket}
    {label : List Char} (hb : brackets = earlier ++ b :: later) (he : e ∈ earlier)
    (hhead : ∀ c ∈ label.head?, c ∉ marks) (rest : List Char) :
    ¬ e.opening <+: b.opening ++ (label ++ (b.closing ++ rest)) := by
  obtain ⟨hnot, hnot'⟩ := Text.rel_of_pairwise not_isPrefix hb he
  have hmem : e ∈ brackets := hb ▸ List.mem_append_left _ he
  intro hprefix
  cases label with
  | nil =>
    rw [List.nil_append, ← List.append_assoc] at hprefix
    exact (List.prefix_or_prefix_of_prefix hprefix (List.prefix_append _ _)).elim hnot hnot'
  | cons l ls =>
    rcases List.prefix_or_prefix_of_prefix hprefix (List.prefix_append _ _) with hle | ⟨m, hm⟩
    · exact hnot (hle.trans (List.prefix_append _ _))
    · cases m with
      | nil => exact hnot ⟨b.closing, by rw [← hm, List.append_nil]⟩
      | cons c m =>
        rw [← hm, List.prefix_append_right_inj] at hprefix
        obtain ⟨behind, heq⟩ := hprefix
        have hl : c = l := (List.cons.inj heq).1
        exact hhead l rfl (Bracket.mem_marks e hmem l (by simp [← hm, hl]))

/-- Some id character and, behind it, brackets around a text stand in `cs`. -/
def Bracket.StandsIn (b : Bracket) (cs : List Char) : Prop :=
  ∃ c label, isIdChar c = true ∧ c :: (b.opening ++ label ++ b.closing) <:+: cs

/-- The node that a declaration declares. -/
def Bracket.node (b : Bracket) (id label : List Char) : Node :=
  { id := String.ofList id, label := String.ofList (Text.trim label), shape := b.shape }

variable {b : Bracket}

theorem Bracket.StandsIn.mono {cs' : List Char} (h : b.StandsIn cs) (hcs : cs <:+: cs') :
    b.StandsIn cs' := by
  obtain ⟨c, label, hc, hlabel⟩ := h
  exact ⟨c, label, hc, hlabel.trans hcs⟩

/-- Marks of brackets that stand in a text are there, in this order. -/
theorem Bracket.StandsIn.sublist_filter (hb : b ∈ brackets) (h : b.StandsIn cs) :
    (b.opening ++ b.closing).Sublist (cs.filter (· ∈ marks)) := by
  obtain ⟨c, label, -, hlabel⟩ := h
  have hself : (b.opening ++ b.closing).filter (· ∈ marks) = b.opening ++ b.closing :=
    List.filter_eq_self.mpr fun d hd => by simpa using Bracket.mem_marks b hb d hd
  have hsub : (b.opening ++ b.closing).Sublist cs := by
    refine .trans ?_ hlabel.sublist
    exact .trans ((List.sublist_append_left _ label).append_right _) (List.sublist_cons_self _ _)
  simpa only [hself] using hsub.filter (· ∈ marks)

/-- Brackets that open behind no id character do not stand in a text. -/
theorem Bracket.not_standsIn_of_isChain (hb : b ∈ brackets)
    (h : cs.IsChain fun c d => isIdChar c = true → b.opening.head? ≠ some d) : ¬ b.StandsIn cs := by
  rintro ⟨c, label, hc, hinfix⟩
  obtain ⟨o, os, hopening, -⟩ := Bracket.exists_opening hb
  rw [hopening] at h hinfix
  have hchain := List.IsChain.infix h hinfix
  exact (List.isChain_cons_cons.mp hchain).1 hc rfl

theorem Bracket.not_standsIn_of_unmarked (hb : b ∈ brackets) (h : ∀ c ∈ cs, c ∉ marks) :
    ¬ b.StandsIn cs := by
  intro hstands
  have hnil : cs.filter (· ∈ marks) = [] := List.filter_eq_nil_iff.mpr (by simpa using h)
  have hsub := hstands.sublist_filter hb
  rw [hnil, List.sublist_nil, List.append_eq_nil_iff] at hsub
  exact Bracket.opening_ne_nil b hb hsub.1

/-! ## One declaration -/

theorem declaration?_eq_some_iff {label : List Char} :
    declaration? b cs = some (id, label, rest) ↔ ∃ after inner, takeId? cs = some (id, after) ∧
      Text.dropWord? b.opening after = some inner ∧
        Text.cutAt? b.closing inner = some (label, rest) := by
  unfold declaration?
  cases hid : takeId? cs with
  | none => simp
  | some pair =>
    obtain ⟨id', after⟩ := pair
    cases hword : Text.dropWord? b.opening after with
    | none => simp [hword]
    | some inner =>
      simp [hword]
      tauto

theorem eq_of_declaration? {label : List Char} (h : declaration? b cs = some (id, label, rest)) :
    cs = id ++ (b.opening ++ label ++ b.closing ++ rest) ∧
      ∃ front c, id = front ++ [c] ∧ isIdChar c = true := by
  obtain ⟨after, inner, hid, hword, hcut⟩ := declaration?_eq_some_iff.mp h
  obtain ⟨hcs, hlast⟩ := takeId?_eq_some hid
  refine ⟨?_, hlast⟩
  rw [hcs, Text.dropWord?_eq_some_iff.mp hword, Text.cutAt?_eq_some hcut]
  simp

theorem standsIn_of_declaration? {label : List Char}
    (h : declaration? b cs = some (id, label, rest)) : b.StandsIn cs := by
  obtain ⟨rfl, front, c, rfl, hc⟩ := eq_of_declaration? h
  exact ⟨c, label, hc, front, rest, by simp⟩

theorem exists_declaration?_of_takeId? {inner : List Char}
    (hid : takeId? cs = some (id, b.opening ++ inner)) (h : b.closing <:+: inner) :
    ∃ decl, declaration? b cs = some decl := by
  obtain ⟨label, after, rfl⟩ := h
  obtain ⟨⟨found, rest⟩, hcut⟩ := Option.isSome_iff_exists.mp
    (Text.isSome_cutAt? b.closing label after)
  exact ⟨(id, found, rest), declaration?_eq_some_iff.mpr
    ⟨_, _, hid, Text.dropWord?_append_self _ _, hcut⟩⟩

/-- Brackets behind an id character make a declaration, with whatever label. -/
theorem exists_declaration? (hb : b ∈ brackets) (hc : isIdChar c = true) (label after : List Char) :
    ∃ decl, declaration? b (c :: (b.opening ++ label ++ b.closing ++ after)) = some decl := by
  have hid := takeId?_isId (.last hc) (Bracket.stops_opening hb (label ++ b.closing ++ after))
  rw [List.append_assoc, List.append_assoc, ← List.append_assoc label]
  exact exists_declaration?_of_takeId? hid ⟨label, after, rfl⟩

theorem declaration?_bracketed (hb : b ∈ brackets) (hid : IsId id) {label : List Char}
    (hlabel : ∀ m ∈ b.closing.head?, m ∉ label) (rest : List Char) :
    declaration? b (id ++ (b.opening ++ label ++ b.closing ++ rest)) = some (id, label, rest) := by
  obtain ⟨m, ms, hclosing⟩ := List.exists_cons_of_ne_nil (Bracket.closing_ne_nil b hb)
  refine declaration?_eq_some_iff.mpr ⟨_, label ++ b.closing ++ rest, takeId?_isId hid ?_, ?_, ?_⟩
  · simpa using Bracket.stops_opening hb (label ++ (b.closing ++ rest))
  · rw [List.append_assoc, List.append_assoc, List.append_assoc]
    exact Text.dropWord?_append_self _ _
  · rw [hclosing] at hlabel ⊢
    exact Text.cutAt?_of_not_mem (hlabel m rfl) rest

/-- A text behind that has no marks and does not go on an id does not matter. -/
theorem declaration?_append (hb : b ∈ brackets) (hstops : Stops rest)
    (hrest : ∀ c ∈ rest, c ∉ marks) (cs : List Char) : declaration? b (cs ++ rest)
      = (declaration? b cs).map fun (id, label, after) => (id, label, after ++ rest) := by
  have hopening : ∀ c ∈ b.opening, c ∉ rest := fun c hc hmem =>
    hrest c hmem (Bracket.mem_marks b hb c (List.mem_append_left _ hc))
  have hclosing : ∀ c ∈ b.closing, c ∉ rest := fun c hc hmem =>
    hrest c hmem (Bracket.mem_marks b hb c (List.mem_append_right _ hc))
  unfold declaration?
  rw [takeId?_append hstops.halts]
  cases takeId? cs with
  | none => rfl
  | some pair =>
    obtain ⟨id, after⟩ := pair
    simp only [Option.map_some, Text.dropWord?_append hopening]
    cases Text.dropWord? b.opening after with
    | none => rfl
    | some inner =>
      simp only [Option.map_some, Text.cutAt?_append (Bracket.closing_ne_nil b hb) hclosing,
        Option.map_map]
      rfl

/-! ## All declarations in one kind of brackets -/

theorem declarations_nil : declarations b [] = ([], []) := by
  rw [declarations]
  rfl

theorem declarations_of_some {label : List Char}
    (h : declaration? b cs = some (id, label, rest)) : declarations b cs =
      (id ++ (declarations b rest).1, b.node id label :: (declarations b rest).2) := by
  rw [declarations]
  split
  · next heq =>
    rw [h] at heq
    cases heq
    rfl
  · next heq =>
    rw [h] at heq
    cases heq

theorem declarations_of_none (h : declaration? b (c :: cs) = none) : declarations b (c :: cs) =
    (c :: (declarations b cs).1, (declarations b cs).2) := by
  rw [declarations]
  split
  · next heq =>
    rw [h] at heq
    cases heq
  · rfl

theorem declarations_of_not_standsIn (h : ¬ b.StandsIn cs) : declarations b cs = (cs, []) := by
  induction cs with
  | nil => exact declarations_nil
  | cons c cs ih =>
    have hnone : declaration? b (c :: cs) = none :=
      Option.eq_none_iff_forall_ne_some.mpr fun decl hdecl => h (standsIn_of_declaration? hdecl)
    rw [declarations_of_none hnone, ih (mt (·.mono (List.suffix_cons c cs).isInfix) h)]

/-- What stands in a text is declared. -/
theorem declarations_ne_nil (hb : b ∈ brackets) (h : b.StandsIn cs) :
    (declarations b cs).2 ≠ [] := by
  induction cs with
  | nil =>
    obtain ⟨c, label, -, hlabel⟩ := h
    cases List.infix_nil.mp hlabel
  | cons d cs ih =>
    cases hdecl : declaration? b (d :: cs) with
    | some decl =>
      rw [declarations_of_some hdecl]
      exact List.cons_ne_nil _ _
    | none =>
      rw [declarations_of_none hdecl]
      obtain ⟨c, label, hc, hlabel⟩ := h
      rcases List.infix_cons_iff.mp hlabel with ⟨after, hfront⟩ | hinfix
      · obtain ⟨decl, hsome⟩ := exists_declaration? hb hc label after
        rw [← hfront] at hdecl
        exact nomatch hdecl.symm.trans hsome
      · exact ih ⟨c, label, hc, hinfix⟩

theorem shape_of_mem_declarations {n : Node} (h : n ∈ (declarations b cs).2) :
    n.shape = b.shape := by
  induction cs using declarations.induct b with
  | case1 cs id label rest hdecl _ _ _ ih =>
    rw [declarations_of_some hdecl] at h
    rcases List.mem_cons.mp h with rfl | h
    · rfl
    · exact ih h
  | case2 =>
    rw [declarations_nil] at h
    cases h
  | case3 c cs hdecl _ _ _ ih =>
    rw [declarations_of_none hdecl] at h
    exact ih h

theorem mem_of_mem_declarations (h : c ∈ (declarations b cs).1) : c ∈ cs := by
  induction cs using declarations.induct b with
  | case1 cs id label rest hdecl _ _ _ ih =>
    rw [declarations_of_some hdecl] at h
    rw [(eq_of_declaration? hdecl).1]
    rcases List.mem_append.mp h with h | h
    · exact List.mem_append_left _ h
    · exact List.mem_append_right _ (List.mem_append_right _ (ih h))
  | case2 =>
    rw [declarations_nil] at h
    cases h
  | case3 d cs hdecl _ _ _ ih =>
    rw [declarations_of_none hdecl] at h
    rcases List.mem_cons.mp h with rfl | h
    · exact List.mem_cons_self
    · exact List.mem_cons_of_mem _ (ih h)

theorem declarations_fst_ne_nil (h : cs ≠ []) : (declarations b cs).1 ≠ [] := by
  cases cs with
  | nil => contradiction
  | cons c cs =>
    cases hdecl : declaration? b (c :: cs) with
    | some decl =>
      obtain ⟨id, label, rest⟩ := decl
      obtain ⟨-, front, d, rfl, -⟩ := eq_of_declaration? hdecl
      simp [declarations_of_some hdecl]
    | none =>
      rw [declarations_of_none hdecl]
      exact List.cons_ne_nil _ _

/-! ## What stands around a label -/

theorem declarations_append (hb : b ∈ brackets) (hstops : Stops rest)
    (hrest : ∀ c ∈ rest, c ∉ marks) (cs : List Char) :
    declarations b (cs ++ rest) = ((declarations b cs).1 ++ rest, (declarations b cs).2) := by
  have happend := declaration?_append hb hstops hrest
  induction cs using declarations.induct b with
  | case1 cs id label after hdecl _ _ _ ih =>
    have hsome := happend cs
    rw [hdecl, Option.map_some] at hsome
    rw [declarations_of_some hsome, declarations_of_some hdecl, ih, List.append_assoc]
  | case2 =>
    rw [List.nil_append, declarations_of_not_standsIn (Bracket.not_standsIn_of_unmarked hb hrest),
      declarations_nil, List.nil_append]
  | case3 c cs hdecl _ _ _ ih =>
    have hnone := happend (c :: cs)
    rw [hdecl, Option.map_none, List.cons_append] at hnone
    rw [List.cons_append, declarations_of_none hnone, declarations_of_none hdecl, ih,
      List.cons_append]

theorem stops_bar : Stops ('|' :: rest) := stops_cons (by decide)

/-- A text without marks, before something that opens no brackets, begins no declaration. -/
theorem declaration?_unmarked (hb : b ∈ brackets) (hrest : Halts rest)
    (hopen : ¬ b.opening <+: rest) {front : List Char} (hfront : ∀ c ∈ front, c ∉ marks) :
    declaration? b (front ++ rest) = none := by
  obtain ⟨o, os, hopening, hmark⟩ := Bracket.exists_opening hb
  unfold declaration?
  rw [takeId?_append hrest]
  cases hid : takeId? front with
  | none => rfl
  | some pair =>
    obtain ⟨id, after⟩ := pair
    obtain ⟨rfl, -⟩ := takeId?_eq_some hid
    have hword : Text.dropWord? b.opening (after ++ rest) = none := by
      cases after with
      | nil =>
        refine Option.eq_none_iff_forall_ne_some.mpr fun behind hbehind => hopen ⟨behind, ?_⟩
        exact (Text.dropWord?_eq_some_iff.mp hbehind).symm
      | cons a after =>
        rw [hopening]
        refine Text.dropWord?_eq_none_of_head fun d hd heq => ?_
        cases hd
        exact hfront _ (List.mem_append_right _ List.mem_cons_self) (heq ▸ hmark)
    simp only [Option.map_some, hword]

theorem declarations_unmarked (hb : b ∈ brackets) (hrest : Halts rest)
    (hopen : ¬ b.opening <+: rest) {front : List Char} (hfront : ∀ c ∈ front, c ∉ marks) :
    declarations b (front ++ rest)
      = (front ++ (declarations b rest).1, (declarations b rest).2) := by
  have hnone := declaration?_unmarked hb hrest hopen hfront
  induction front with
  | nil => rfl
  | cons c front ih =>
    rw [List.forall_mem_cons] at hfront
    rw [List.cons_append] at hnone ⊢
    rw [declarations_of_none hnone, ih hfront.2 (declaration?_unmarked hb hrest hopen hfront.2),
      List.cons_append]

theorem declarations_marks {front : List Char} (hfront : ∀ c ∈ front, c ∈ marks) (cs : List Char) :
    declarations b (front ++ cs) = (front ++ (declarations b cs).1, (declarations b cs).2) := by
  induction front with
  | nil => rfl
  | cons c front ih =>
    rw [List.forall_mem_cons] at hfront
    have hstops : Stops (c :: (front ++ cs)) := stops_of_mem_marks hfront.1
    have hnone : declaration? b (c :: (front ++ cs)) = none := by
      rw [declaration?, takeId?_of_head hstops.halts.head]
    rw [List.cons_append, declarations_of_none hnone, ih hfront.2, List.cons_append]

/-- A bar behind a text without marks parts it from all declarations. -/
theorem declarations_bar (hb : b ∈ brackets) {front : List Char} (hfront : ∀ c ∈ front, c ∉ marks)
    (cs : List Char) : declarations b (front ++ '|' :: cs)
      = (front ++ '|' :: (declarations b cs).1, (declarations b cs).2) := by
  obtain ⟨o, os, hopening, hmark⟩ := Bracket.exists_opening hb
  have hbar : o ≠ '|' := by
    rintro rfl
    exact absurd hmark (by decide)
  have hopen : ¬ b.opening <+: '|' :: cs := by
    rw [hopening]
    rintro ⟨behind, heq⟩
    exact hbar (List.cons.inj heq).1
  have hnone : declaration? b ('|' :: cs) = none := by
    rw [declaration?, takeId?_of_head fun c hc => by cases hc; rfl]
  rw [declarations_unmarked hb stops_bar.halts hopen hfront, declarations_of_none hnone]

/-- Bars around a label part what is declared in it from the rest of the line. -/
theorem declarations_around (hb : b ∈ brackets) {front back : List Char}
    (hfront : ∀ c ∈ front, c ∉ marks) (hback : ∀ c ∈ back, c ∉ marks) (cs : List Char) :
    declarations b (front ++ '|' :: (cs ++ '|' :: back))
      = (front ++ '|' :: ((declarations b cs).1 ++ '|' :: back), (declarations b cs).2) := by
  have hbar : ∀ c ∈ '|' :: back, c ∉ marks := List.forall_mem_cons.mpr ⟨by decide, hback⟩
  rw [declarations_bar hb hfront, declarations_append hb stops_bar hbar]

/-! ## All kinds of brackets -/

/-- Takes the declarations in one more kind of brackets out of a text. -/
def takeOut (state : List Char × List Node) (b : Bracket) : List Char × List Node :=
  ((declarations b state.1).1, state.2 ++ (declarations b state.1).2)

theorem allDeclarations_eq (cs : List Char) :
    allDeclarations cs = brackets.foldl takeOut (cs, []) :=
  rfl

variable {bs : List Bracket} {ns : List Node}

theorem foldl_takeOut_of_not_standsIn (h : ∀ b ∈ bs, ¬ b.StandsIn cs) :
    bs.foldl takeOut (cs, ns) = (cs, ns) := by
  induction bs with
  | nil => rfl
  | cons b bs ih =>
    rw [List.forall_mem_cons] at h
    rw [List.foldl_cons, takeOut, declarations_of_not_standsIn h.1, List.append_nil, ih h.2]

theorem mem_of_mem_foldl_takeOut (h : c ∈ (bs.foldl takeOut (cs, ns)).1) : c ∈ cs := by
  induction bs generalizing cs ns with
  | nil => exact h
  | cons b bs ih => exact mem_of_mem_declarations (ih h)

theorem foldl_takeOut_fst_ne_nil (h : cs ≠ []) : (bs.foldl takeOut (cs, ns)).1 ≠ [] := by
  induction bs generalizing cs ns with
  | nil => exact h
  | cons b bs ih => exact ih (declarations_fst_ne_nil h)

theorem isPrefix_foldl_takeOut : ns <+: (bs.foldl takeOut (cs, ns)).2 := by
  induction bs generalizing cs ns with
  | nil => exact List.prefix_rfl
  | cons b bs ih => exact (List.prefix_append ns _).trans ih

/-- The first kind of brackets that stand in a text makes the first node. -/
theorem exists_cons_allDeclarations {earlier later : List Bracket}
    (hb : brackets = earlier ++ b :: later) (hearlier : ∀ e ∈ earlier, ¬ e.StandsIn cs)
    (h : b.StandsIn cs) : ∃ n ns, (allDeclarations cs).2 = n :: ns ∧ n.shape = b.shape := by
  have hmem : b ∈ brackets := hb ▸ List.mem_append_right _ List.mem_cons_self
  obtain ⟨n, ns, hdeclared⟩ := List.exists_cons_of_ne_nil (declarations_ne_nil hmem h)
  have hfront : n :: ns <+: (allDeclarations cs).2 := by
    rw [allDeclarations_eq, hb, List.foldl_append, List.foldl_cons,
      foldl_takeOut_of_not_standsIn hearlier, takeOut, List.nil_append, hdeclared]
    exact isPrefix_foldl_takeOut
  obtain ⟨more, hmore⟩ := hfront
  exact ⟨n, ns ++ more, hmore.symm, shape_of_mem_declarations (hdeclared ▸ List.mem_cons_self)⟩

theorem foldl_takeOut_around (hbs : ∀ b ∈ bs, b ∈ brackets) {front back : List Char}
    (hfront : ∀ c ∈ front, c ∉ marks) (hback : ∀ c ∈ back, c ∉ marks) :
    bs.foldl takeOut (front ++ '|' :: (cs ++ '|' :: back), ns)
      = (front ++ '|' :: ((bs.foldl takeOut (cs, ns)).1 ++ '|' :: back),
        (bs.foldl takeOut (cs, ns)).2) := by
  induction bs generalizing cs ns with
  | nil => rfl
  | cons b bs ih =>
    rw [List.forall_mem_cons] at hbs
    rw [List.foldl_cons, List.foldl_cons, ← ih hbs.2, takeOut, takeOut,
      declarations_around hbs.1 hfront hback]

/-- A text in which nothing is declared is left alone. -/
theorem allDeclarations_of_not_standsIn (h : ∀ b ∈ brackets, ¬ b.StandsIn cs) :
    allDeclarations cs = (cs, []) :=
  foldl_takeOut_of_not_standsIn h

theorem allDeclarations_around {front back : List Char} (hfront : ∀ c ∈ front, c ∉ marks)
    (hback : ∀ c ∈ back, c ∉ marks) (cs : List Char) :
    allDeclarations (front ++ '|' :: (cs ++ '|' :: back))
      = (front ++ '|' :: ((allDeclarations cs).1 ++ '|' :: back), (allDeclarations cs).2) :=
  foldl_takeOut_around (fun _ hb => hb) hfront hback

theorem IsId.not_mem_marks (h : IsId id) (hc : c ∈ id) : c ∉ marks := by
  intro hmark
  have hall : ∀ d ∈ marks, isIdChar d = false ∧ d ≠ '-' := by decide
  exact Text.Joined.not_mem h (hall c hmark).1 (hall c hmark).2 hc

/-- A statement that is one declaration, in brackets of which no earlier kind stands in it. -/
theorem allDeclarations_bracketed {earlier later : List Bracket}
    (hb : brackets = earlier ++ b :: later) (hid : IsId id) {label : List Char}
    (hlabel : ∀ m ∈ b.closing.head?, m ∉ label)
    (hearlier : ∀ e ∈ earlier, ¬ e.StandsIn (id ++ (b.opening ++ label ++ b.closing))) :
    allDeclarations (id ++ (b.opening ++ label ++ b.closing)) = (id, [b.node id label]) := by
  have hmem : b ∈ brackets := hb ▸ List.mem_append_right _ List.mem_cons_self
  have hlater : ∀ l ∈ later, ¬ l.StandsIn id := fun l hl =>
    Bracket.not_standsIn_of_unmarked
      (hb ▸ List.mem_append_right _ (List.mem_cons_of_mem _ hl)) fun _ => hid.not_mem_marks
  have hdecl := declaration?_bracketed hmem hid hlabel []
  rw [List.append_nil] at hdecl
  rw [allDeclarations_eq, hb, List.foldl_append, List.foldl_cons,
    foldl_takeOut_of_not_standsIn hearlier, takeOut, declarations_of_some hdecl, declarations_nil,
    List.append_nil, foldl_takeOut_of_not_standsIn hlater, List.nil_append]

end Whiteboard.Diagram.Flowchart

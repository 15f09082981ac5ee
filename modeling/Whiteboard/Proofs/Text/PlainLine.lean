import Whiteboard.Proofs.Text.Line

/-!
# Lines that are cut further

A reader of plain text ends lines at more characters than those that end the lines of a text: it
cuts each of these further (`Text.filter_plainLines`). Empty lines aside, for what follows the last
end of a line is none to it.
-/

namespace Whiteboard.Text

variable {c : Char} {cs line k : List Char} {more : List (List Char)} {p : List Char → Bool}

theorem isBlank_of_isLineEnd (h : isLineEnd c = true) : isBlank c = true := by
  simp only [isLineEnd, isBlank, Bool.or_eq_true, Bool.and_eq_true, decide_eq_true_eq,
    beq_iff_eq] at h ⊢
  omega

theorem mem_filledLines (hline : line ∈ lines cs) (hne : trim line ≠ []) :
    trim line ∈ filledLines cs := by
  rw [filledLines, List.mem_filter]
  exact ⟨List.mem_map_of_mem hline, by simpa using hne⟩

/-- What a text begins with stays if blanks are taken away at its end. -/
theorem isPrefix_dropEndWhile {mark : List Char} (hmark : ∀ c ∈ mark.getLast?, isBlank c = false)
    (h : mark <+: cs) : mark <+: dropEndWhile isBlank cs := by
  obtain ⟨rest, rfl⟩ := h
  by_cases hrest : ∃ c ∈ rest, isBlank c = false
  · rw [dropEndWhile_append_of_mem hrest]
    exact List.prefix_append _ _
  · have hblank : ∀ c ∈ rest, isBlank c = true := by simpa using hrest
    have hself : dropEndWhile isBlank mark = mark := by
      refine List.rdropWhile_eq_self_iff.mpr fun hne => ?_
      simpa using hmark _ (List.getLast?_eq_some_getLast hne)
    exact ⟨[], by rw [List.append_nil, dropEndWhile_append hblank, hself]⟩

/-! ## The first character -/

/-- A character that ends no line stands in front of the first one. -/
theorem plainLines_cons (hc : isLineEnd c = false) (cs : List Char) :
    plainLines (c :: cs) = (c :: (plainLines cs).headD []) :: (plainLines cs).tail := by
  rw [plainLines.eq_3 c cs ?_, if_neg (Bool.eq_false_iff.mp hc)]
  · cases plainLines cs <;> rfl
  · rintro rest rfl
    contradiction

/-- A line feed behind a carriage return ends no line of its own. -/
theorem plainLines_cons_of_isLineEnd (hc : isLineEnd c = true) (cs : List Char) :
    ∃ ks, plainLines (c :: cs) = [] :: ks ∧ (plainLines cs = ks ∨ plainLines cs = [] :: ks) := by
  by_cases hreturn : c = '\r' ∧ cs.head? = some '\n'
  · obtain ⟨rfl, hhead⟩ := hreturn
    obtain ⟨rest, rfl⟩ := List.head?_eq_some_iff.mp hhead
    exact ⟨plainLines rest, rfl, .inr rfl⟩
  · refine ⟨plainLines cs, ?_, .inl rfl⟩
    rw [plainLines.eq_3 c cs ?_, if_pos hc]
    rintro rest rfl rfl
    exact hreturn ⟨rfl, rfl⟩

theorem headD_plainLines (hc : isLineEnd c = true) (cs : List Char) :
    (plainLines (c :: cs)).headD [] = [] := by
  obtain ⟨ks, hks, -⟩ := plainLines_cons_of_isLineEnd hc cs
  rw [hks]
  rfl

theorem isPrefix_headD_plainLines (cs : List Char) : (plainLines cs).headD [] <+: cs := by
  induction cs with
  | nil => exact List.prefix_rfl
  | cons c cs ih =>
    cases hc : isLineEnd c with
    | true =>
      rw [headD_plainLines hc]
      exact List.nil_prefix
    | false =>
      rw [plainLines_cons hc]
      exact List.cons_prefix_cons.mpr ⟨rfl, ih⟩

/-! ## Lines that are not passed over -/

theorem filter_tail_plainLines (hp : p [] = false) (hc : isLineEnd c = true) (cs : List Char) :
    (plainLines (c :: cs)).tail.filter p = (plainLines cs).filter p := by
  obtain ⟨ks, hks, htail | htail⟩ := plainLines_cons_of_isLineEnd hc cs <;> simp [hks, htail, hp]

/-- The first plain line of a text is that of its first line; the others come from what is left of
this line and from the other lines. -/
structure CutFurther (p : List Char → Bool) (cs line : List Char) (more : List (List Char)) :
    Prop where
  lines_eq : lines cs = line :: more
  headD_eq : (plainLines cs).headD [] = (plainLines line).headD []
  tail_eq : (plainLines cs).tail.filter p
    = (plainLines line).tail.filter p ++ more.flatMap fun l => (plainLines l).filter p

theorem CutFurther.filter_plainLines (hp : p [] = false) (h : CutFurther p cs line more) :
    (plainLines cs).filter p
      = (plainLines line).filter p ++ more.flatMap fun l => (plainLines l).filter p := by
  have hsplit (ks : List (List Char)) :
      ks.filter p = [ks.headD []].filter p ++ ks.tail.filter p := by
    cases ks with
    | nil => simp [hp]
    | cons k ks => exact List.filter_append [k] ks
  rw [hsplit, h.headD_eq, h.tail_eq, ← List.append_assoc, ← hsplit]

theorem CutFurther.flatMap_lines (hp : p [] = false) (h : CutFurther p cs line more) :
    (plainLines cs).filter p = (lines cs).flatMap fun l => (plainLines l).filter p := by
  rw [h.lines_eq, List.flatMap_cons, h.filter_plainLines hp]

theorem exists_cutFurther (hp : p [] = false) (cs : List Char) :
    ∃ line more, CutFurther p cs line more := by
  induction cs using lines.induct with
  | case1 => exact ⟨[], [], rfl, rfl, rfl⟩
  | case2 rest ih | case3 rest ih =>
    obtain ⟨line, more, h⟩ := ih
    exact ⟨[], lines rest, rfl, rfl, h.flatMap_lines hp⟩
  | case4 c rest _ _ hnil => exact absurd hnil (lines_ne_nil rest)
  | case5 c rest hfeed hreturn _ _ _ ih =>
    obtain ⟨line, more, h⟩ := ih
    have hlines : lines (c :: rest) = (c :: line) :: more := by
      rw [lines.eq_4 c rest hfeed hreturn, h.lines_eq]
    refine ⟨c :: line, more, hlines, ?_, ?_⟩
    · cases hc : isLineEnd c with
      | true => rw [headD_plainLines hc, headD_plainLines hc]
      | false =>
        rw [plainLines_cons hc, plainLines_cons hc]
        exact congrArg (c :: ·) h.headD_eq
    · cases hc : isLineEnd c with
      | true =>
        rw [filter_tail_plainLines hp hc, filter_tail_plainLines hp hc]
        exact h.filter_plainLines hp
      | false =>
        rw [plainLines_cons hc, plainLines_cons hc]
        exact h.tail_eq

/-- The plain lines of a text are those of its lines. -/
theorem filter_plainLines (hp : p [] = false) (cs : List Char) :
    (plainLines cs).filter p = (lines cs).flatMap fun l => (plainLines l).filter p := by
  obtain ⟨line, more, h⟩ := exists_cutFurther hp cs
  exact h.flatMap_lines hp

/-- The first plain line that is not passed over is the first one of some line. -/
theorem exists_line_of_find?_plainLines (hp : p [] = false) (h : (plainLines cs).find? p = some k) :
    ∃ line ∈ lines cs, (plainLines line).find? p = some k := by
  rw [← List.head?_filter, filter_plainLines hp, List.head?_flatMap] at h
  obtain ⟨line, hline, hhead⟩ := List.exists_of_findSome?_eq_some h
  exact ⟨line, hline, List.head?_filter.symm.trans hhead⟩

end Whiteboard.Text

import Whiteboard.Proofs.Text.Blank

/-!
# Lines that are trimmed

What a reader finds in a text that takes the blanks around each line away and passes over blank
lines (`Text.filledLines`). Blanks around the whole text do not matter to it
(`Text.filledLines_trim`), and a text without such lines is blank
(`Text.filledLines_eq_nil_iff`).
-/

namespace Whiteboard.Text

variable {c : Char} {cs : List Char}

/-! ## Blanks at the end -/

theorem dropEndWhile_append_of_mem (h : ∃ c ∈ cs, isBlank c = false) (u : List Char) :
    dropEndWhile isBlank (u ++ cs) = u ++ dropEndWhile isBlank cs := by
  have hreverse : ∃ c ∈ cs.reverse, isBlank c = false := by simpa using h
  have hleft : (cs.reverse ++ u.reverse).dropWhile isBlank
      = cs.reverse.dropWhile isBlank ++ u.reverse :=
    trimLeft_append_of_mem hreverse u.reverse
  rw [dropEndWhile, List.reverse_append, hleft, List.reverse_append, List.reverse_reverse,
    dropEndWhile]

theorem dropEndWhile_cons (c : Char) (cs : List Char) :
    dropEndWhile isBlank (c :: dropEndWhile isBlank cs) = dropEndWhile isBlank (c :: cs) := by
  have hcs : dropEndWhile isBlank cs ++ cs.rtakeWhile isBlank = cs :=
    List.rdropWhile_append_rtakeWhile ..
  have hblank : ∀ d ∈ cs.rtakeWhile isBlank, isBlank d = true := by
    intro d hd
    exact List.mem_rtakeWhile_imp hd
  calc dropEndWhile isBlank (c :: dropEndWhile isBlank cs)
      = dropEndWhile isBlank (c :: dropEndWhile isBlank cs ++ cs.rtakeWhile isBlank) :=
        (dropEndWhile_append hblank).symm
    _ = dropEndWhile isBlank (c :: cs) := by rw [List.cons_append, hcs]

/-- Blanks may be taken away at the end first. -/
theorem trimLeft_dropEndWhile (cs : List Char) : trimLeft (dropEndWhile isBlank cs) = trim cs := by
  obtain ⟨u, v, hu, hv, hpad, htrimmed⟩ := exists_pad cs
  generalize trim cs = core at hpad htrimmed ⊢
  rw [hpad, dropEndWhile_append hv]
  obtain rfl | ⟨ds, d, rfl⟩ := List.eq_nil_or_concat core
  · have hnil : dropEndWhile isBlank (u ++ []) = [] := by
      apply List.rdropWhile_eq_nil_iff.mpr
      simpa using hu
    rw [hnil]
    rfl
  · have hself : dropEndWhile isBlank (u ++ ds.concat d) = u ++ ds.concat d := by
      apply List.rdropWhile_eq_self_iff.mpr
      intro hne
      simpa using htrimmed.last d (by simp)
    rw [hself, trimLeft_append hu, trimLeft_of_head htrimmed.head]

theorem trim_dropEndWhile (cs : List Char) : trim (dropEndWhile isBlank cs) = trim cs := by
  rw [trim, trimLeft_dropEndWhile, (trimmed_trim cs).dropEndWhile_eq]

theorem trim_append_of_blank {v : List Char} (h : ∀ c ∈ v, isBlank c = true) (cs : List Char) :
    trim (cs ++ v) = trim cs := by
  rw [← trim_dropEndWhile, dropEndWhile_append h, trim_dropEndWhile]

theorem trim_cons_of_blank (h : isBlank c = true) (cs : List Char) : trim (c :: cs) = trim cs := by
  rw [trim, trimLeft_cons_of_blank h, trim]

theorem trim_ne_nil_iff : trim cs ≠ [] ↔ ∃ c ∈ cs, isBlank c = false := by
  obtain ⟨u, v, hu, hv, hpad, htrimmed⟩ := exists_pad cs
  constructor
  · intro hne
    obtain ⟨c, rest, hcore⟩ := List.exists_cons_of_ne_nil hne
    refine ⟨c, ?_, htrimmed.head c (by rw [hcore]; rfl)⟩
    rw [hpad, hcore]
    simp
  · rintro ⟨c, hc, hblank⟩ hnil
    rw [hpad, hnil, List.append_nil] at hc
    have hall : isBlank c = true := (List.mem_append.mp hc).elim (hu c) (hv c)
    rw [hall] at hblank
    contradiction

/-! ## Lines without the blanks at their ends -/

theorem lines_ne_nil (cs : List Char) : lines cs ≠ [] := by
  fun_cases lines cs <;> exact List.cons_ne_nil _ _

/-- A carriage return before a line feed is no part of the line. -/
theorem exists_lines_append {line : List Char} (h : '\n' ∉ line) (rest : List Char) :
    ∃ front, lines (line ++ '\n' :: rest) = front :: lines rest ∧
      (line = front ∨ line = front ++ ['\r']) := by
  induction line with
  | nil => exact ⟨[], rfl, .inl rfl⟩
  | cons c line ih =>
    rw [List.mem_cons, not_or] at h
    obtain ⟨front, hlines, hfront⟩ := ih h.2
    by_cases hreturn : c = '\r' ∧ line = []
    · obtain ⟨rfl, rfl⟩ := hreturn
      exact ⟨[], rfl, .inr rfl⟩
    · refine ⟨c :: front, lines_cons (Ne.symm h.1) ?_ hlines, ?_⟩
      · intro hc d hd hfeed
        obtain ⟨d', line, rfl⟩ := List.exists_cons_of_ne_nil fun hnil => hreturn ⟨hc, hnil⟩
        cases hd
        exact h.2 (hfeed ▸ List.mem_cons_self)
      · exact hfront.imp (congrArg (c :: ·)) (congrArg (c :: ·))

/-- The lines of a text without the blanks at their ends. -/
def bareLines (cs : List Char) : List (List Char) := (lines cs).map (dropEndWhile isBlank)

theorem bareLines_feed (cs : List Char) : bareLines ('\n' :: cs) = [] :: bareLines cs := rfl

/-- A carriage return before a line feed is a blank at the end of its line. -/
theorem bareLines_cons (hc : c ≠ '\n') (cs : List Char) : bareLines (c :: cs)
    = (bareLines cs).modifyHead fun line => dropEndWhile isBlank (c :: line) := by
  by_cases hreturn : c = '\r' ∧ cs.head? = some '\n'
  · obtain ⟨rfl, hhead⟩ := hreturn
    obtain ⟨rest, rfl⟩ := List.head?_eq_some_iff.mp hhead
    rfl
  · obtain ⟨line, more, hlines⟩ := List.exists_cons_of_ne_nil (lines_ne_nil cs)
    have hcons : lines (c :: cs) = (c :: line) :: more := by
      apply lines_cons hc ?_ hlines
      rintro rfl d hd rfl
      exact hreturn ⟨rfl, hd⟩
    rw [bareLines, hcons, bareLines, hlines, List.map_cons, List.map_cons, List.modifyHead_cons,
      dropEndWhile_cons]

theorem bareLines_ne_nil (cs : List Char) : bareLines cs ≠ [] :=
  mt List.map_eq_nil_iff.mp (lines_ne_nil cs)

/-- A blank at the end of a text ends the last line, or adds nothing to it. -/
theorem bareLines_concat (hc : isBlank c = true) (cs : List Char) :
    bareLines (cs ++ [c]) = bareLines cs ∨ bareLines (cs ++ [c]) = bareLines cs ++ [[]] := by
  induction cs with
  | nil =>
    by_cases hfeed : c = '\n'
    · subst hfeed
      exact .inr rfl
    · have hnil : dropEndWhile isBlank [c] = [] := by
        apply List.rdropWhile_eq_nil_iff.mpr
        simpa using hc
      left
      rw [List.nil_append, bareLines_cons hfeed]
      exact congrArg (· :: []) hnil
  | cons d cs ih =>
    by_cases hfeed : d = '\n'
    · subst hfeed
      rw [List.cons_append, bareLines_feed, bareLines_feed]
      exact ih.imp (congrArg ([] :: ·)) (congrArg ([] :: ·))
    · rw [List.cons_append, bareLines_cons hfeed, bareLines_cons hfeed]
      obtain ⟨line, more, hlines⟩ := List.exists_cons_of_ne_nil (bareLines_ne_nil cs)
      rw [hlines] at ih ⊢
      rcases ih with ih | ih
      · left
        rw [ih]
      · right
        rw [ih]
        rfl

/-! ## Lines that are not blank -/

/-- The lines of a text that are not blank, without the blanks around them. -/
def filledLines (cs : List Char) : List (List Char) := ((lines cs).map trim).filter (!·.isEmpty)

theorem filledLines_eq (cs : List Char) :
    filledLines cs = ((bareLines cs).map trim).filter (!·.isEmpty) := by
  have htrim : trim ∘ dropEndWhile isBlank = trim := funext trim_dropEndWhile
  rw [bareLines, List.map_map, htrim, filledLines]

/-- A reader that refuses blank lines reads lines that are not blank. -/
theorem filter_trim_lines {p : List Char → Bool} (hp : p [] = false) (cs : List Char) :
    ((lines cs).map trim).filter p = (filledLines cs).filter p := by
  rw [filledLines, List.filter_filter]
  apply List.filter_congr
  intro line _
  cases line with
  | nil => rw [hp, Bool.false_and]
  | cons c line => rw [List.isEmpty_cons, Bool.not_false, Bool.and_true]

theorem filledLines_cons_of_blank (hc : isBlank c = true) (cs : List Char) :
    filledLines (c :: cs) = filledLines cs := by
  rw [filledLines_eq, filledLines_eq]
  by_cases hfeed : c = '\n'
  · subst hfeed
    rfl
  · obtain ⟨line, more, hlines⟩ := List.exists_cons_of_ne_nil (bareLines_ne_nil cs)
    rw [bareLines_cons hfeed, hlines, List.modifyHead_cons, List.map_cons, List.map_cons,
      trim_dropEndWhile, trim_cons_of_blank hc]

theorem filledLines_concat_of_blank (hc : isBlank c = true) (cs : List Char) :
    filledLines (cs ++ [c]) = filledLines cs := by
  rw [filledLines_eq, filledLines_eq]
  rcases bareLines_concat hc cs with hlines | hlines
  · rw [hlines]
  · rw [hlines, List.map_append, List.filter_append]
    exact List.append_nil _

/-- Blanks around a text do not matter. -/
theorem filledLines_trim (cs : List Char) : filledLines (trim cs) = filledLines cs := by
  obtain ⟨u, v, hu, hv, hpad, -⟩ := exists_pad cs
  generalize trim cs = core at hpad
  subst hpad
  have hright : filledLines (core ++ v) = filledLines core := by
    induction v using List.reverseRecOn with
    | nil => rw [List.append_nil]
    | append_singleton v c ih =>
      rw [List.forall_mem_append, List.forall_mem_singleton] at hv
      rw [← List.append_assoc, filledLines_concat_of_blank hv.2, ih hv.1]
  induction u with
  | nil => exact hright.symm
  | cons c u ih =>
    rw [List.forall_mem_cons] at hu
    rw [List.cons_append, List.cons_append, filledLines_cons_of_blank hu.1]
    exact ih hu.2

/-- A text is blank if all its lines are. -/
theorem filledLines_eq_nil_iff : filledLines cs = [] ↔ trim cs = [] := by
  rw [← filledLines_trim]
  constructor
  · intro hnil
    have htrimmed := trimmed_trim cs
    generalize trim cs = core at hnil htrimmed
    cases core with
    | nil => rfl
    | cons c core =>
      have hc : isBlank c = false := htrimmed.head c rfl
      have hfeed : c ≠ '\n' := by
        rintro rfl
        exact absurd hc (by decide)
      obtain ⟨line, more, hlines⟩ := List.exists_cons_of_ne_nil (bareLines_ne_nil core)
      rw [filledLines_eq, bareLines_cons hfeed, hlines, List.modifyHead_cons, List.map_cons,
        trim_dropEndWhile] at hnil
      have hline := List.filter_eq_nil_iff.mp hnil _ List.mem_cons_self
      exact absurd (by simpa using hline) (trim_ne_nil hc line)
  · intro hnil
    rw [hnil]
    rfl

end Whiteboard.Text

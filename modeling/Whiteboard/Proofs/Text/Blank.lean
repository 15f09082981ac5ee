import Mathlib.Data.List.DropRight
import Whiteboard.Text.Blank
import Whiteboard.Text.Line
import Whiteboard.Text.Word

/-!
# Blanks and lines

What trimming takes away is blank, and what is left has no blanks around it (`Text.exists_pad`).
Lines that are joined by line feeds are cut where they were joined (`Text.lines_intercalate`).
-/

namespace Whiteboard.Text

variable {c : Char} {u v cs : List Char}

/-! ## Leading blanks -/

theorem trimLeft_cons_of_blank (h : isBlank c = true) : trimLeft (c :: cs) = trimLeft cs :=
  List.dropWhile_cons_of_pos h

theorem trimLeft_cons (h : isBlank c = false) : trimLeft (c :: cs) = c :: cs :=
  List.dropWhile_cons_of_neg (by simp [h])

@[simp] theorem trimLeft_space : trimLeft (' ' :: cs) = trimLeft cs :=
  trimLeft_cons_of_blank (by decide)

theorem trimLeft_append (h : ∀ c ∈ u, isBlank c = true) : trimLeft (u ++ cs) = trimLeft cs :=
  List.dropWhile_append_of_pos h

theorem trimLeft_of_head (h : ∀ c ∈ cs.head?, isBlank c = false) : trimLeft cs = cs := by
  cases cs with
  | nil => rfl
  | cons c cs => exact trimLeft_cons (h c rfl)

theorem trimLeft_append_of_head (h : ∃ c ∈ u.head?, isBlank c = false) (cs : List Char) :
    trimLeft (u ++ cs) = u ++ cs := by
  obtain ⟨c, hc, hblank⟩ := h
  refine trimLeft_of_head fun d hd => ?_
  rw [List.head?_append, hc] at hd
  cases hd
  exact hblank

theorem trimLeft_ne_nil_of_mem (h : ∃ c ∈ u, isBlank c = false) : trimLeft u ≠ [] := by
  intro hnil
  obtain ⟨c, hc, hblank⟩ := h
  exact Bool.false_ne_true (hblank.symm.trans (List.dropWhile_eq_nil_iff.mp hnil c hc))

theorem trimLeft_append_of_mem (h : ∃ c ∈ u, isBlank c = false) (cs : List Char) :
    trimLeft (u ++ cs) = trimLeft u ++ cs := by
  have hne : (u.dropWhile isBlank).isEmpty ≠ true := by
    simpa [trimLeft] using trimLeft_ne_nil_of_mem h
  rw [trimLeft, List.dropWhile_append, if_neg hne]
  rfl

theorem trimLeft_append_cons (hc : isBlank c = false) (u cs : List Char) :
    trimLeft (u ++ c :: cs) = trimLeft u ++ c :: cs := by
  by_cases h : ∃ d ∈ u, isBlank d = false
  · exact trimLeft_append_of_mem h (c :: cs)
  · have hu : ∀ d ∈ u, isBlank d = true := by simpa using h
    have hnil : trimLeft u = [] := List.dropWhile_eq_nil_iff.mpr hu
    rw [trimLeft_append hu, trimLeft_cons hc, hnil, List.nil_append]

theorem trim_trimLeft (cs : List Char) : trim (trimLeft cs) = trim cs := by
  have hidem : trimLeft (trimLeft cs) = trimLeft cs := List.dropWhile_idempotent ..
  rw [trim, hidem, trim]

theorem trimLeft_ne_nil (h : trim cs ≠ []) : trimLeft cs ≠ [] := by
  intro hnil
  rw [trim, hnil] at h
  exact h rfl

/-! ## Texts without blanks around them -/

/-- A text that neither begins nor ends with a blank. -/
structure Trimmed (cs : List Char) : Prop where
  head : ∀ c ∈ cs.head?, isBlank c = false
  last : ∀ c ∈ cs.getLast?, isBlank c = false

theorem trim_ne_nil (h : isBlank c = false) (cs : List Char) : trim (c :: cs) ≠ [] := by
  have hrest : ¬ ∀ d ∈ c :: cs, isBlank d = true := fun hall =>
    Bool.false_ne_true (h.symm.trans (hall c List.mem_cons_self))
  rw [trim, trimLeft_cons h]
  exact mt List.rdropWhile_eq_nil_iff.mp hrest

theorem dropEndWhile_append (h : ∀ c ∈ v, isBlank c = true) :
    dropEndWhile isBlank (cs ++ v) = dropEndWhile isBlank cs := by
  rw [dropEndWhile, List.reverse_append,
    List.dropWhile_append_of_pos (by simpa using h), dropEndWhile]

theorem Trimmed.dropEndWhile_eq (h : Trimmed cs) : dropEndWhile isBlank cs = cs := by
  refine List.rdropWhile_eq_self_iff.mpr fun hne => ?_
  simpa using h.last _ (List.getLast?_eq_some_getLast hne)

theorem Trimmed.trim_eq (h : Trimmed cs) : trim cs = cs := by
  rw [trim, trimLeft_of_head h.head, h.dropEndWhile_eq]

/-- A text that begins and ends with other characters than blanks. -/
theorem trimmed_append (hu : ∃ c us, u = c :: us ∧ isBlank c = false)
    (hv : ∃ c vs, v = vs ++ [c] ∧ isBlank c = false) : Trimmed (u ++ v) := by
  obtain ⟨c, us, rfl, hc⟩ := hu
  obtain ⟨d, vs, rfl, hd⟩ := hv
  constructor
  · simpa using hc
  · rw [← List.append_assoc, List.getLast?_concat]
    simpa using hd

theorem Trimmed.trim_pad (h : Trimmed cs) (hu : ∀ c ∈ u, isBlank c = true)
    (hv : ∀ c ∈ v, isBlank c = true) : trim (u ++ cs ++ v) = cs := by
  rw [List.append_assoc, trim, trimLeft_append hu]
  cases cs with
  | nil =>
    have hnil : trimLeft ([] ++ v) = [] := List.dropWhile_eq_nil_iff.mpr hv
    rw [hnil]
    rfl
  | cons c cs =>
    rw [List.cons_append, trimLeft_cons (h.head c rfl), ← List.cons_append, dropEndWhile_append hv,
      h.dropEndWhile_eq]

/-- A text is what trimming leaves of it, with blanks around. -/
theorem exists_pad (cs : List Char) : ∃ u v, (∀ c ∈ u, isBlank c = true) ∧
    (∀ c ∈ v, isBlank c = true) ∧ cs = u ++ trim cs ++ v ∧ Trimmed (trim cs) := by
  refine ⟨cs.takeWhile isBlank, (trimLeft cs).rtakeWhile isBlank, fun c hc =>
    List.mem_takeWhile_imp hc, fun c hc => List.mem_rtakeWhile_imp hc, ?_, ?_, ?_⟩
  · have hright : trim cs ++ (trimLeft cs).rtakeWhile isBlank = trimLeft cs :=
      List.rdropWhile_append_rtakeWhile ..
    rw [List.append_assoc, hright]
    exact List.takeWhile_append_dropWhile.symm
  · intro c hc
    obtain ⟨rest, hrest⟩ : trim cs <+: trimLeft cs := List.rdropWhile_prefix ..
    have hhead : (trimLeft cs).head? = some c := by
      rw [← hrest, List.head?_append, hc]
      rfl
    have hnot := List.head?_dropWhile_not isBlank cs
    rwa [show (cs.dropWhile isBlank).head? = some c from hhead] at hnot
  · intro c hc
    have hne : trim cs ≠ [] := fun hnil => by simp [hnil] at hc
    have hnot := List.rdropWhile_last_not isBlank (trimLeft cs) hne
    rw [List.getLast?_eq_some_getLast hne, Option.mem_some_iff] at hc
    rw [← hc]
    exact Bool.eq_false_iff.mpr hnot

theorem trimmed_trim (cs : List Char) : Trimmed (trim cs) := by
  obtain ⟨-, -, -, -, -, htrimmed⟩ := exists_pad cs
  exact htrimmed

theorem trimmed_intercalate {ls : List (List Char)} (hne : ls ≠ [])
    (h : ∀ line ∈ ls, line ≠ [] ∧ Trimmed line) :
    ['\n'].intercalate ls ≠ [] ∧ Trimmed (['\n'].intercalate ls) := by
  induction ls with
  | nil => contradiction
  | cons line ls ih =>
    rw [List.forall_mem_cons] at h
    cases ls with
    | nil => simpa using h.1
    | cons next ls =>
      obtain ⟨hrest, htrimmed⟩ := ih (List.cons_ne_nil _ _) h.2
      rw [List.intercalate_cons_cons]
      refine ⟨fun hnil => hrest (List.append_eq_nil_iff.mp hnil).2, ?_, ?_⟩
      · rw [List.append_assoc, List.head?_append_of_ne_nil _ h.1.1]
        exact h.1.2.head
      · rw [List.getLast?_append_of_ne_nil _ hrest]
        exact htrimmed.last

/-! ## Letters are no blanks -/

/-- The code points of the blanks. -/
def blankCodes : List Nat :=
  [9, 10, 11, 12, 13, 28, 29, 30, 31, 32, 0x85, 0xA0, 0x1680, 0x2000, 0x2001, 0x2002, 0x2003,
    0x2004, 0x2005, 0x2006, 0x2007, 0x2008, 0x2009, 0x200A, 0x2028, 0x2029, 0x202F, 0x205F, 0x3000]

theorem toNat_of_isBlank (h : isBlank c = true) : c.toNat ∈ blankCodes := by
  simp only [isBlank, Bool.or_eq_true, Bool.and_eq_true, decide_eq_true_eq, beq_iff_eq] at h
  simp only [blankCodes, List.mem_cons, List.not_mem_nil]
  omega

theorem isWord_of_isBlank (h : isBlank c = true) : isWord c = false := by
  have hall : ∀ n ∈ blankCodes, isWord (Char.ofNat n) = false := by decide +kernel
  simpa using hall c.toNat (toNat_of_isBlank h)

theorem isBlank_of_isDigit (h : isDigit c = true) : isBlank c = false := by
  have hall : ∀ n ∈ blankCodes, isDigit (Char.ofNat n) = false := by decide +kernel
  by_contra hblank
  have hdigit := hall c.toNat (toNat_of_isBlank (by simpa using hblank))
  rw [Char.ofNat_toNat, h] at hdigit
  contradiction

theorem isBlank_of_isWord (h : isWord c = true) : isBlank c = false := by
  by_contra hblank
  rw [isWord_of_isBlank (by simpa using hblank)] at h
  contradiction

theorem isBlank_of_isAlphanumeric (h : isAlphanumeric c = true) : isBlank c = false :=
  isBlank_of_isWord (by rw [isWord, h, Bool.true_or])

/-! ## Lines -/

theorem lines_cons {line : List Char} {more : List (List Char)} (hc : c ≠ '\n')
    (hr : c = '\r' → ∀ d ∈ cs.head?, d ≠ '\n') (h : lines cs = line :: more) :
    lines (c :: cs) = (c :: line) :: more := by
  rw [lines.eq_4 c cs hc fun rest hcr hcs => hr hcr '\n' (by simp [hcs]) rfl, h]

theorem lines_of_not_mem (h : '\n' ∉ cs) : lines cs = [cs] := by
  induction cs with
  | nil => rfl
  | cons c cs ih =>
    rw [List.mem_cons, not_or] at h
    refine lines_cons (Ne.symm h.1) (fun _ d hd hn => h.2 ?_) (ih h.2)
    exact hn ▸ List.mem_of_mem_head? hd

theorem lines_append {line : List Char} (h : '\n' ∉ line) (hr : '\r' ∉ line) (rest : List Char) :
    lines (line ++ '\n' :: rest) = line :: lines rest := by
  induction line with
  | nil => rfl
  | cons c line ih =>
    rw [List.mem_cons, not_or] at h hr
    exact lines_cons (Ne.symm h.1) (fun hc => absurd hc.symm hr.1) (ih h.2 hr.2)

theorem lines_intercalate {ls : List (List Char)} (hne : ls ≠ [])
    (h : ∀ line ∈ ls, '\n' ∉ line ∧ '\r' ∉ line) : lines (['\n'].intercalate ls) = ls := by
  induction ls with
  | nil => contradiction
  | cons line ls ih =>
    rw [List.forall_mem_cons] at h
    cases ls with
    | nil => simpa using lines_of_not_mem h.1.1
    | cons next ls =>
      rw [List.intercalate_cons_cons, List.append_assoc, List.singleton_append,
        lines_append h.1.1 h.1.2, ih (List.cons_ne_nil _ _) h.2]

end Whiteboard.Text

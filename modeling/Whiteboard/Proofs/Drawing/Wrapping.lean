import Mathlib
import Whiteboard.Proofs.Drawing.Fan

/-!
# Wrapped labels

Breaking a label into lines loses nothing but the spaces at which it breaks
(`Label.Breaks.wrapped`). So whatever is drawn of a graph, no line of a label is wider than the
lines of labels are (`Drawing.wrapped_labels`).
-/

namespace Whiteboard

namespace Label

/-- The lines of a text that breaks before the character that does not fit, leaving out this
character if it is a space. -/
inductive Breaks (width : Int) : List Char → List (List Char) → Prop
  | nil : Breaks width [] []
  | last {line : List Char} (hne : line ≠ []) (hfits : line.length ≤ width) :
    Breaks width line [line]
  | space {line rest : List Char} {lines : List (List Char)} (hfull : line.length = width)
    (h : Breaks width rest lines) : Breaks width (line ++ ' ' :: rest) (line :: lines)
  | before {line rest : List Char} {c : Char} {lines : List (List Char)}
    (hfull : line.length = width) (hc : c ≠ ' ') (h : Breaks width (c :: rest) lines) :
    Breaks width (line ++ c :: rest) (line :: lines)

/-- What a text has between a line and the next one: nothing, or a space behind a full line. -/
def IsGap (width : Int) (line gap : List Char) : Prop :=
  gap = [] ∨ gap = [' '] ∧ line.length = width

/-- Lines that together with their gaps make up a text, all but the last one of full width. -/
structure Wrapped (width : Int) (text : List Char) (lines : List (List Char)) : Prop where
  ne_nil : ∀ line ∈ lines, line ≠ []
  length_le : ∀ line ∈ lines, line.length ≤ width
  full : ∀ line ∈ lines.dropLast, line.length = width
  exists_gaps : ∃ gaps, List.Forall₂ (IsGap width) lines gaps ∧
    text = (List.zipWith (· ++ ·) lines gaps).flatten

section Lines

variable {width : Int} {line text : List Char} {lines : List (List Char)}

theorem Wrapped.cons (h : Wrapped width text lines) (hwidth : 1 ≤ width)
    (hfull : line.length = width) {gap : List Char} (hgap : IsGap width line gap) :
    Wrapped width (line ++ gap ++ text) (line :: lines) where
  ne_nil := by
    refine List.forall_mem_cons.mpr ⟨?_, h.ne_nil⟩
    rintro rfl
    simp only [List.length_nil] at hfull
    omega
  length_le := List.forall_mem_cons.mpr ⟨hfull.le, h.length_le⟩
  full := by
    cases lines with
    | nil => nofun
    | cons next rest => exact List.forall_mem_cons.mpr ⟨hfull, h.full⟩
  exists_gaps := by
    obtain ⟨gaps, hgaps, rfl⟩ := h.exists_gaps
    exact ⟨gap :: gaps, .cons hgap hgaps, rfl⟩

theorem Breaks.wrapped (hwidth : 1 ≤ width) (h : Breaks width text lines) :
    Wrapped width text lines := by
  induction h with
  | nil => exact ⟨nofun, nofun, nofun, [], .nil, rfl⟩
  | @last line hne hfits =>
    refine ⟨by simpa using hne, by simpa using hfits, nofun, [[]], .cons (.inl rfl) .nil, ?_⟩
    simp
  | @space line rest lines hfull _ ih =>
    have hgap : IsGap width line [' '] := .inr ⟨rfl, hfull⟩
    have hcons := ih.cons hwidth hfull hgap
    rwa [List.append_assoc, List.singleton_append] at hcons
  | @before line rest c lines hfull _ _ ih =>
    have hgap : IsGap width line [] := .inl rfl
    have hcons := ih.cons hwidth hfull hgap
    rwa [List.append_nil] at hcons

/-- A line that was begun is filled up with the text that follows. -/
theorem breaks_linesFrom (hwidth : 1 ≤ width) (hline : line.length ≤ width) (text : List Char) :
    Breaks width (line ++ text) (linesFrom width line text) := by
  have hnone : (([] : List Char).length : Int) ≤ width := by simpa using Int.le_of_lt hwidth
  induction text generalizing line with
  | nil =>
    rw [List.append_nil, linesFrom]
    split
    · next hnil => exact List.isEmpty_iff.mp hnil ▸ .nil
    · next hne => exact .last (fun hnil => hne (List.isEmpty_iff.mpr hnil)) hline
  | cons c rest ih =>
    rw [linesFrom]
    split
    · next hreached =>
      have hfull : line.length = width := le_antisymm hline hreached
      by_cases hc : c = ' '
      · rw [hc, if_pos rfl]
        exact .space hfull (ih hnone)
      · have hone : (([c] : List Char).length : Int) ≤ width := by simpa using hwidth
        rw [if_neg hc]
        exact .before hfull hc (ih hone)
    · next hroom =>
      rw [List.append_cons]
      refine ih ?_
      rw [List.length_append, List.length_singleton]
      omega

/-- A text that does not fit is broken into lines. -/
theorem exists_breaks (hwidth : 1 ≤ width) (hlong : width < text.length) :
    ∃ lines, wrap width text = ['\n'].intercalate lines ∧ Breaks width text lines := by
  have hne : text ≠ [] := by
    rintro rfl
    rw [List.length_nil] at hlong
    omega
  have hnone : (([] : List Char).length : Int) ≤ width := by simpa using Int.le_of_lt hwidth
  refine ⟨linesFrom width [] text, ?_, breaks_linesFrom hwidth hnone text⟩
  rw [wrap, if_neg]
  simp [hne, hlong]

end Lines

example : wrap 4 "abcd efgh".toList = "abcd\nefgh".toList := by decide

/-! ## The width of lines -/

theorem length_le_of_mem_splitOn (c : Char) (text : List Char) :
    ∀ piece ∈ text.splitOn c, piece.length ≤ text.length := by
  induction text with
  | nil => simp
  | cons d rest ih =>
    rw [List.splitOn_cons_eq_if_modifyHead, List.length_cons]
    cases hpieces : rest.splitOn c with
    | nil => exact absurd hpieces (List.splitOn_ne_nil c rest)
    | cons first pieces =>
      rw [hpieces, List.forall_mem_cons] at ih
      have hlater : ∀ piece ∈ pieces, piece.length ≤ rest.length + 1 := fun piece hpiece =>
        Nat.le_succ_of_le (ih.2 piece hpiece)
      split
      · simpa using ⟨Nat.le_succ_of_le ih.1, hlater⟩
      · exact List.forall_mem_cons.mpr ⟨Nat.succ_le_succ ih.1, hlater⟩

/-- Where lines are joined by breaks, none of the lines becomes longer. -/
theorem length_le_of_mem_splitOn_intercalate {c : Char} {n : Nat} {lines : List (List Char)}
    (h : ∀ line ∈ lines, line.length ≤ n) :
    ∀ piece ∈ ([c].intercalate lines).splitOn c, piece.length ≤ n := by
  induction lines with
  | nil => simp
  | cons line rest ih =>
    rw [List.forall_mem_cons] at h
    cases rest with
    | nil =>
      rw [List.intercalate_singleton]
      exact fun piece hpiece => (length_le_of_mem_splitOn c line piece hpiece).trans h.1
    | cons next rest =>
      rw [List.intercalate_cons_cons, List.append_assoc, List.singleton_append,
        List.splitOn_append_cons_self, List.forall_mem_append]
      exact ⟨fun piece hpiece => (length_le_of_mem_splitOn c line piece hpiece).trans h.1,
        ih h.2⟩

/-- No line of a wrapped text is longer than the width, also where it had breaks before. -/
theorem length_le_of_mem_lines {width : Nat} (hwidth : 1 ≤ width) (text : List Char) :
    ∀ line ∈ (wrap width text).splitOn '\n', line.length ≤ width := by
  by_cases hlong : (width : Int) < text.length
  · have hwidth : (1 : Int) ≤ width := by exact_mod_cast hwidth
    obtain ⟨lines, hlines, hbreaks⟩ := exists_breaks hwidth hlong
    rw [hlines]
    refine length_le_of_mem_splitOn_intercalate fun line hline => ?_
    exact_mod_cast (hbreaks.wrapped hwidth).length_le line hline
  · have hfits : text.length ≤ width := by exact_mod_cast not_lt.mp hlong
    have hwrap : wrap width text = text := by
      rw [wrap, if_pos]
      simp [hfits]
    rw [hwrap]
    exact fun line hline => (length_le_of_mem_splitOn _ text line hline).trans hfits

end Label

namespace Drawing

/-- A shape has a label none of whose lines is longer than some number of characters. -/
def LabelWithin {α : Type} (n : Nat) (e : Element α) : Prop :=
  ∃ s ∈ e.shape?, ∃ label ∈ s.content, ∀ line ∈ labelLines label.toList, line.length ≤ n

theorem Draws.labelWithin {α : Type} {n : Node} {mark : String} {e : Element α}
    (h : Draws n mark e) : LabelWithin Label.width e := by
  obtain ⟨s, hs, hcontent⟩ := h.content
  refine ⟨s, hs, _, hcontent, ?_⟩
  rw [String.toList_ofList]
  exact Label.length_le_of_mem_lines (by decide) n.label.toList

/-- A text that is too wide is broken into lines, all of full width but for the last one; together
with the spaces that are left out at the breaks they are the text. In what is drawn of a graph, no
line of the label of a node has more than twenty characters. -/
theorem wrapped_labels :
    (∀ (width : Int) (text : List Char), 1 ≤ width → width < text.length →
      ∃ lines, Label.wrap width text = ['\n'].intercalate lines ∧ Label.Breaks width text lines ∧
        Label.Wrapped width text lines) ∧
    ∀ (α : Type) [Scalar α] (g : Graph) (l : Layout α) (ids : IdSupply) (origin : Point α)
        (style : DrawingStyle α) (es : List (Element α)),
      (ofLayout ids g l origin style).1 = .ok es →
        ∃ p : Parts α, es = p.all ∧ p.Joined g ∧ ∀ e ∈ p.nodes, LabelWithin 20 e := by
  constructor
  · intro width text hwidth hlong
    obtain ⟨lines, hlines, hbreaks⟩ := Label.exists_breaks hwidth hlong
    exact ⟨lines, hlines, hbreaks, hbreaks.wrapped hwidth⟩
  · intro α _ g l ids origin style es hes
    obtain ⟨p, hall, hjoined, -⟩ := exists_parts_of_ofLayout hes
    refine ⟨p, hall, hjoined, fun e he => ?_⟩
    obtain ⟨shapes, hshows, hnodes, -⟩ := hjoined
    rw [hnodes] at he
    obtain ⟨m, hm, rfl⟩ := List.mem_map.mp he
    obtain ⟨n, -, mark, -, hdraws⟩ := hshows.draws m hm
    exact hdraws.labelWithin

/-- A text with a break of its own and several spaces where the lines end, and a node with such a
label. -/
theorem wrapped_labels_spaces :
    let text := "ab\nd   efgh, ij ".toList
    let g : Graph :=
      { nodes := [.bare "a",
          { Node.bare "b" with label := "a line\nand words that are  too many for a line" }]
        edges := [⟨"a", "b", "an arrow is not broken into lines", .arrow⟩] }
    ((1 : Int) ≤ 4 ∧ (4 : Int) < text.length ∧
      ∃ lines, Label.wrap 4 text = ['\n'].intercalate lines ∧ Label.Breaks 4 text lines ∧
        Label.Wrapped 4 text lines) ∧
    ∃ l es, Layout.choose g (DrawingStyle.initial : DrawingStyle Double).spacing = .ok l ∧
      (ofLayout .counting g l ⟨100, 100⟩ (DrawingStyle.initial : DrawingStyle Double)).1 = .ok es ∧
      ∃ p : Parts Double, es = p.all ∧ p.Joined g ∧ ∀ e ∈ p.nodes, LabelWithin 20 e := by
  intro text g
  obtain ⟨hwrap, hdrawn⟩ := wrapped_labels
  refine ⟨⟨by decide, by decide, hwrap 4 text (by decide) (by decide)⟩, ?_⟩
  have hok : (ofGraph .counting g ⟨100, 100⟩ (.initial : DrawingStyle Double)).1.toBool = true := by
    decide +kernel
  obtain ⟨l, es, hl, hes⟩ := exists_ofLayout_of_toBool hok
  exact ⟨l, es, hl, hes, hdrawn Double g l .counting ⟨100, 100⟩ .initial es hes⟩

end Drawing

end Whiteboard

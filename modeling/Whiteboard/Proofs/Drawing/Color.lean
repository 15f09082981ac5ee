import Mathlib.Data.List.Basic
import Whiteboard.Diagram.Outline
import Whiteboard.Drawing.Color

/-!
# Colors that can be read

Text on a background whose color is written with hexadecimal digits has a color itself
(`Color.exists_readable`). The colors of palettes and of outlines are written so.
-/

namespace Whiteboard

namespace Text

variable {c : Char} {cs : List Char}

/-- The hexadecimal digits. -/
def isHexDigit (c : Char) : Bool := (hexValue? c).isSome

theorem toNat_of_isHexDigit (h : isHexDigit c = true) :
    48 ≤ c.toNat ∧ c.toNat ≤ 57 ∨ 97 ≤ c.toNat ∧ c.toNat ≤ 102 ∨
      65 ≤ c.toNat ∧ c.toNat ≤ 70 := by
  unfold isHexDigit hexValue? at h
  split at h
  · next hdigit =>
    exact .inl (by simpa [Char.isDigit, UInt32.le_iff_toNat_le, ← Char.toNat_val] using hdigit)
  · split at h
    · next hlower => exact .inr (.inl hlower)
    · split at h
      · next hupper => exact .inr (.inr hupper)
      · cases h

theorem plainChars?_of_hex (h : ∀ c ∈ cs, isHexDigit c = true) : plainChars? cs = some cs := by
  refine if_pos (List.all_eq_true.mpr fun c hc => decide_eq_true ?_)
  have := toNat_of_isHexDigit (h c hc)
  omega

theorem isPlainBlank_of_hex (h : isHexDigit c = true) : isPlainBlank c = false := by
  have hbounds := toNat_of_isHexDigit h
  have hspace : c ≠ ' ' := by
    rintro rfl
    revert hbounds
    decide
  simp [isPlainBlank, hspace]
  omega

theorem dropWhile_isPlainBlank_of_hex (h : ∀ c ∈ cs, isHexDigit c = true) :
    cs.dropWhile isPlainBlank = cs := by
  cases cs with
  | nil => rfl
  | cons c cs =>
    exact List.dropWhile_cons_of_neg (by simp [isPlainBlank_of_hex (h c List.mem_cons_self)])

theorem trimPlain?_of_hex (h : ∀ c ∈ cs, isHexDigit c = true) : trimPlain? cs = some cs := by
  have hreverse : ∀ c ∈ cs.reverse, isHexDigit c = true := fun c hc => h c (List.mem_reverse.mp hc)
  rw [trimPlain?, plainChars?_of_hex h, Option.map_some, dropWhile_isPlainBlank_of_hex h,
    dropEndWhile, dropWhile_isPlainBlank_of_hex hreverse, List.reverse_reverse]

end Text

namespace Color

open Text

variable {cs : List Char}

/-! ## Hexadecimal digits -/

theorem exists_hexDigits? (h : ∀ c ∈ cs, isHexDigit c = true) (n : Nat) :
    ∃ m, hexDigits? n cs = some m := by
  induction cs generalizing n with
  | nil => exact ⟨n, rfl⟩
  | cons c cs ih =>
    rw [List.forall_mem_cons] at h
    obtain ⟨d, hd⟩ := Option.isSome_iff_exists.mp h.1
    have hmark : c ≠ '_' := by
      rintro rfl
      cases h.1
    obtain ⟨m, hm⟩ := ih h.2 (16 * n + d)
    refine ⟨m, ?_⟩
    rw [hexDigits?, hd, Option.bind_some, hm]
    rintro _ _ rfl
    exact absurd rfl hmark

theorem dropBase_of_hex (h : ∀ c ∈ cs, isHexDigit c = true) : dropBase cs = cs := by
  have hmark : ∀ c rest, cs = '0' :: c :: rest → isHexDigit c = true := fun c rest heq =>
    h c (heq ▸ List.mem_cons_of_mem _ List.mem_cons_self)
  unfold dropBase
  split
  · cases hmark 'x' _ rfl
  · cases hmark 'X' _ rfl
  · cases hmark 'x' _ rfl
  · cases hmark 'X' _ rfl
  · rfl

theorem exists_unsigned? (h : ∀ c ∈ cs, isHexDigit c = true) (hne : cs ≠ []) :
    ∃ n, unsigned? cs = some n := by
  rw [unsigned?, dropBase_of_hex h]
  split
  · contradiction
  · have hmark := h _ List.mem_cons_self
    cases hmark
  · exact exists_hexDigits? h 0

theorem exists_hexInt? (h : ∀ c ∈ cs, isHexDigit c = true) (hne : cs ≠ []) :
    ∃ n, hexInt? cs = some n := by
  obtain ⟨n, hn⟩ := exists_unsigned? h hne
  rw [hexInt?, trimPlain?_of_hex h, Option.bind_some]
  split
  · have hmark := h _ List.mem_cons_self
    cases hmark
  · have hmark := h _ List.mem_cons_self
    cases hmark
  · exact ⟨n, by rw [hn]; rfl⟩

/-! ## Colors -/

/-- A color that is written as a hash sign before hexadecimal digits. -/
def isHex (color : String) : Bool :=
  match color.toList with
  | '#' :: ds => !ds.isEmpty && ds.all isHexDigit
  | _ => false

theorem isHex_iff {color : String} : isHex color = true ↔
    ∃ ds, color.toList = '#' :: ds ∧ ds ≠ [] ∧ ∀ c ∈ ds, isHexDigit c = true := by
  unfold isHex
  split
  · next ds h => simp [h]
  · next h =>
    constructor
    · intro hfalse
      cases hfalse
    · rintro ⟨ds, hds, -⟩
      exact absurd hds (h ds)

theorem digits_of_hex {color : String} (h : isHex color = true) :
    digits color ≠ [] ∧ ∀ c ∈ digits color, isHexDigit c = true := by
  obtain ⟨ds, hcolor, hne, hds⟩ := isHex_iff.mp h
  have hbare : color.toList.dropWhile (· == '#') = ds := by
    cases ds with
    | nil => contradiction
    | cons d ds =>
      have hmark : d ≠ '#' := by
        rintro rfl
        cases hds _ List.mem_cons_self
      simp [hcolor, hmark]
  rw [digits, hbare]
  split
  · constructor
    · cases ds <;> simp_all
    · intro c hc
      obtain ⟨d, hd, hc⟩ := List.mem_flatMap.mp (List.mem_of_mem_take hc)
      have heq : c = d := by simpa using hc
      exact heq ▸ hds d hd
  · exact ⟨by simpa using hne, fun c hc => hds c (List.mem_of_mem_take hc)⟩

/-- Text is readable on every color that is written in hexadecimal digits. -/
theorem exists_readable (α : Type) [Scalar α] {color : String} (h : isHex color = true) :
    ∃ text, readable α color = .ok text := by
  obtain ⟨hne, hdigits⟩ := digits_of_hex h
  obtain ⟨n, hn⟩ := exists_hexInt? hdigits hne
  exact ⟨_, by rw [readable, hn]⟩

/-! ## The colors in use -/

theorem isHex_of_mem_fills (p : Palette) : ∀ color ∈ p.fills, isHex color = true := by
  cases p <;> decide

theorem isHex_ofNode (id : String) (p : Palette) : isHex (ofNode id p) = true := by
  have hpos : 0 < p.fills.length := by cases p <;> decide
  have hindex : (if id.isEmpty then 0 else hash id % p.fills.length) < p.fills.length := by
    split
    · exact hpos
    · exact Nat.mod_lt _ hpos
  rw [ofNode, pick, List.getElem?_eq_getElem hindex]
  exact isHex_of_mem_fills p _ (List.getElem_mem hindex)

theorem isHex_colorsAt (level : Nat) : isHex (Diagram.Outline.colorsAt level).1 = true := by
  have hall : ∀ colors ∈ Diagram.Outline.levelColors, isHex colors.1 = true := by decide
  unfold Diagram.Outline.colorsAt
  cases h : Diagram.Outline.levelColors[level]? with
  | none => decide
  | some colors => exact hall _ (List.mem_of_getElem? h)

end Color

end Whiteboard

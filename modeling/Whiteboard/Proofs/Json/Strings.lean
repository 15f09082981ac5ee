import Mathlib
import Whiteboard.Json.Reader
import Whiteboard.Json.Writer

/-!
# Texts in JSON

A text is read as it is written (`Json.readString_flatMap`).
-/

namespace Whiteboard

namespace Text

theorem hexValue?_digitChar : ∀ n < 16, hexValue? (Nat.digitChar n) = some n := by
  decide

theorem hex_succ {width : Nat} (hw : 0 < width) (n : Nat) :
    hex (width + 1) n = hex width (n / 16) ++ [Nat.digitChar (n % 16)] := by
  unfold hex
  dsimp only
  by_cases hn : n < 16
  · have hzero : n / 16 = 0 := by omega
    have hpad : List.replicate width '0' = List.replicate (width - 1) '0' ++ ['0'] := by
      rw [← List.replicate_succ', Nat.sub_add_cancel hw]
    rw [Nat.toDigits_of_lt_base hn, hzero, Nat.mod_eq_of_lt hn, Nat.toDigits_zero,
      List.length_singleton, List.length_singleton, Nat.add_sub_cancel, hpad]
  · rw [Nat.toDigits_of_base_le (by decide) (not_lt.mp hn), List.length_append,
      List.length_singleton, Nat.add_sub_add_right, List.append_assoc]

theorem hex_four {n : Nat} (hn : n < 0x10000) :
    hex 4 n = [Nat.digitChar (n / 16 / 16 / 16), Nat.digitChar (n / 16 / 16 % 16),
      Nat.digitChar (n / 16 % 16), Nat.digitChar (n % 16)] := by
  have hlead : hex 1 (n / 16 / 16 / 16) = [Nat.digitChar (n / 16 / 16 / 16)] := by
    rw [hex, Nat.toDigits_of_lt_base (by omega)]
    rfl
  rw [hex_succ (by decide), hex_succ (by decide), hex_succ (by decide), hlead]
  rfl

end Text

namespace Json

theorem hexUnit?_hex {n : Nat} (hn : n < 0x10000) :
    ∃ a b c d, Text.hex 4 n = [a, b, c, d] ∧ hexUnit? a b c d = some n := by
  refine ⟨_, _, _, _, Text.hex_four hn, ?_⟩
  simp only [hexUnit?, List.mapM_cons, List.mapM_nil,
    Text.hexValue?_digitChar _ (by omega : n / 16 / 16 / 16 < 16),
    Text.hexValue?_digitChar _ (by omega : n / 16 / 16 % 16 < 16),
    Text.hexValue?_digitChar _ (by omega : n / 16 % 16 < 16),
    Text.hexValue?_digitChar _ (by omega : n % 16 < 16)]
  simp
  omega

/-- A character that is no half of a surrogate pair. -/
theorem not_surrogate (c : Char) : ¬ (0xD800 ≤ c.toNat ∧ c.toNat < 0xE000) := by
  have h := c.valid
  rcases h with h | h
  · change c.toNat < 0xD800 at h
    omega
  · have hlow : 0xDFFF < c.toNat := h.1
    omega

theorem readString_unicode (opening : List Char) (fuel : Nat) {n : Nat} (hn : n < 0x10000)
    (hs : ¬ (0xD800 ≤ n ∧ n < 0xE000)) {tail : List Char} (htail : tail ≠ []) :
    readString opening (fuel + 1) ('\\' :: 'u' :: (Text.hex 4 n ++ tail))
      = (readString opening fuel tail).map fun (cs, after) => (Char.ofNat n :: cs, after) := by
  obtain ⟨a, b, c, d, hhex, hunit⟩ := hexUnit?_hex hn
  obtain ⟨next, rest, rfl⟩ := List.exists_cons_of_ne_nil htail
  have hhigh : ¬ (0xD800 ≤ n ∧ n < 0xDC00) := by omega
  have hlow : ¬ (0xDC00 ≤ n ∧ n < 0xE000) := by omega
  rw [hhex]
  simp only [List.cons_append, List.nil_append, readString, hunit, if_neg hhigh, if_neg hlow]

theorem readString_pair (opening : List Char) (fuel : Nat) {n : Nat} (hn : n < 0x100000)
    {tail : List Char} (htail : tail ≠ []) :
    readString opening (fuel + 1) ('\\' :: 'u' :: (Text.hex 4 (0xD800 + n / 0x400) ++
        '\\' :: 'u' :: (Text.hex 4 (0xDC00 + n % 0x400) ++ tail)))
      = (readString opening fuel tail).map fun (cs, after) =>
        (Char.ofNat (0x10000 + n) :: cs, after) := by
  obtain ⟨a, b, c, d, hhex, hunit⟩ := hexUnit?_hex (n := 0xD800 + n / 0x400) (by omega)
  obtain ⟨a', b', c', d', hhex', hunit'⟩ := hexUnit?_hex (n := 0xDC00 + n % 0x400) (by omega)
  obtain ⟨next, rest, rfl⟩ := List.exists_cons_of_ne_nil htail
  have hhigh : 0xD800 ≤ 0xD800 + n / 0x400 ∧ 0xD800 + n / 0x400 < 0xDC00 := by omega
  have hlow : 0xDC00 ≤ 0xDC00 + n % 0x400 ∧ 0xDC00 + n % 0x400 < 0xE000 := by omega
  have hvalue : 0x10000 + (0xD800 + n / 0x400 - 0xD800) * 0x400 + (0xDC00 + n % 0x400 - 0xDC00)
      = 0x10000 + n := by omega
  have hpair : lowSurrogate? ('\\' :: 'u' :: a' :: b' :: c' :: d' :: next :: rest)
      = some (0xDC00 + n % 0x400) := by
    simp [lowSurrogate?, hunit']
    omega
  rw [hhex, hhex']
  simp only [List.cons_append, List.nil_append, readString, hunit, if_pos hhigh, hpair, hvalue,
    List.drop_succ_cons, List.drop_zero]

theorem escapeChar_of_long {c : Char} (h : 0x10000 ≤ c.toNat) :
    escapeChar c = '\\' :: 'u' :: (Text.hex 4 (0xD800 + (c.toNat - 0x10000) / 0x400) ++
      '\\' :: 'u' :: Text.hex 4 (0xDC00 + (c.toNat - 0x10000) % 0x400)) := by
  unfold escapeChar
  split
  iterate 7 simp at h
  extract_lets n m
  rw [if_neg (by omega), if_neg (by omega), List.cons_append, List.cons_append]

theorem readString_escapeChar (opening : List Char) (fuel : Nat) (c : Char) {tail : List Char}
    (htail : tail ≠ []) :
    readString opening (fuel + 1) (escapeChar c ++ tail)
      = (readString opening fuel tail).map fun (cs, after) => (c :: cs, after) := by
  by_cases hlong : 0x10000 ≤ c.toNat
  · -- two units stand for one character
    have hmost : c.toNat < 0x110000 := by
      rcases c.valid with h | h
      · change c.toNat < 0xD800 at h
        omega
      · exact h.2
    have hread := readString_pair opening fuel (n := c.toNat - 0x10000) (by omega) htail
    rw [Nat.add_sub_cancel' hlong, Char.ofNat_toNat] at hread
    rw [escapeChar_of_long hlong, List.cons_append, List.cons_append, List.append_assoc,
      List.cons_append, List.cons_append]
    exact hread
  unfold escapeChar
  split
  iterate 7 simp [readString, escaped?]
  next hquote hslash _ _ _ _ _ =>
  extract_lets n m
  split
  · next hprintable =>
    have hlow : ¬ c.toNat < 32 := by omega
    rw [List.singleton_append, readString.eq_def]
    split <;> simp_all
  · have hread := readString_unicode opening fuel (not_le.mp hlong) (not_surrogate c) htail
    rw [Char.ofNat_toNat] at hread
    rw [if_pos (not_le.mp hlong)]
    exact hread

/-- A text is read as it is written. -/
theorem readString_flatMap (opening cs rest : List Char) {fuel : Nat} (hfuel : cs.length < fuel) :
    readString opening fuel (cs.flatMap escapeChar ++ '"' :: rest) = .ok (cs, rest) := by
  induction cs generalizing fuel with
  | nil =>
    obtain ⟨fuel, rfl⟩ := Nat.exists_eq_succ_of_ne_zero (Nat.ne_of_gt hfuel)
    simp [readString]
  | cons c cs ih =>
    obtain ⟨fuel, rfl⟩ := Nat.exists_eq_succ_of_ne_zero (Nat.ne_zero_of_lt hfuel)
    rw [List.flatMap_cons, List.append_assoc, readString_escapeChar _ _ _ (by simp),
      ih (by simpa using hfuel)]
    rfl

theorem length_le_length_flatMap (cs : List Char) : cs.length ≤ (cs.flatMap escapeChar).length := by
  induction cs with
  | nil => exact Nat.zero_le _
  | cons c cs ih =>
    have hpos : 0 < (escapeChar c).length := by
      unfold escapeChar
      grind
    rw [List.flatMap_cons, List.length_append, List.length_cons]
    omega

end Json

end Whiteboard

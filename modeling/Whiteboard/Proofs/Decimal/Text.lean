import Whiteboard.Json.Reader
import Whiteboard.Json.Writer
import Whiteboard.Proofs.Text.Scan
import Mathlib

/-!
# Numbers in JSON texts

A decimal is read from its text with its value (`Json.readNumber_text`), and an integer as it is
(`Json.readNumber_writeInt`).
-/

namespace Whiteboard

namespace Decimal

/-! ## Digits -/

theorem ofDigits_append (xs ys : List Char) :
    ofDigits (xs ++ ys) = 10 ^ ys.length * ofDigits xs + ofDigits ys := by
  change Nat.ofDigitChars 10 (xs ++ ys) 0 = _
  rw [Nat.ofDigitChars_append, Nat.ofDigitChars_eq_ofDigitChars_zero]
  rfl

theorem ofDigits_replicate (n : Nat) : ofDigits (List.replicate n '0') = 0 :=
  Nat.ofDigitChars_replicate_zero.trans (Nat.mul_zero _)

theorem ofDigits_toDigits (n : Nat) : ofDigits (Nat.toDigits 10 n) = n :=
  Nat.ofDigitChars_ten_toDigits

/-- Digits of a number above zero: the first one is not zero. -/
structure Leading (ds : List Char) : Prop where
  isDigit : ∀ c ∈ ds, c.isDigit = true
  head : ∃ c cs, ds = c :: cs ∧ c ≠ '0'

theorem Leading.append {xs ys : List Char} (h : Leading xs) (hys : ∀ c ∈ ys, c.isDigit = true) :
    Leading (xs ++ ys) := by
  obtain ⟨c, cs, rfl, hc⟩ := h.head
  exact ⟨List.forall_mem_append.mpr ⟨h.isDigit, hys⟩, c, cs ++ ys, rfl, hc⟩

theorem leading_toDigits {n : Nat} (hn : n ≠ 0) : Leading (Nat.toDigits 10 n) := by
  refine ⟨fun c => Nat.isDigit_of_mem_toDigits (by decide) (by decide), ?_⟩
  induction n using Nat.strongRecOn with
  | ind n ih =>
    rw [Nat.toDigits_eq_if (by decide)]
    split
    · exact ⟨_, [], rfl, mt Nat.digitChar_eq_zero.mp hn⟩
    · obtain ⟨c, cs, heq, hc⟩ := ih (n / 10) (by omega) (by omega)
      exact ⟨c, cs ++ [Nat.digitChar (n % 10)], by rw [heq, List.cons_append], hc⟩

theorem stripZeros_spec (n : Nat) (reversed : List Char) :
    ∃ z, (stripZeros n reversed).2 = n + z ∧
      reversed.reverse = (stripZeros n reversed).1 ++ List.replicate z '0' := by
  induction n, reversed using stripZeros.induct with
  | case1 n rest ih =>
    obtain ⟨z, hz, heq⟩ := ih
    refine ⟨z + 1, by rw [stripZeros, hz]; omega, ?_⟩
    rw [stripZeros, List.reverse_cons, heq, List.append_assoc, List.replicate_succ']
  | case2 n reversed h =>
    rw [stripZeros.eq_2 n reversed h]
    exact ⟨0, rfl, by simp⟩

/-- The digits of a number without the zeros at the end. -/
theorem exists_stripZeros {n : Nat} (hn : n ≠ 0) :
    ∃ ds z, stripZeros 0 (Nat.toDigits 10 n).reverse = (ds, z) ∧ Leading ds ∧
      n = ofDigits ds * 10 ^ z := by
  obtain ⟨z, hz, heq⟩ := stripZeros_spec 0 (Nat.toDigits 10 n).reverse
  rw [Nat.zero_add] at hz
  rw [List.reverse_reverse] at heq
  generalize hstrip : stripZeros 0 (Nat.toDigits 10 n).reverse = p at hz heq
  obtain ⟨ds, z'⟩ := p
  obtain rfl : z' = z := hz
  refine ⟨ds, z', rfl, ?_, ?_⟩
  · have hleading := leading_toDigits hn
    obtain ⟨c, cs, hcons, hc⟩ := hleading.head
    refine ⟨fun d hd => hleading.isDigit d (heq ▸ List.mem_append_left _ hd), ?_⟩
    rw [hcons] at heq
    cases ds with
    | nil =>
      cases z' with
      | zero => contradiction
      | succ z' =>
        rw [List.nil_append, List.replicate_succ, List.cons.injEq] at heq
        exact absurd heq.1 hc
    | cons d ds =>
      rw [List.cons_append, List.cons.injEq] at heq
      exact ⟨d, ds, rfl, heq.1 ▸ hc⟩
  · have hvalue := congrArg ofDigits heq
    rw [ofDigits_toDigits, ofDigits_append, ofDigits_replicate, List.length_replicate] at hvalue
    rw [hvalue, Nat.add_zero, Nat.mul_comm]

end Decimal

namespace Json

open Decimal

variable {α : Type} [Scalar α]

/-- A text does not go on a number. -/
def Breaks (rest : List Char) : Prop :=
  ∀ c ∈ rest.head?, c.isDigit = false ∧ c ≠ '.' ∧ c ≠ 'e' ∧ c ≠ 'E'

theorem breaks_cons {c : Char} {rest : List Char}
    (h : c.isDigit = false ∧ c ≠ '.' ∧ c ≠ 'e' ∧ c ≠ 'E') : Breaks (c :: rest) := by
  simpa [Breaks] using h

/-! ## The parts of a number -/

/-- The digits before the point. -/
def Whole (ds : List Char) : Prop := ds = ['0'] ∨ Leading ds

theorem Whole.ne_nil {ds : List Char} (h : Whole ds) : ds ≠ [] := by
  rcases h with rfl | h
  · simp
  · obtain ⟨c, cs, rfl, -⟩ := h.head
    simp

theorem Whole.exists_cons {ds : List Char} (h : Whole ds) :
    ∃ c cs, ds = c :: cs ∧ c.isDigit = true := by
  rcases h with rfl | h
  · exact ⟨'0', [], rfl, rfl⟩
  · obtain ⟨c, cs, rfl, -⟩ := h.head
    exact ⟨c, cs, rfl, h.isDigit c (List.mem_cons_self ..)⟩

theorem takeWhole_append {ds rest : List Char} (h : Whole ds)
    (hrest : ∀ c ∈ rest.head?, c.isDigit = false) : takeWhole (ds ++ rest) = (ds, rest) := by
  rcases h with rfl | h
  · rfl
  · have hspan := Text.span_append h.isDigit hrest
    obtain ⟨c, cs, rfl, hc⟩ := h.head
    rw [List.cons_append] at hspan ⊢
    rw [takeWhole.eq_2 _ fun _ heq => hc (List.cons.inj heq).1]
    exact hspan

theorem takeFraction_point {ds rest : List Char} (hds : ∀ c ∈ ds, c.isDigit = true)
    (hne : ds ≠ []) (hrest : ∀ c ∈ rest.head?, c.isDigit = false) :
    takeFraction ('.' :: (ds ++ rest)) = (ds, rest) := by
  simp [takeFraction, Text.span_append hds hrest, hne]

theorem takeFraction_of_ne {rest : List Char} (h : ∀ c ∈ rest.head?, c ≠ '.') :
    takeFraction rest = ([], rest) := by
  cases rest with
  | nil => rfl
  | cons c rest => exact takeFraction.eq_2 _ fun _ heq => h c rfl (List.cons.inj heq).1

theorem takeExponent?_of_ne {rest : List Char} (h : ∀ c ∈ rest.head?, c ≠ 'e' ∧ c ≠ 'E') :
    takeExponent? rest = none := by
  cases rest with
  | nil => rfl
  | cons c rest =>
    have hc := h c rfl
    simp [takeExponent?, hc]

theorem exists_exponentText (e : Int) :
    ∃ ds, exponentText e = (if e < 0 then '-' else '+') :: ds ∧ ds ≠ [] ∧
      (∀ c ∈ ds, c.isDigit = true) ∧ ofDigits ds = e.natAbs := by
  have hdigits : ∀ c ∈ Nat.toDigits 10 e.natAbs, c.isDigit = true := fun c =>
    Nat.isDigit_of_mem_toDigits (by decide) (by decide)
  have hvalue := ofDigits_toDigits e.natAbs
  by_cases hshort : (Nat.toDigits 10 e.natAbs).length < 2
  · refine ⟨'0' :: Nat.toDigits 10 e.natAbs, by simp only [exponentText, if_pos hshort], by simp,
      List.forall_mem_cons.mpr ⟨rfl, hdigits⟩, ?_⟩
    rw [← List.singleton_append, ofDigits_append, hvalue]
    exact Nat.zero_add _
  · exact ⟨_, by simp only [exponentText, if_neg hshort], Nat.toDigits_ne_nil, hdigits, hvalue⟩

theorem takeExponent?_exponentText (e : Int) {rest : List Char}
    (hrest : ∀ c ∈ rest.head?, c.isDigit = false) :
    takeExponent? ('e' :: (exponentText e ++ rest)) = some (e, rest) := by
  obtain ⟨ds, htext, hne, hdigits, hvalue⟩ := exists_exponentText e
  have hspan := Text.span_append hdigits hrest
  rw [htext]
  by_cases he : e < 0
  · have habs : -|e| = e := by rw [abs_of_neg he, neg_neg]
    simp [takeExponent?, takeSign, he, hspan, hne, hvalue, habs]
  · have habs : |e| = e := abs_of_nonneg (not_lt.mp he)
    simp [takeExponent?, takeSign, he, hspan, hne, hvalue, habs]

/-! ## Numbers -/

/-- A number that stands before a sign. -/
def signed (negative : Bool) (cs : List Char) : List Char := if negative then '-' :: cs else cs

theorem readNumber_signed (negative : Bool) {ds tail : List Char} (hds : Whole ds)
    (htail : ∀ c ∈ tail.head?, c.isDigit = false) :
    (readNumber (signed negative (ds ++ tail)) : Reading (Json α)) =
      let (fraction, afterFraction) := takeFraction tail
      match takeExponent? afterFraction with
      | some (e, after) => .ok (num (ofParts negative ds fraction e).toScalar, after)
      | none =>
        if !fraction.isEmpty then
          .ok (num (ofParts negative ds fraction 0).toScalar, afterFraction)
        else if maxIntegerDigits < ds.length then .error (.tooLong ds.length)
        else .ok (int (if negative then -(ofDigits ds : Int) else ofDigits ds), afterFraction) := by
  have hwhole := takeWhole_append hds htail
  have hne : ds.isEmpty = false := by
    rw [List.isEmpty_eq_false_iff]
    exact hds.ne_nil
  cases negative with
  | true =>
    simp only [signed, if_true, readNumber, hwhole, hne]
    rfl
  | false =>
    obtain ⟨c, cs, rfl, hc⟩ := hds.exists_cons
    have hsign : c ≠ '-' := by
      rintro rfl
      contradiction
    simp only [signed, Bool.false_eq_true, if_false]
    unfold readNumber
    split
    next negative unsigned hunsigned =>
    split at hunsigned
    · next hcons => exact absurd (List.cons.inj hcons).1 hsign
    · cases hunsigned
      simp only [hwhole, hne]
      rfl

theorem Breaks.not_isDigit {rest : List Char} (h : Breaks rest) :
    ∀ c ∈ rest.head?, c.isDigit = false := fun c hc => (h c hc).1

theorem Breaks.takeExponent? {rest : List Char} (h : Breaks rest) : takeExponent? rest = none :=
  takeExponent?_of_ne fun c hc => (h c hc).2.2

theorem readNumber_point (negative : Bool) {ds fs rest : List Char} (hds : Whole ds)
    (hfs : ∀ c ∈ fs, c.isDigit = true) (hne : fs ≠ []) (hrest : Breaks rest) :
    (readNumber (signed negative (ds ++ '.' :: (fs ++ rest))) : Reading (Json α))
      = .ok (num (ofParts negative ds fs 0).toScalar, rest) := by
  rw [readNumber_signed negative hds (by simp),
    takeFraction_point hfs hne hrest.not_isDigit]
  simp [hrest.takeExponent?, hne]

theorem readNumber_exponent (negative : Bool) {ds fs rest : List Char} (hds : Whole ds)
    (hfs : ∀ c ∈ fs, c.isDigit = true) (e : Int) (hrest : Breaks rest) :
    (readNumber (signed negative (ds ++ ((if fs.isEmpty then [] else '.' :: fs) ++
      'e' :: (exponentText e ++ rest)))) : Reading (Json α))
      = .ok (num (ofParts negative ds fs e).toScalar, rest) := by
  have hexponent := takeExponent?_exponentText e hrest.not_isDigit
  by_cases hempty : fs = []
  · subst hempty
    rw [List.isEmpty_nil, if_pos rfl, List.nil_append,
      readNumber_signed negative hds (by simp), takeFraction_of_ne (by simp)]
    simp [hexponent]
  · rw [List.isEmpty_eq_false_iff.mpr hempty, if_neg Bool.false_ne_true, List.cons_append,
      readNumber_signed negative hds (by simp),
      takeFraction_point hfs hempty (by simp)]
    simp [hexponent]

theorem readNumber_integer (negative : Bool) {ds rest : List Char} (hds : Whole ds)
    (hlength : ds.length ≤ maxIntegerDigits) (hrest : Breaks rest) :
    (readNumber (signed negative (ds ++ rest)) : Reading (Json α))
      = .ok (int (if negative then -(ofDigits ds : Int) else ofDigits ds), rest) := by
  rw [readNumber_signed negative hds hrest.not_isDigit,
    takeFraction_of_ne fun c hc => (hrest c hc).2.1]
  simp [hrest.takeExponent?, hlength]

theorem exists_of_takeWhole {cs : List Char} (h : (takeWhole cs).1 ≠ []) :
    ∃ c cs', cs = c :: cs' ∧ c.isDigit = true := by
  cases cs with
  | nil => exact absurd rfl h
  | cons c cs =>
    refine ⟨c, cs, rfl, ?_⟩
    by_contra hc
    have hzero : c ≠ '0' := by
      rintro rfl
      exact hc rfl
    apply h
    rw [takeWhole.eq_2 _ fun _ heq => hzero (List.cons.inj heq).1]
    simp [Text.span, hc]

/-- A number begins with a digit or with a sign and a digit. -/
theorem exists_of_readNumber {cs : List Char} {r : Json α × List Char}
    (h : readNumber cs = .ok r) :
    ∃ c cs', (cs = c :: cs' ∨ cs = '-' :: c :: cs') ∧ c.isDigit = true := by
  unfold readNumber at h
  split at h
  next negative unsigned hsplit =>
  have hne : (takeWhole unsigned).1 ≠ [] := by
    intro hempty
    simp [hempty] at h
  obtain ⟨c, cs', hcons, hc⟩ := exists_of_takeWhole hne
  split at hsplit
  · cases hsplit
    exact ⟨c, cs', .inr (by rw [hcons]), hc⟩
  · cases hsplit
    exact ⟨c, cs', .inl hcons, hc⟩

/-- An integer with a number of digits in bounds is read as it is written. -/
theorem readNumber_writeInt {i : Int} (hi : (Nat.toDigits 10 i.natAbs).length ≤ maxIntegerDigits)
    {rest : List Char} (hrest : Breaks rest) :
    (readNumber (writeInt i ++ rest) : Reading (Json α)) = .ok (int i, rest) := by
  have hds : Whole (Nat.toDigits 10 i.natAbs) := by
    by_cases hz : i.natAbs = 0
    · rw [hz]
      exact .inl (Nat.toDigits_zero 10)
    · exact .inr (leading_toDigits hz)
  have hread := readNumber_integer (α := α) (decide (i < 0)) hds hi hrest
  rw [ofDigits_toDigits] at hread
  have htext : signed (decide (i < 0)) (Nat.toDigits 10 i.natAbs ++ rest) = writeInt i ++ rest := by
    unfold signed writeInt
    by_cases hneg : i < 0 <;> simp [hneg]
  have hvalue : (if decide (i < 0) = true then -(i.natAbs : Int) else i.natAbs) = i := by
    simp only [decide_eq_true_iff]
    split <;> omega
  rw [htext, hvalue] at hread
  exact hread

/-! ## Decimals -/

/-- Digits with zeros around them are as many times as great as the zeros behind them tell. -/
theorem ofParts_value {ds whole fs : List Char} (negative : Bool) {e point : Int} {z t : Nat}
    (hdigits : whole ++ fs = List.replicate z '0' ++ ds ++ List.replicate t '0')
    (hpoint : e - fs.length = point - ds.length - t) :
    ((ofParts negative whole fs e).digits : ℚ) * 10 ^ (ofParts negative whole fs e).exponent
      = ofDigits ds * 10 ^ (point - ds.length) := by
  have hvalue : ofDigits (whole ++ fs) = ofDigits ds * 10 ^ t := by
    rw [hdigits, ofDigits_append, ofDigits_append, ofDigits_replicate, ofDigits_replicate,
      List.length_replicate, Nat.mul_zero, Nat.zero_add, Nat.add_zero, Nat.mul_comm]
  have hsplit : (10 : ℚ) ^ (point - ds.length) = 10 ^ t * 10 ^ (point - ds.length - t) := by
    rw [← zpow_natCast, ← zpow_add₀ (by norm_num)]
    congr 1
    ring
  unfold ofParts
  dsimp only
  rw [hvalue, hpoint, hsplit]
  push_cast
  ring

/-- Digits as a decimal is written with them: the point stands behind so many of them. -/
def placed (ds : List Char) (point : Int) : List Char :=
  if -4 < point ∧ point ≤ 16 then
    let whole := ds.take point.toNat ++ List.replicate (point.toNat - ds.length) '0'
    let fs := List.replicate (-point).toNat '0' ++ ds.drop point.toNat
    (if whole.isEmpty then ['0'] else whole) ++ '.' :: (if fs.isEmpty then ['0'] else fs)
  else
    ds.take 1 ++ ((if (ds.drop 1).isEmpty then [] else '.' :: ds.drop 1) ++
      'e' :: exponentText (point - 1))

theorem text_eq {d : Decimal} (hd : d.digits ≠ 0) {ds : List Char} {z : Nat}
    (h : stripZeros 0 (Nat.toDigits 10 d.digits).reverse = (ds, z)) :
    d.text = signed d.negative (placed ds (ds.length + d.exponent + z)) := by
  unfold Decimal.text placed signed
  simp only [if_neg hd, h]
  cases d.negative <;> split <;> simp

theorem isDigit_of_mem_replicate {n : Nat} : ∀ c ∈ List.replicate n '0', c.isDigit = true := by
  intro c hc
  rw [List.eq_of_mem_replicate hc]
  rfl

/-- The point stands among the digits or among zeros before or behind them. -/
theorem exists_placed_fixed {ds : List Char} (hds : Leading ds) {point : Int}
    (h : -4 < point ∧ point ≤ 16) :
    ∃ whole fs z t, placed ds point = whole ++ '.' :: fs ∧ Whole whole ∧
      (∀ c ∈ fs, c.isDigit = true) ∧ fs ≠ [] ∧
      whole ++ fs = List.replicate z '0' ++ ds ++ List.replicate t '0' ∧
      (0 : Int) - fs.length = point - ds.length - t := by
  obtain ⟨c, cs, hcons, hc⟩ := hds.head
  rw [placed, if_pos h]
  rcases le_or_gt point 0 with hpoint | hpoint
  · -- all digits stand behind the point
    have hzero : point.toNat = 0 := by omega
    refine ⟨['0'], List.replicate (-point).toNat '0' ++ ds, (-point).toNat + 1, 0, ?_, .inl rfl,
      List.forall_mem_append.mpr ⟨isDigit_of_mem_replicate, hds.isDigit⟩, ?_, ?_, ?_⟩
    · simp [hzero, hcons]
    · simp [hcons]
    · simp [List.replicate_succ]
    · rw [List.length_append, List.length_replicate]
      omega
  · have hnone : (-point).toNat = 0 := by omega
    rcases lt_or_ge point.toNat ds.length with hlt | hge
    · -- the point stands among the digits
      have hwhole : Leading (ds.take point.toNat) := by
        refine ⟨fun d hd => hds.isDigit d (List.mem_of_mem_take hd), c, cs.take (point.toNat - 1),
          ?_, hc⟩
        rw [hcons, List.take_cons (by omega)]
      have hempty : ds.take point.toNat ≠ [] := Whole.ne_nil (.inr hwhole)
      refine ⟨ds.take point.toNat, ds.drop point.toNat, 0, 0, ?_, .inr hwhole,
        fun d hd => hds.isDigit d (List.mem_of_mem_drop hd), ?_, ?_, ?_⟩
      · simp [hnone, hempty, show point.toNat - ds.length = 0 by omega, hlt]
      · simpa using hlt
      · simp
      · rw [List.length_drop]
        omega
    · -- all digits stand before the point
      have hwhole : Leading (ds ++ List.replicate (point.toNat - ds.length) '0') :=
        hds.append isDigit_of_mem_replicate
      refine ⟨ds ++ List.replicate (point.toNat - ds.length) '0', ['0'], 0,
        point.toNat - ds.length + 1, ?_, .inr hwhole, by simp, by simp, ?_, ?_⟩
      · simp [hnone, List.take_of_length_le hge, List.drop_of_length_le hge,
          Whole.ne_nil (.inr hds)]
      · simp [List.replicate_succ']
      · rw [List.length_singleton]
        omega

theorem readNumber_placed (negative : Bool) {ds rest : List Char} (hds : Leading ds) (point : Int)
    (hrest : Breaks rest) :
    ∃ d : Decimal, (readNumber (signed negative (placed ds point ++ rest)) : Reading (Json α))
      = .ok (num d.toScalar, rest) ∧ d.negative = negative ∧
        (d.digits : ℚ) * 10 ^ d.exponent = ofDigits ds * 10 ^ (point - ds.length) := by
  by_cases hrange : -4 < point ∧ point ≤ 16
  · obtain ⟨whole, fs, z, t, htext, hwhole, hfs, hne, hdigits, hpoint⟩ :=
      exists_placed_fixed hds hrange
    refine ⟨ofParts negative whole fs 0, ?_, rfl, ofParts_value negative hdigits hpoint⟩
    rw [htext, List.append_assoc]
    exact readNumber_point negative hwhole hfs hne hrest
  · obtain ⟨c, cs, rfl, hc⟩ := hds.head
    obtain ⟨hcdigit, hcs⟩ := List.forall_mem_cons.mp hds.isDigit
    have hwhole : Leading [c] := ⟨by simpa using hcdigit, c, [], rfl, hc⟩
    refine ⟨ofParts negative [c] cs (point - 1), ?_, rfl,
      ofParts_value (z := 0) (t := 0) negative (by simp) ?_⟩
    · have hread := readNumber_exponent (α := α) negative (.inr hwhole) hcs (point - 1) hrest
      rw [placed, if_neg hrange]
      simpa using hread
    · rw [List.length_cons]
      omega

/-- A decimal is read from its text with its value. -/
theorem readNumber_text (d : Decimal) {rest : List Char} (hrest : Breaks rest) :
    ∃ d' : Decimal, (readNumber (d.text ++ rest) : Reading (Json α)) = .ok (num d'.toScalar, rest) ∧
      d'.negative = d.negative ∧
        (d'.digits : ℚ) * 10 ^ d'.exponent = d.digits * 10 ^ d.exponent := by
  by_cases hd : d.digits = 0
  · have hzero : ∀ c ∈ ['0'], c.isDigit = true := by simp
    have hread := readNumber_point (α := α) d.negative (.inl rfl) hzero (by simp) hrest
    have htext : d.text ++ rest = signed d.negative (['0'] ++ '.' :: (['0'] ++ rest)) := by
      unfold Decimal.text signed
      simp only [if_pos hd]
      cases d.negative <;> rfl
    refine ⟨ofParts d.negative ['0'] ['0'] 0, by rw [htext, hread], rfl, ?_⟩
    rw [hd]
    simp [ofParts, ofDigits]
  · obtain ⟨ds, z, hstrip, hds, hvalue⟩ := exists_stripZeros hd
    obtain ⟨d', hread, hnegative, hsame⟩ :=
      readNumber_placed (α := α) d.negative hds (ds.length + d.exponent + z) hrest
    have htext : d.text ++ rest
        = signed d.negative (placed ds (ds.length + d.exponent + z) ++ rest) := by
      rw [text_eq hd hstrip]
      unfold signed
      cases d.negative <;> rfl
    refine ⟨d', by rw [htext, hread], hnegative, ?_⟩
    have hexp : ds.length + d.exponent + z - ds.length = z + d.exponent := by ring
    rw [hsame, hexp, zpow_add₀ (by norm_num), zpow_natCast, hvalue]
    push_cast
    ring

end Json

end Whiteboard

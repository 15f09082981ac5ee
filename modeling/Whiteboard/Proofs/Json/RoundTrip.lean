import Whiteboard.Proofs.Decimal.Text
import Whiteboard.Proofs.Entries
import Whiteboard.Proofs.Json.Strings
import Whiteboard.Proofs.Scalar.Shortest

/-!
# Writing and reading JSON

A legible value is read as it is written, on one line and over several (`Json.read_write`); numbers
that are finite doubles are legible (`Json.readNumber_literal`).
-/

namespace Whiteboard

theorem Binary64.Writes.congr {d d' : Decimal} {b : Binary64} (h : Writes d b)
    (hnegative : d'.negative = d.negative)
    (hvalue : (d'.digits : ℚ) * 10 ^ d'.exponent = d.digits * 10 ^ d.exponent) : Writes d' b where
  negative := hnegative.trans h.negative
  zero hb := by
    have hzero : (d'.digits : ℚ) * 10 ^ d'.exponent = 0 := by
      rw [hvalue, h.zero hb, Nat.cast_zero, zero_mul]
    have hpow : (10 : ℚ) ^ d'.exponent ≠ 0 := by positivity
    exact_mod_cast (mul_eq_zero.mp hzero).resolve_right hpow
  roundsTo hb := by
    rw [hvalue]
    exact h.roundsTo hb

namespace Json

/-! ## Numbers and words -/

/-- A finite double is read as it is written. -/
theorem readNumber_literal {x : Double} (hx : Scalar.isFinite x = true) {rest : List Char}
    (hrest : Breaks rest) :
    readNumber (NumberText.literal x ++ rest) = .ok (num x, rest) := by
  obtain ⟨b, hb⟩ := Binary64.isFinite_iff.mp hx
  obtain ⟨d, hread, hnegative, hvalue⟩ :=
    readNumber_text (α := Double) (Decimal.shortest b) hrest
  have htext : NumberText.literal x = (Decimal.shortest b).text := by
    change doubleText "NaN" "Infinity" x.value = _
    rw [doubleText, hb]
  rw [htext, hread, Double.toScalar_eq hb ((Binary64.writes_shortest hb).congr hnegative hvalue)]

variable {α : Type}

theorem readWord?_eq_none {cs : List Char} {ws : List (List Char × Option (Json α))}
    (h : ∀ w ∈ ws, w.1.isPrefixOf cs = false) : readWord? cs ws = none := by
  induction ws with
  | nil => rfl
  | cons w ws ih =>
    rw [List.forall_mem_cons] at h
    obtain ⟨word, value?⟩ := w
    cases value? with
    | none => exact ih h.2
    | some value =>
      have hfirst : word.isPrefixOf cs = false := h.1
      simp only [readWord?, hfirst, Bool.false_eq_true, if_false]
      exact ih h.2

variable [Scalar α]

/-- What is read as a number is no word. -/
theorem readAtom_of_readNumber {cs : List Char} {r : Json α × List Char}
    (h : readNumber cs = .ok r) : readAtom cs = .ok r := by
  obtain ⟨c, cs', hcs, hc⟩ := exists_of_readNumber h
  have hwords : ∀ w ∈ (words : List (List Char × Option (Json α))),
      w.1.isPrefixOf cs = false := by
    have hne (d : Char) (hd : d.isDigit = false) : (d == c) = false := by
      rw [beq_eq_false_iff_ne]
      rintro rfl
      rw [hc] at hd
      contradiction
    rcases hcs with rfl | rfl <;> simp [words, List.isPrefixOf, hne]
  rw [readAtom, readWord?_eq_none hwords]
  exact h

theorem readValue_of_readNumber {cs : List Char} {r : Json α × List Char}
    (h : readNumber cs = .ok r) (room fuel : Nat) : readValue room (fuel + 1) cs = .ok r := by
  have hatom := readAtom_of_readNumber h
  obtain ⟨c, cs', hcs, hc⟩ := exists_of_readNumber h
  rw [readValue.eq_def]
  dsimp only
  split
  · simp at hcs
  iterate 3
    rcases hcs with hcs | hcs
    · cases hcs
      contradiction
    · cases hcs
  exact hatom

/-! ## Gaps -/

theorem skipGap_append {gap rest : List Char} (hgap : ∀ c ∈ gap, isGap c = true)
    (hrest : ∀ c ∈ rest.head?, isGap c = false) : skipGap (gap ++ rest) = rest := by
  rw [skipGap, List.dropWhile_append_of_pos hgap]
  cases rest with
  | nil => rfl
  | cons c rest => exact List.dropWhile_cons_of_neg (by simp [hrest c rfl])

theorem breaks_append {gap rest : List Char} (hgap : ∀ c ∈ gap, isGap c = true)
    (hrest : Breaks rest) : Breaks (gap ++ rest) := by
  cases gap with
  | nil => exact hrest
  | cons c gap =>
    apply breaks_cons
    have hc := hgap c (List.mem_cons_self ..)
    simp only [isGap, Bool.or_eq_true, beq_iff_eq] at hc
    rcases hc with ((rfl | rfl) | rfl) | rfl <;> decide

/-- The parts of arrays and objects are set apart by gaps. -/
structure Layout.Spaced (l : Layout) : Prop where
  opening : ∀ depth, ∀ c ∈ l.opening depth, isGap c = true
  between : ∀ depth, ∃ gap, l.between depth = ',' :: gap ∧ ∀ c ∈ gap, isGap c = true
  closing : ∀ depth, ∀ c ∈ l.closing depth, isGap c = true

theorem Layout.spaced_line : Layout.line.Spaced where
  opening := nofun
  between _ := ⟨[' '], rfl, by simp [isGap]⟩
  closing := nofun

theorem isGap_newline (n : Nat) : ∀ c ∈ '\n' :: List.replicate n ' ', isGap c = true := by
  intro c hc
  rcases List.mem_cons.mp hc with rfl | hc
  · rfl
  · rw [List.eq_of_mem_replicate hc]
    rfl

theorem Layout.spaced_indented : Layout.indented.Spaced where
  opening depth := isGap_newline (2 * (depth + 1))
  between depth := ⟨_, rfl, isGap_newline (2 * (depth + 1))⟩
  closing depth := isGap_newline (2 * depth)

/-! ## Values -/

/-- A character that neither stands between values nor closes a list of them. -/
structure Begins (c : Char) : Prop where
  not_gap : isGap c = false
  not_mark : c ≠ '\uFEFF'
  not_bracket : c ≠ ']'

theorem begins_of_isDigit {c : Char} (hc : c.isDigit = true) : Begins c where
  not_gap := by
    by_contra hgap
    simp only [isGap, Bool.not_eq_false, Bool.or_eq_true, beq_iff_eq] at hgap
    rcases hgap with ((rfl | rfl) | rfl) | rfl <;> contradiction
  not_mark := by
    rintro rfl
    contradiction
  not_bracket := by
    rintro rfl
    contradiction

theorem begins_of_readNumber {cs : List Char} {r : Json α × List Char}
    (h : readNumber cs = .ok r) : ∃ c cs', cs = c :: cs' ∧ Begins c := by
  obtain ⟨c, cs', rfl | rfl, hc⟩ := exists_of_readNumber h
  · exact ⟨c, cs', rfl, begins_of_isDigit hc⟩
  · exact ⟨'-', c :: cs', rfl, by constructor <;> decide⟩

variable [NumberText α]

/-- Values that are read back from their text with room for nesting: the numbers are, integers do
not have too many digits, and no key of an object is repeated. -/
inductive Legible : Nat → Json α → Prop where
  | null {room : Nat} : Legible room null
  | bool {room : Nat} {b : Bool} : Legible room (bool b)
  | int {room : Nat} {i : Int} :
      (Nat.toDigits 10 i.natAbs).length ≤ Decimal.maxIntegerDigits → Legible room (int i)
  | num {room : Nat} {x : α} :
      (∀ rest, Breaks rest → readNumber (NumberText.literal x ++ rest) = .ok (num x, rest)) →
      Legible room (num x)
  | str {room : Nat} {s : String} : Legible room (str s)
  | arr {room : Nat} {vs : List (Json α)} :
      (∀ v ∈ vs, Legible room v) → Legible (room + 1) (arr vs)
  | obj {room : Nat} {ms : Entries (Json α)} :
      ms.keys.Nodup → (∀ m ∈ ms, Legible room m.2) → Legible (room + 1) (obj ms)

theorem begins_writeAt (layout : Layout) {room : Nat} {v : Json α} (h : Legible room v) (depth : Nat) :
    ∃ c cs, writeAt layout depth v = c :: cs ∧ Begins c := by
  cases h with
  | null => exact ⟨'n', _, rfl, by constructor <;> decide⟩
  | @bool _ b =>
    cases b
    · exact ⟨'f', _, rfl, by constructor <;> decide⟩
    · exact ⟨'t', _, rfl, by constructor <;> decide⟩
  | @int _ i hi =>
    have hread := readNumber_writeInt (α := α) hi (show Breaks [] from nofun)
    rw [List.append_nil] at hread
    exact begins_of_readNumber hread
  | num hx =>
    have hread := hx [] nofun
    rw [List.append_nil] at hread
    exact begins_of_readNumber hread
  | str => exact ⟨'"', _, rfl, by constructor <;> decide⟩
  | @arr _ vs _ =>
    cases vs with
    | nil => exact ⟨'[', _, rfl, by constructor <;> decide⟩
    | cons v vs => exact ⟨'[', _, rfl, by constructor <;> decide⟩
  | @obj _ ms _ _ =>
    cases ms with
    | nil => exact ⟨'{', _, rfl, by constructor <;> decide⟩
    | cons m ms => exact ⟨'{', _, rfl, by constructor <;> decide⟩

variable {layout : Layout}

/-- A value is read in front of any text that does not go on a number, given a step for each
character. -/
def Reads (layout : Layout) (room : Nat) (v : Json α) : Prop :=
  ∀ depth fuel rest, Breaks rest → (writeAt layout depth v).length ≤ fuel →
    readValue room fuel (writeAt layout depth v ++ rest) = .ok (v, rest)

theorem skipGap_writeAt (layout : Layout) {room : Nat} {v : Json α} (h : Legible room v)
    (depth : Nat) {gap : List Char} (hgap : ∀ c ∈ gap, isGap c = true) (rest : List Char) :
    skipGap (gap ++ (writeAt layout depth v ++ rest)) = writeAt layout depth v ++ rest := by
  obtain ⟨c, cs, hcs, hc⟩ := begins_writeAt layout h depth
  refine skipGap_append hgap ?_
  rw [hcs]
  simpa using hc.not_gap

theorem length_writeAt_pos (layout : Layout) {room : Nat} {v : Json α} (h : Legible room v)
    (depth : Nat) : 0 < (writeAt layout depth v).length := by
  obtain ⟨c, cs, hcs, -⟩ := begins_writeAt layout h depth
  rw [hcs]
  exact Nat.succ_pos _

/-- The text of a value is not empty, so there is at least one step. -/
theorem reads_of_succ {room : Nat} {v : Json α} (h : Legible room v)
    (hread : ∀ depth fuel rest, Breaks rest → (writeAt layout depth v).length ≤ fuel + 1 →
      readValue room (fuel + 1) (writeAt layout depth v ++ rest) = .ok (v, rest)) :
    Reads layout room v := by
  intro depth fuel rest hrest hfuel
  have hpos := length_writeAt_pos layout h depth
  obtain ⟨fuel, rfl⟩ := Nat.exists_eq_succ_of_ne_zero (by omega : fuel ≠ 0)
  exact hread depth fuel rest hrest hfuel

/-- One member is read, and then those that follow it, if any. -/
theorem readMembers_writeString {room : Nat} {k : String} {v : Json α} (hv : Legible room v)
    (hread : Reads layout room v) (depth : Nat) {fuel : Nat} {done : Entries (Json α)}
    {rest : List Char} (hrest : Breaks rest) (hfuel : (writeAt layout depth v).length ≤ fuel)
    (hk : k ∉ done.keys) {next : Char} {after : List Char} (hnext : next = ',' ∨ next = '}')
    (hgap : skipGap rest = next :: after) :
    readMembers room (fuel + 1) done
      (writeString k ++ (':' :: ' ' :: (writeAt layout depth v ++ rest)))
      = if next = ',' then readMembers room fuel (done ++ [(k, v)]) (skipGap after)
        else .ok (done ++ [(k, v)], after) := by
  have hcolon (cs : List Char) : skipGap (':' :: cs) = ':' :: cs := rfl
  have hvalue : skipGap (' ' :: (writeAt layout depth v ++ rest)) = writeAt layout depth v ++ rest :=
    skipGap_writeAt layout hv depth (show ∀ c ∈ [' '], isGap c = true by simp [isGap]) rest
  have hkey (opening after : List Char) : readString opening
      ((k.toList.flatMap escapeChar ++ '"' :: after).length + 1)
      (k.toList.flatMap escapeChar ++ '"' :: after) = .ok (k.toList, after) := by
    apply readString_flatMap
    have := length_le_length_flatMap k.toList
    rw [List.length_append]
    omega
  simp only [writeString, List.cons_append, List.append_assoc, List.nil_append]
  rw [readMembers]
  simp only [hkey, hcolon, hvalue, hread depth fuel rest hrest hfuel, String.ofList_toList,
    Entries.set_of_not_mem hk, hgap]
  rcases hnext with rfl | rfl
  · exact (if_pos rfl).symm
  · exact (if_neg (by decide)).symm

section

variable (hl : layout.Spaced)

include hl

theorem readItems_writeItems {room : Nat} {v : Json α} {vs : List (Json α)}
    (h : ∀ w ∈ v :: vs, Legible room w ∧ Reads layout room w) (depth : Nat) {fuel : Nat}
    (rest : List Char)
    (hfuel : (writeAt layout (depth + 1) v).length + (writeItems layout depth vs).length < fuel) :
    readItems room fuel (writeAt layout (depth + 1) v ++
      (writeItems layout depth vs ++ (layout.closing depth ++ ']' :: rest)))
      = .ok (v :: vs, rest) := by
  induction vs generalizing v fuel with
  | nil =>
    obtain ⟨fuel, rfl⟩ := Nat.exists_eq_succ_of_ne_zero (Nat.ne_zero_of_lt hfuel)
    obtain ⟨hv, hread⟩ := h v (List.mem_cons_self ..)
    have hbreaks : Breaks (layout.closing depth ++ ']' :: rest) :=
      breaks_append (hl.closing depth) (breaks_cons (by decide))
    have hgap : skipGap (layout.closing depth ++ ']' :: rest) = ']' :: rest :=
      skipGap_append (hl.closing depth) (by simp [isGap])
    rw [writeItems, List.nil_append, readItems,
      hread (depth + 1) fuel _ hbreaks (by omega)]
    simp only [hgap]
  | cons w ws ih =>
    obtain ⟨fuel, rfl⟩ := Nat.exists_eq_succ_of_ne_zero (Nat.ne_zero_of_lt hfuel)
    rw [List.forall_mem_cons] at h
    obtain ⟨⟨hv, hread⟩, h⟩ := h
    obtain ⟨gap, hbetween, hgap⟩ := hl.between depth
    have hpos := length_writeAt_pos layout hv (depth + 1)
    simp only [writeItems, hbetween, List.cons_append, List.append_assoc, List.length_cons,
      List.length_append] at hfuel ⊢
    have hbreaks (cs : List Char) : Breaks (',' :: cs) := breaks_cons (by decide)
    have hcomma (cs : List Char) : skipGap (',' :: cs) = ',' :: cs := rfl
    rw [readItems, hread (depth + 1) fuel _ (hbreaks _) (by omega)]
    simp only [hcomma]
    rw [skipGap_writeAt layout (h w (List.mem_cons_self ..)).1 (depth + 1) hgap, ih h (by omega)]
    rfl

theorem readMembers_writeMembers {room : Nat} {k : String} {v : Json α} {ms : Entries (Json α)}
    (h : ∀ m ∈ (k, v) :: ms, Legible room m.2 ∧ Reads layout room m.2) (depth : Nat) {fuel : Nat}
    {done : Entries (Json α)} (hkeys : (done ++ (k, v) :: ms).keys.Nodup) (rest : List Char)
    (hfuel : (writeAt layout (depth + 1) v).length + (writeMembers layout depth ms).length < fuel) :
    readMembers room fuel done (writeString k ++ (':' :: ' ' :: (writeAt layout (depth + 1) v ++
      (writeMembers layout depth ms ++ (layout.closing depth ++ '}' :: rest)))))
      = .ok (done ++ (k, v) :: ms, rest) := by
  induction ms generalizing k v fuel done with
  | nil =>
    obtain ⟨fuel, rfl⟩ := Nat.exists_eq_succ_of_ne_zero (Nat.ne_zero_of_lt hfuel)
    obtain ⟨hv, hread⟩ : Legible room v ∧ Reads layout room v := h (k, v) (List.mem_cons_self ..)
    have hbreaks : Breaks (layout.closing depth ++ '}' :: rest) :=
      breaks_append (hl.closing depth) (breaks_cons (by decide))
    have hgap : skipGap (layout.closing depth ++ '}' :: rest) = '}' :: rest :=
      skipGap_append (hl.closing depth) (by simp [isGap])
    have hk := Entries.not_mem_of_nodup hkeys
    rw [writeMembers, List.nil_append, readMembers_writeString hv hread (depth + 1) hbreaks
      (by omega) hk (.inr rfl) hgap, if_neg (by decide)]
  | cons m ms ih =>
    obtain ⟨fuel, rfl⟩ := Nat.exists_eq_succ_of_ne_zero (Nat.ne_zero_of_lt hfuel)
    rw [List.forall_mem_cons] at h
    obtain ⟨⟨hv, hread⟩, h⟩ : (Legible room v ∧ Reads layout room v) ∧ _ := h
    obtain ⟨gap, hbetween, hgap⟩ := hl.between depth
    obtain ⟨k', v'⟩ := m
    have hpos := length_writeAt_pos layout hv (depth + 1)
    simp only [writeMembers, hbetween, List.cons_append, List.append_assoc, List.length_cons,
      List.length_append] at hfuel ⊢
    have hbreaks (cs : List Char) : Breaks (',' :: cs) := breaks_cons (by decide)
    have hcomma (cs : List Char) : skipGap (',' :: cs) = ',' :: cs := rfl
    have hk := Entries.not_mem_of_nodup hkeys
    have hquote (cs : List Char) : skipGap (gap ++ (writeString k' ++ cs)) = writeString k' ++ cs :=
      skipGap_append hgap (by simp [writeString, isGap])
    rw [readMembers_writeString hv hread (depth + 1) (hbreaks _) (by omega) hk (.inl rfl)
      (hcomma _), if_pos rfl, List.nil_append, hquote, ih h (by simpa using hkeys) (by omega)]
    simp

theorem reads_items {room : Nat} {v : Json α} {vs : List (Json α)}
    (h : ∀ w ∈ v :: vs, Legible room w ∧ Reads layout room w) :
    Reads layout (room + 1) (arr (v :: vs)) := by
  refine reads_of_succ (.arr fun w hw => (h w hw).1) fun depth fuel rest _ hfuel => ?_
  obtain ⟨hv, -⟩ := h v (List.mem_cons_self ..)
  obtain ⟨c, cs, hcs, hc⟩ := begins_writeAt layout hv (depth + 1)
  simp only [writeAt, List.cons_append, List.append_assoc, List.nil_append, List.length_cons,
    List.length_append, List.length_nil] at hfuel ⊢
  have hopening := skipGap_writeAt layout hv (depth + 1) (hl.opening depth)
    (writeItems layout depth vs ++ (layout.closing depth ++ ']' :: rest))
  have hitems := readItems_writeItems hl h depth rest (show _ < fuel by omega)
  rw [readValue]
  simp only [Nat.add_eq_zero_iff, one_ne_zero, and_false, if_false, hopening, Nat.add_sub_cancel]
  split
  · next hclose =>
    rw [hcs] at hclose
    exact absurd (List.cons.inj hclose).1 hc.not_bracket
  · rw [hitems]
    rfl

theorem reads_members {room : Nat} {k : String} {v : Json α} {ms : Entries (Json α)}
    (hkeys : Entries.keys ((k, v) :: ms) |>.Nodup)
    (h : ∀ m ∈ (k, v) :: ms, Legible room m.2 ∧ Reads layout room m.2) :
    Reads layout (room + 1) (obj ((k, v) :: ms)) := by
  refine reads_of_succ (.obj hkeys fun m hm => (h m hm).1) fun depth fuel rest _ hfuel => ?_
  simp only [writeAt, List.cons_append, List.append_assoc, List.nil_append, List.length_cons,
    List.length_append, List.length_nil] at hfuel ⊢
  have hopening (cs : List Char) : skipGap (layout.opening depth ++ (writeString k ++ cs))
      = writeString k ++ cs :=
    skipGap_append (hl.opening depth) (by simp [writeString, isGap])
  have hmembers := readMembers_writeMembers hl h depth
    (show (Entries.keys ([] ++ (k, v) :: ms)).Nodup from hkeys) rest
    (show _ < fuel by omega)
  rw [readValue]
  simp only [Nat.add_eq_zero_iff, one_ne_zero, and_false, if_false, hopening, Nat.add_sub_cancel]
  split
  · next hclose =>
    rw [writeString, List.cons_append] at hclose
    exact absurd (List.cons.inj hclose).1 (by decide)
  · rw [hmembers]
    rfl

/-- A legible value is read as it is written. -/
theorem reads_of_legible {room : Nat} {v : Json α} (h : Legible room v) : Reads layout room v := by
  induction h with
  | null => exact reads_of_succ .null fun depth fuel rest _ _ => rfl
  | @bool _ b => exact reads_of_succ .bool fun depth fuel rest _ _ => by cases b <;> rfl
  | int hi =>
    exact reads_of_succ (.int hi) fun depth fuel rest hrest _ =>
      readValue_of_readNumber (readNumber_writeInt hi hrest) ..
  | num hx =>
    exact reads_of_succ (.num hx) fun depth fuel rest hrest _ =>
      readValue_of_readNumber (hx rest hrest) ..
  | @str room s =>
    refine reads_of_succ .str fun depth fuel rest _ _ => ?_
    have hread : readString (writeString s ++ rest)
        ((s.toList.flatMap escapeChar ++ '"' :: rest).length + 1)
        (s.toList.flatMap escapeChar ++ '"' :: rest) = .ok (s.toList, rest) := by
      apply readString_flatMap
      have := length_le_length_flatMap s.toList
      rw [List.length_append]
      omega
    simp only [writeString, writeAt, List.cons_append, List.append_assoc, List.nil_append]
      at hread ⊢
    rw [readValue, hread]
    simp [Except.map]
  | @arr room vs hvs ih =>
    cases vs with
    | nil => exact reads_of_succ (.arr hvs) fun depth fuel rest _ _ => rfl
    | cons v vs => exact reads_items hl fun w hw => ⟨hvs w hw, ih w hw⟩
  | @obj room ms hkeys hms ih =>
    cases ms with
    | nil => exact reads_of_succ (.obj hkeys hms) fun depth fuel rest _ _ => rfl
    | cons m ms => exact reads_members hl hkeys fun m hm => ⟨hms m hm, ih m hm⟩

/-- A legible text is read as it is written. -/
theorem read_writeAt {v : Json α} (h : Legible maxNesting v) :
    read (writeAt layout 0 v) = .ok v := by
  obtain ⟨c, cs, hcs, hc⟩ := begins_writeAt layout h 0
  have hread := reads_of_legible hl h 0 _ [] nofun (Nat.le_succ (writeAt layout 0 v).length)
  have hgap : skipGap (writeAt layout 0 v) = writeAt layout 0 v := by
    simpa using skipGap_writeAt layout h 0 (show ∀ c ∈ [], isGap c = true from nofun) []
  rw [List.append_nil] at hread
  rw [read.eq_2 _ fun rest heq => ?_]
  · rw [hgap, hread]
    rfl
  · rw [hcs] at heq
    exact hc.not_mark (List.cons.inj heq).1

end

theorem read_write {v : Json α} (h : Legible maxNesting v) :
    read (write v) = .ok v ∧ read (writeIndented v) = .ok v :=
  ⟨read_writeAt Layout.spaced_line h, read_writeAt Layout.spaced_indented h⟩

end Json

end Whiteboard

import Mathlib.Data.List.Infix
import Mathlib.Data.List.TakeWhile
import Whiteboard.Text.Scan

/-!
# What scanners find

Each recognizer at the front of a text, by the texts that it accepts, and with more text behind: a
word or a mark whose characters do not occur there is found where it was found before.
-/

namespace Whiteboard.Text

variable {p : Char → Bool} {u cs rest mark word : List Char}

/-! ## Properties of the characters of a text

These are decided over the characters of the text, not over all there are. -/

section Decidable

variable {q : Char → Prop} [DecidablePred q]

instance (priority := 1100) decidableForallMem (cs : List Char) : Decidable (∀ c ∈ cs, q c) :=
  List.decidableBAll q cs

instance (priority := 1100) decidableExistsMem (cs : List Char) : Decidable (∃ c ∈ cs, q c) :=
  List.decidableBEx q cs

instance (priority := 1100) decidableForallMem? (c? : Option Char) : Decidable (∀ c ∈ c?, q c) :=
  Option.decidableForallMem c?

instance (priority := 1100) decidableExistsMem? (c? : Option Char) : Decidable (∃ c ∈ c?, q c) :=
  Option.decidableExistsMem c?

end Decidable

/-! ## Spans -/

/-- A text behind that does not begin with the class does not matter. -/
theorem span_append_right (hrest : ∀ c ∈ rest.head?, p c = false) (cs : List Char) :
    span p (cs ++ rest) = ((span p cs).1, (span p cs).2 ++ rest) := by
  induction cs with
  | nil =>
    cases rest with
    | nil => rfl
    | cons c rest => simp [span, hrest c rfl]
  | cons c cs ih =>
    rw [span, Prod.mk.injEq] at ih
    by_cases hc : p c = true <;> simp [span, hc, ih]

theorem span_append (h : ∀ c ∈ u, p c = true) (hrest : ∀ c ∈ rest.head?, p c = false) :
    span p (u ++ rest) = (u, rest) := by
  have hleft : u.takeWhile p = u := List.takeWhile_eq_self_iff.mpr h
  have hright : u.dropWhile p = [] := List.dropWhile_eq_nil_iff.mpr h
  rw [span_append_right hrest, span, hleft, hright, List.nil_append]

/-! ## Words -/

theorem dropWord?_eq_some_iff : dropWord? word cs = some rest ↔ cs = word ++ rest := by
  unfold dropWord?
  split
  · next h =>
    obtain ⟨r, rfl⟩ := List.isPrefixOf_iff_prefix.mp h
    simp
  · next h =>
    refine ⟨nofun, fun heq => absurd (List.isPrefixOf_iff_prefix.mpr ?_) h⟩
    exact heq ▸ List.prefix_append word rest

theorem dropWord?_append_self (word rest : List Char) : dropWord? word (word ++ rest) = some rest :=
  dropWord?_eq_some_iff.mpr rfl

theorem dropWord?_eq_none_of_head {c : Char} (h : ∀ d ∈ cs.head?, d ≠ c) :
    dropWord? (c :: word) cs = none := by
  refine Option.eq_none_iff_forall_ne_some.mpr fun r hr => ?_
  rw [dropWord?_eq_some_iff.mp hr] at h
  exact h c rfl rfl

theorem dropWord?_singleton_append {c : Char} (h : c ∉ rest.head?) (cs : List Char) :
    dropWord? [c] (cs ++ rest) = (dropWord? [c] cs).map (· ++ rest) := by
  cases cs with
  | nil => exact dropWord?_eq_none_of_head fun d hd heq => h (heq ▸ hd)
  | cons d cs => by_cases hd : c = d <;> simp [dropWord?, hd]

theorem dropWord?_append (hmem : ∀ c ∈ word, c ∉ rest) (cs : List Char) :
    dropWord? word (cs ++ rest) = (dropWord? word cs).map (· ++ rest) := by
  cases h : dropWord? word cs with
  | some r =>
    rw [dropWord?_eq_some_iff.mp h, List.append_assoc]
    exact dropWord?_append_self word (r ++ rest)
  | none =>
    refine Option.eq_none_iff_forall_ne_some.mpr fun r hr => ?_
    have heq := dropWord?_eq_some_iff.mp hr
    rcases List.append_eq_append_iff.mp heq with ⟨t, hword, hrest⟩ | ⟨t, hcs, -⟩
    · cases t with
      | nil =>
        have hcs : cs = word ++ [] := by simpa using hword.symm
        rw [dropWord?_eq_some_iff.mpr hcs] at h
        contradiction
      | cons c t =>
        refine hmem c ?_ ?_
        · simp [hword]
        · simp [hrest]
    · rw [dropWord?_eq_some_iff.mpr hcs] at h
      contradiction

/-- A word that stands in front of a text up to a character outside of it stands in its front. -/
theorem eq_append_of_dropWord? {c : Char} {after : List Char} (hc : c ∉ word)
    (h : dropWord? word (u ++ c :: rest) = some after) :
    ∃ t, u = word ++ t ∧ after = t ++ c :: rest := by
  rcases List.append_eq_append_iff.mp (dropWord?_eq_some_iff.mp h) with
    ⟨t, rfl, hrest⟩ | ⟨t, hu, hafter⟩
  · cases t with
    | nil => exact ⟨[], by simp, hrest.symm⟩
    | cons d t =>
      obtain ⟨rfl, -⟩ := List.cons.inj hrest
      exact absurd (by simp) hc
  · exact ⟨t, hu, hafter⟩

theorem isPrefixOf_append_cons {c : Char} (hc : c ∉ word) (u rest : List Char) :
    word.isPrefixOf (u ++ c :: rest) = word.isPrefixOf u := by
  rw [Bool.eq_iff_iff, List.isPrefixOf_iff_prefix, List.isPrefixOf_iff_prefix]
  constructor
  · rintro ⟨after, hafter⟩
    obtain ⟨t, ht, -⟩ := eq_append_of_dropWord? hc (dropWord?_eq_some_iff.mpr hafter.symm)
    exact ⟨t, ht.symm⟩
  · exact fun h => h.trans (List.prefix_append _ _)

theorem dropBlanks?_append (hne : u ≠ []) (hu : ∀ c ∈ u, isBlank c = true)
    (hrest : ∀ c ∈ rest.head?, isBlank c = false) : dropBlanks? (u ++ rest) = some rest := by
  rw [dropBlanks?, spanBlank, span_append hu hrest]
  exact if_neg (by simpa using hne)

theorem isSuffix_dropBlanks? (h : dropBlanks? cs = some rest) : rest <:+ cs := by
  rw [dropBlanks?, spanBlank, span] at h
  obtain ⟨-, hrest⟩ := Option.ite_none_left_eq_some.mp h
  exact Option.some.inj hrest ▸ List.dropWhile_suffix _

theorem dropAnyCase?_eq_some {word cs rest : List Char} (h : dropAnyCase? word cs = some rest) :
    ∃ shown, shown.map Char.toLower = word ∧ cs = shown ++ rest := by
  induction word generalizing cs with
  | nil =>
    cases h
    exact ⟨[], rfl, rfl⟩
  | cons w word ih =>
    cases cs with
    | nil => cases h
    | cons c cs =>
      rw [dropAnyCase?] at h
      split at h
      · next hc =>
        obtain ⟨shown, hshown, hcs⟩ := ih h
        exact ⟨c :: shown, by rw [List.map_cons, hc, hshown], by rw [hcs, List.cons_append]⟩
      · cases h

/-! ## Marks -/

theorem cutAt?_cons_of_prefix (hne : mark ≠ []) (rest : List Char) :
    cutAt? mark (mark ++ rest) = some ([], rest) := by
  obtain ⟨m, ms, rfl⟩ := List.exists_cons_of_ne_nil hne
  have hprefix : (m :: ms).isPrefixOf (m :: (ms ++ rest)) = true :=
    List.isPrefixOf_iff_prefix.mpr (List.prefix_append (m :: ms) rest)
  rw [List.cons_append, cutAt?, if_pos hprefix]
  simp

theorem cutAt?_cons {c : Char} (h : dropWord? mark (c :: cs) = none) :
    cutAt? mark (c :: cs) = (cutAt? mark cs).map fun (before, after) => (c :: before, after) := by
  unfold dropWord? at h
  split at h
  · cases h
  · next hnot => rw [cutAt?, if_neg hnot]

theorem cutAt?_eq_some {before after : List Char} (h : cutAt? mark cs = some (before, after)) :
    cs = before ++ mark ++ after := by
  induction cs generalizing before with
  | nil =>
    unfold cutAt? at h
    split at h
    · next hmark =>
      cases h
      simpa using hmark
    · cases h
  | cons c cs ih =>
    cases hword : dropWord? mark (c :: cs) with
    | some r =>
      have hcs := dropWord?_eq_some_iff.mp hword
      rcases List.eq_nil_or_concat mark with rfl | ⟨_, _, hmark⟩
      · simp only [cutAt?, List.isPrefixOf_nil_left, if_true, Option.some.injEq,
          Prod.mk.injEq] at h
        obtain ⟨rfl, rfl⟩ := h
        rfl
      · rw [hcs, cutAt?_cons_of_prefix (by simp [hmark])] at h
        cases h
        simpa using hcs
    | none =>
      rw [cutAt?_cons hword] at h
      obtain ⟨⟨b, a⟩, hcut, hpair⟩ := Option.map_eq_some_iff.mp h
      cases hpair
      rw [ih hcut]
      rfl

/-- A mark that stands in a text is found. -/
theorem isSome_cutAt? (mark before after : List Char) :
    (cutAt? mark (before ++ mark ++ after)).isSome = true := by
  induction before with
  | nil =>
    cases hmark : mark with
    | nil => cases after <;> rfl
    | cons m ms =>
      rw [List.nil_append, cutAt?_cons_of_prefix (List.cons_ne_nil m ms)]
      rfl
  | cons c before ih =>
    rw [List.cons_append, List.cons_append, cutAt?]
    split
    · rfl
    · simpa using ih

/-- The first mark is found if no character before it begins a mark. -/
theorem cutAt?_of_not_mem {m : Char} {before : List Char} (h : m ∉ before) (after : List Char) :
    cutAt? (m :: mark) (before ++ (m :: mark) ++ after) = some (before, after) := by
  induction before with
  | nil => exact cutAt?_cons_of_prefix (List.cons_ne_nil m mark) after
  | cons c before ih =>
    rw [List.mem_cons, not_or] at h
    rw [List.cons_append, List.cons_append, cutAt?_cons, ih h.2]
    · rfl
    · exact dropWord?_eq_none_of_head fun d hd => by
        cases hd
        exact Ne.symm h.1

theorem cutAt?_append (hne : mark ≠ []) (hmem : ∀ c ∈ mark, c ∉ rest) :
    cutAt? mark (cs ++ rest)
      = (cutAt? mark cs).map fun (before, after) => (before, after ++ rest) := by
  induction cs with
  | nil =>
    have hnil : cutAt? mark [] = none := if_neg (by simpa using hne)
    rw [hnil, Option.map_none, List.nil_append]
    refine Option.eq_none_iff_forall_ne_some.mpr fun (before, after) hcut => ?_
    obtain ⟨m, ms, rfl⟩ := List.exists_cons_of_ne_nil hne
    refine hmem m List.mem_cons_self ?_
    rw [cutAt?_eq_some hcut]
    simp
  | cons c cs ih =>
    have hword := dropWord?_append hmem (c :: cs)
    cases h : dropWord? mark (c :: cs) with
    | some r =>
      have hcs := dropWord?_eq_some_iff.mp h
      rw [hcs, List.append_assoc, cutAt?_cons_of_prefix hne, cutAt?_cons_of_prefix hne]
      rfl
    | none =>
      rw [h, Option.map_none, List.cons_append] at hword
      rw [cutAt?_cons h, List.cons_append, cutAt?_cons hword, ih, Option.map_map, Option.map_map]
      rfl

/-- A character that does not stand in the middle of a text stands in front of it or behind it. -/
theorem exists_of_append_eq {c : Char} {front back : List Char} (hc : c ∉ mark)
    (h : front ++ (mark ++ back) = u ++ c :: rest) :
    (∃ t, front = u ++ c :: t ∧ rest = t ++ (mark ++ back)) ∨ ∃ t, back = t ++ c :: rest := by
  have hbehind {t : List Char} (ht : mark ++ back = t ++ c :: rest) :
      ∃ t, back = t ++ c :: rest := by
    rcases List.append_eq_append_iff.mp ht with ⟨v, -, hback⟩ | ⟨v, hmark, hback⟩
    · exact ⟨v, hback⟩
    · cases v with
      | nil => exact ⟨[], hback.symm⟩
      | cons d v =>
        obtain ⟨rfl, -⟩ := List.cons.inj hback
        exact absurd (by simp [hmark]) hc
  rcases List.append_eq_append_iff.mp h with ⟨t, -, ht⟩ | ⟨t, hfront, ht⟩
  · exact .inr (hbehind ht)
  · cases t with
    | nil => exact .inr (hbehind (t := []) ht.symm)
    | cons d t =>
      obtain ⟨rfl, hrest⟩ := List.cons.inj ht
      exact .inl ⟨t, hfront, hrest⟩

/-- What stands around a character that it does not hold stands on one side of it. -/
theorem isInfix_or_isInfix {c : Char} (hc : c ∉ mark) (h : mark <:+: u ++ c :: rest) :
    mark <:+: u ∨ mark <:+: rest := by
  obtain ⟨front, back, heq⟩ := h
  rw [List.append_assoc] at heq
  rcases List.append_eq_append_iff.mp heq with ⟨t, rfl, hback⟩ | ⟨t, rfl, hback⟩
  · rcases List.append_eq_append_iff.mp hback with ⟨t', rfl, -⟩ | ⟨t', hmark, hrest⟩
    · exact .inl ⟨front, t', List.append_assoc _ _ _⟩
    · cases t' with
      | nil => exact .inl ⟨front, [], by rw [hmark]; simp⟩
      | cons d t' =>
        obtain ⟨rfl, -⟩ := List.cons.inj hrest
        exact absurd (by simp [hmark]) hc
  · cases t with
    | nil =>
      cases mark with
      | nil => exact .inl List.nil_infix
      | cons m ms =>
        obtain ⟨rfl, -⟩ := List.cons.inj hback
        exact absurd List.mem_cons_self hc
    | cons d t =>
      obtain ⟨-, rfl⟩ := List.cons.inj hback
      exact .inr ⟨t, back, List.append_assoc _ _ _⟩

/-! ## Kinds that are looked for in order -/

section Order

variable {α β : Type} {kinds earlier later : List α} {a b : α}

theorem rel_of_pairwise {R : α → α → Prop} (h : kinds.Pairwise R)
    (hkinds : kinds = earlier ++ b :: later) (ha : a ∈ earlier) : R a b :=
  (List.pairwise_append.mp (hkinds ▸ h)).2.2 a ha b List.mem_cons_self

theorem findSome?_congr {f g : α → Option β} (h : ∀ a ∈ kinds, f a = g a) :
    kinds.findSome? f = kinds.findSome? g := by
  induction kinds with
  | nil => rfl
  | cons a kinds ih =>
    rw [List.forall_mem_cons] at h
    rw [List.findSome?_cons, List.findSome?_cons, h.1, ih h.2]

end Order

/-! ## Runs -/

/-- Runs of characters of a class, joined by single separators. -/
inductive Joined (sep : Char) (p : Char → Bool) : List Char → Prop
  | last {c} : p c = true → Joined sep p [c]
  | next {c cs} : p c = true → Joined sep p cs → Joined sep p (c :: cs)
  | join {c cs} : p c = true → Joined sep p cs → Joined sep p (c :: sep :: cs)

variable {sep : Char}

theorem Joined.exists_cons (h : Joined sep p cs) : ∃ c rest, cs = c :: rest ∧ p c = true := by
  cases h with
  | last hc => exact ⟨_, _, rfl, hc⟩
  | next hc _ => exact ⟨_, _, rfl, hc⟩
  | join hc _ => exact ⟨_, _, rfl, hc⟩

def isJoined (sep : Char) (p : Char → Bool) : List Char → Bool
  | [] => false
  | [c] => p c
  | c :: d :: cs => p c && (isJoined sep p (d :: cs) || (d == sep && isJoined sep p cs))

theorem isJoined_iff : isJoined sep p cs = true ↔ Joined sep p cs := by
  constructor
  · intro h
    fun_induction isJoined sep p cs with
    | case1 => contradiction
    | case2 c => exact .last h
    | case3 c d cs ihNext ihJoin =>
      simp only [Bool.and_eq_true, Bool.or_eq_true, beq_iff_eq] at h
      obtain ⟨hc, hnext | ⟨rfl, hjoin⟩⟩ := h
      · exact .next hc (ihNext hnext)
      · exact .join hc (ihJoin hjoin)
  · intro h
    induction h with
    | last hc => exact hc
    | next hc h ih =>
      obtain ⟨d, rest, rfl, -⟩ := h.exists_cons
      rw [isJoined, hc, ih]
      rfl
    | join hc _ ih => simp [isJoined, hc, ih]

instance : Decidable (Joined sep p cs) := decidable_of_iff _ isJoined_iff

theorem Joined.exists_concat (h : Joined sep p cs) : ∃ c rest, cs = rest ++ [c] ∧ p c = true := by
  induction h with
  | last hc => exact ⟨_, [], rfl, hc⟩
  | @next c _ _ _ ih =>
    obtain ⟨d, rest, rfl, hd⟩ := ih
    exact ⟨d, c :: rest, rfl, hd⟩
  | @join c _ _ _ ih =>
    obtain ⟨d, rest, rfl, hd⟩ := ih
    exact ⟨d, c :: sep :: rest, rfl, hd⟩

theorem Joined.mem (h : Joined sep p cs) {c : Char} (hc : c ∈ cs) : p c = true ∨ c = sep := by
  induction h with
  | last hd =>
    cases List.mem_singleton.mp hc
    exact .inl hd
  | next hd _ ih =>
    rcases List.mem_cons.mp hc with rfl | hc
    · exact .inl hd
    · exact ih hc
  | join hd _ ih =>
    rcases List.mem_cons.mp hc with rfl | hc
    · exact .inl hd
    · rcases List.mem_cons.mp hc with rfl | hc
      · exact .inr rfl
      · exact ih hc

/-- A character outside of the class that is no separator does not occur. -/
theorem Joined.not_mem (h : Joined sep p cs) {c : Char} (hp : p c = false) (hc : c ≠ sep) :
    c ∉ cs := by
  intro hmem
  rcases h.mem hmem with hpos | heq
  · exact Bool.false_ne_true (hp.symm.trans hpos)
  · exact hc heq

end Whiteboard.Text

import Whiteboard.Proofs.Diagram.Uml.Label

/-!
# Symbols of any length

The runs in a symbol may have any length (`Uml.Writes`). Of two symbols, a text shows at most one,
if the first strokes in which they differ tell them apart (`Uml.Writes.dropStrokes?_of_clash`); each
symbol differs so from those that are looked for before it, and these do not stand inside it either.
Hence a line that joins two words by a symbol is read by that symbol (`Uml.parse_relationText`).
-/

namespace Whiteboard.Diagram.Uml

variable {c : Char} {s : Stroke} {strokes others more : List Stroke} {e f : RelationForm}
  {earlier later : List RelationForm} {cs u rest left operator right : List Char}

/-! ## Writings of symbols -/

/-- The ways to write strokes. A run has any length. -/
inductive Writes : List Stroke → List Char → Prop where
  | nil : Writes [] []
  | one {c : Char} {more : List Stroke} {cs : List Char} : Writes more cs →
      Writes (.one c :: more) (c :: cs)
  | many {c : Char} {more : List Stroke} {cs : List Char} (n : Nat) : Writes more cs →
      Writes (.many c :: more) (List.replicate (n + 1) c ++ cs)
  | absent {c : Char} {more : List Stroke} {cs : List Char} : Writes more cs →
      Writes (.maybe c :: more) cs
  | present {c : Char} {more : List Stroke} {cs : List Char} : Writes more cs →
      Writes (.maybe c :: more) (c :: cs)

/-- The character of a stroke. -/
def Stroke.char : Stroke → Char
  | one c => c
  | many c => c
  | maybe c => c

/-- Whether no writing begins with a character. -/
def avoids (c : Char) : List Stroke → Bool
  | [] => true
  | .one d :: _ => d != c
  | .many d :: _ => d != c
  | .maybe d :: more => d != c && avoids c more

/-- Whether a run, and a stroke that may be missing, end before the strokes behind them. -/
def separate : List Stroke → Bool
  | [] => true
  | .one _ :: more => separate more
  | .many c :: more => avoids c more && separate more
  | .maybe c :: more => avoids c more && separate more

/-- Whether the first strokes in which two symbols differ tell the first symbol from all writings of
the second. -/
def clash : List Stroke → List Stroke → Bool
  | [], _ => false
  | s :: _, [] => s.required?.isSome
  | s :: more, t :: others =>
    s.required?.any (avoids · (t :: others)) || (s = t && clash more others)

namespace Writes

theorem head?_ne (h : Writes strokes cs) (hc : avoids c strokes = true) :
    ∀ d ∈ cs.head?, d ≠ c := by
  induction h with
  | nil => exact fun d hd => nomatch hd
  | one _ _ | many _ _ _ =>
    rintro d ⟨⟩
    exact ne_of_beq_false (by simpa [avoids] using hc)
  | absent _ ih => exact ih (Bool.and_eq_true_iff.mp hc).2
  | present _ _ =>
    rintro d ⟨⟩
    exact ne_of_beq_false (by simpa [avoids] using (Bool.and_eq_true_iff.mp hc).1)

theorem exists_drop? (h : Writes (s :: more) cs) (hs : separate (s :: more) = true) :
    ∃ rest, s.drop? cs = some rest ∧ Writes more rest := by
  cases h with
  | @one c _ rest hmore => exact ⟨rest, Text.dropWord?_append_self [c] rest, hmore⟩
  | @many c _ rest n hmore =>
    have hend := hmore.head?_ne (Bool.and_eq_true_iff.mp hs).1
    have hspan : Text.span (· == c) (List.replicate (n + 1) c ++ rest)
        = (List.replicate (n + 1) c, rest) :=
      Text.span_append (by simp) fun d hd => by simpa using hend d hd
    refine ⟨rest, ?_, hmore⟩
    rw [Stroke.drop?, hspan]
    rfl
  | absent hmore =>
    have hend := hmore.head?_ne (Bool.and_eq_true_iff.mp hs).1
    refine ⟨cs, ?_, hmore⟩
    rw [Stroke.drop?, Text.dropWord?_eq_none_of_head hend, Option.getD_none]
  | @present c _ rest hmore =>
    refine ⟨rest, ?_, hmore⟩
    have hdrop : Text.dropWord? [c] (c :: rest) = some rest := Text.dropWord?_append_self [c] rest
    rw [Stroke.drop?, hdrop, Option.getD_some]

theorem separate_tail (hs : separate (s :: more) = true) : separate more = true := by
  cases s with
  | one c => exact hs
  | many c => exact (Bool.and_eq_true_iff.mp hs).2
  | maybe c => exact (Bool.and_eq_true_iff.mp hs).2

/-- The first strokes of a writing are read, and a writing of the others is left. -/
theorem exists_dropStrokes? (h : Writes (strokes ++ more) cs)
    (hs : separate (strokes ++ more) = true) :
    ∃ rest, dropStrokes? strokes cs = some rest ∧ Writes more rest := by
  induction strokes generalizing cs with
  | nil => exact ⟨cs, rfl, h⟩
  | cons s strokes ih =>
    obtain ⟨r, hdrop, hwrites⟩ := h.exists_drop? hs
    obtain ⟨rest, hrest, hmore⟩ := ih hwrites (separate_tail hs)
    exact ⟨rest, by rw [dropStrokes?, hdrop, Option.bind_some, hrest], hmore⟩

/-- A writing is read to its end. -/
theorem dropStrokes?_eq (h : Writes strokes cs) (hs : separate strokes = true) :
    dropStrokes? strokes cs = some [] := by
  rw [← List.append_nil strokes] at h hs
  obtain ⟨rest, hdrop, hnil⟩ := h.exists_dropStrokes? hs
  cases hnil
  exact hdrop

/-- No writing begins with a symbol that clashes with it. -/
theorem dropStrokes?_of_clash (h : Writes others cs) (hs : separate others = true)
    (hclash : clash strokes others = true) : dropStrokes? strokes cs = none := by
  induction strokes generalizing others cs with
  | nil => cases others <;> cases hclash
  | cons s strokes ih =>
    have hhead {c : Char} (hrequired : s.required? = some c) (hc : ∀ d ∈ cs.head?, d ≠ c) :
        dropStrokes? (s :: strokes) cs = none := by
      refine Option.eq_none_iff_forall_ne_some.mpr fun rest hrest => ?_
      obtain ⟨r, hdrop, -⟩ := Option.bind_eq_some_iff.mp hrest
      exact hc c (Stroke.head?_of_drop? hdrop hrequired) rfl
    cases others with
    | nil =>
      cases h
      obtain ⟨c, hrequired⟩ := Option.isSome_iff_exists.mp hclash
      exact hhead hrequired fun d hd => nomatch hd
    | cons t others =>
      rw [clash] at hclash
      rcases (Bool.or_eq_true _ _).mp hclash with hapart | hsame
      · cases hrequired : s.required? with
        | none =>
          rw [hrequired] at hapart
          cases hapart
        | some c =>
          rw [hrequired] at hapart
          exact hhead hrequired (h.head?_ne hapart)
      · obtain ⟨heq, hothers⟩ := Bool.and_eq_true_iff.mp hsame
        obtain rfl := of_decide_eq_true heq
        obtain ⟨rest, hdrop, hmore⟩ := h.exists_drop? hs
        rw [dropStrokes?, hdrop, Option.bind_some, ih hmore (separate_tail hs) hothers]

theorem exists_char (h : Writes strokes cs) (hc : c ∈ cs) : ∃ s ∈ strokes, s.char = c := by
  have hback {s : Stroke} {more : List Stroke} (h : ∃ t ∈ more, t.char = c) :
      ∃ t ∈ s :: more, t.char = c :=
    h.imp fun t ht => ⟨List.mem_cons_of_mem s ht.1, ht.2⟩
  induction h with
  | nil => cases hc
  | one _ ih | present _ ih =>
    rcases List.mem_cons.mp hc with rfl | hc
    · exact ⟨_, List.mem_cons_self, rfl⟩
    · exact hback (ih hc)
  | many n _ ih =>
    rcases List.mem_append.mp hc with hc | hc
    · exact ⟨_, List.mem_cons_self, (List.eq_of_mem_replicate hc).symm⟩
    · exact hback (ih hc)
  | absent _ ih => exact hback (ih hc)

/-- What stands behind a character that is a stroke by itself. -/
theorem exists_behind (h : Writes strokes cs) (hcs : cs = u ++ c :: rest)
    (hone : ∀ s ∈ strokes, s.char = c → s = .one c) :
    ∃ more, .one c :: more <:+ strokes ∧ Writes more rest := by
  have hback {s : Stroke} {strokes : List Stroke}
      (h : ∃ more, .one c :: more <:+ strokes ∧ Writes more rest) :
      ∃ more, .one c :: more <:+ s :: strokes ∧ Writes more rest :=
    h.imp fun more hmore => ⟨hmore.1.trans (List.suffix_cons s strokes), hmore.2⟩
  induction h generalizing u with
  | nil => simp at hcs
  | @one d more cs h ih =>
    rw [List.forall_mem_cons] at hone
    cases u with
    | nil =>
      obtain ⟨rfl, rfl⟩ := List.cons.inj hcs
      exact ⟨more, List.suffix_rfl, h⟩
    | cons x u => exact hback (ih (List.cons.inj hcs).2 hone.2)
  | @many d more cs n h ih =>
    rw [List.forall_mem_cons] at hone
    have hrun : c ∉ List.replicate (n + 1) d := fun hmem =>
      Stroke.noConfusion (hone.1 (List.eq_of_mem_replicate hmem).symm)
    obtain ⟨t, -, ht⟩ := Text.eq_append_of_dropWord? hrun (hcs ▸ Text.dropWord?_append_self _ cs)
    exact hback (ih ht hone.2)
  | absent h ih =>
    rw [List.forall_mem_cons] at hone
    exact hback (ih hcs hone.2)
  | @present d more cs h ih =>
    rw [List.forall_mem_cons] at hone
    cases u with
    | nil => exact Stroke.noConfusion (hone.1 (List.cons.inj hcs).1)
    | cons x u => exact hback (ih (List.cons.inj hcs).2 hone.2)

end Writes

/-! ## The table -/

theorem separate_of_isSuffix (hf : f ∈ relationForms) (h : more <:+ f.strokes) :
    separate more = true := by
  have hall : ∀ f ∈ relationForms, ∀ t ∈ f.strokes.tails, separate t = true := by decide
  exact hall f hf more ((List.mem_tails more f.strokes).mpr h)

theorem char_of_mem : ∀ f ∈ relationForms, ∀ s ∈ f.strokes,
    Text.isBlank s.char = false ∧ s.char ≠ '\n' ∧ s.char ≠ '(' ∧
      (Text.isWord s.char = true → s = .one s.char) := by decide

/-- No symbol stands where a later one does. -/
theorem clash_earlier : relationForms.Pairwise fun e f => clash e.strokes f.strokes = true := by
  decide

/-- Nor does it stand behind a letter of a later symbol. -/
theorem clash_behind : relationForms.Pairwise fun e f => ∀ t ∈ f.strokes.tails, ∀ s ∈ t.head?,
    Text.isWord s.char = true → t.tail = [] ∨ clash e.strokes t.tail = true := by decide

theorem Writes.head (h : Writes f.strokes operator) (hf : f ∈ relationForms) :
    ∃ c ∈ operator.head?, Text.isBlank c = false := by
  obtain ⟨c, -, hrequired⟩ : ∃ c ∈ ['<', '-', '*', 'o', '.'],
      f.strokes.head?.bind Stroke.required? = some c := by
    simpa using required?_head f hf
  obtain ⟨s, hs, hrequired⟩ := Option.bind_eq_some_iff.mp hrequired
  obtain ⟨more, hstrokes⟩ := List.head?_eq_some_iff.mp hs
  have hseparate := separate_of_isSuffix hf List.suffix_rfl
  rw [hstrokes] at h hseparate
  obtain ⟨rest, hdrop, -⟩ := h.exists_drop? hseparate
  have hhead := Stroke.head?_of_drop? hdrop hrequired
  obtain ⟨t, ht, rfl⟩ := h.exists_char (List.mem_of_mem_head? hhead)
  exact ⟨t.char, hhead, (char_of_mem f hf t (hstrokes ▸ ht)).1⟩

/-! ## Lines that join two words -/

/-- A line that joins two words by a symbol. -/
def relationText (left operator right : List Char) : List Char :=
  left ++ ' ' :: (operator ++ ' ' :: right)

theorem dropStrokes?_trimLeft_word (hf : f ∈ relationForms)
    (hcs : ∀ c ∈ cs, Text.isWord c = true) : dropStrokes? f.strokes (Text.trimLeft cs) = none :=
  dropStrokes?_plain hf (plain_of_isWord fun c hc => hcs c ((List.dropWhile_suffix _).subset hc))

/-- What is left of a symbol, and a word behind it, do not begin with a symbol that clashes. -/
theorem dropStrokes?_trimLeft_writes (he : e ∈ relationForms) (hf : f ∈ relationForms)
    (hmore : more <:+ f.strokes) (hcs : Writes more cs) (hright : IsWord right)
    (hclash : more = [] ∨ clash e.strokes more = true) :
    dropStrokes? e.strokes (Text.trimLeft (cs ++ ' ' :: right)) = none := by
  cases cs with
  | nil =>
    change dropStrokes? e.strokes (Text.trimLeft (' ' :: right)) = none
    rw [Text.trimLeft_space]
    exact dropStrokes?_trimLeft_word he hright.2
  | cons d cs =>
    obtain ⟨s, hs, rfl⟩ := hcs.exists_char List.mem_cons_self
    have hclash := hclash.resolve_left (List.ne_nil_of_mem hs)
    have hblank := (char_of_mem f hf s (hmore.subset hs)).1
    rw [Text.trimLeft_append_of_head ⟨s.char, rfl, hblank⟩,
      dropStrokes?_append (not_blank_of_mem e he),
      hcs.dropStrokes?_of_clash (separate_of_isSuffix hf hmore) hclash, Option.map_none]

/-- Symbols that are looked for earlier are not found. -/
theorem find?_relationText (hforms : relationForms = earlier ++ f :: later) (he : e ∈ earlier)
    (hoperator : Writes f.strokes operator) (hleft : IsWord left) (hright : IsWord right) :
    e.find? (relationText left operator right) = none := by
  have hmem : e ∈ relationForms := hforms ▸ List.mem_append_left _ he
  have hf : f ∈ relationForms := hforms ▸ List.mem_append_right _ List.mem_cons_self
  have hclash := Text.rel_of_pairwise clash_earlier hforms he
  have hbetween :=
    dropStrokes?_trimLeft_writes hmem hf List.suffix_rfl hoperator hright (.inr hclash)
  rw [relationText, RelationForm.find?_word hmem hleft.2 hbetween]
  refine RelationForm.find?_eq_none fun u c rest hcs hc left => RelationForm.behind?_of_none ?_
  have hspace : c ≠ ' ' := by
    rintro rfl
    exact absurd hc (by decide)
  rcases List.append_eq_append_iff.mp hcs with ⟨t, -, ht⟩ | ⟨t, hu, ht⟩
  · -- the character is one of the right word
    cases t with
    | nil => exact absurd (List.cons.inj ht).1.symm hspace
    | cons x t =>
      refine dropStrokes?_trimLeft_word hmem fun d hd => hright.2 d ?_
      rw [(List.cons.inj ht).2]
      exact List.mem_append_right t (List.mem_cons_of_mem c hd)
  · -- the character is one of the symbol
    cases t with
    | nil => exact absurd (List.cons.inj ht).1 hspace
    | cons x t =>
      obtain ⟨rfl, rfl⟩ := List.cons.inj ht
      have hone : ∀ s ∈ f.strokes, s.char = c → s = .one c := by
        rintro s hs rfl
        exact (char_of_mem f hf s hs).2.2.2 hc
      obtain ⟨more, hmore, hwrites⟩ := hoperator.exists_behind hu hone
      have hbehind := Text.rel_of_pairwise clash_behind hforms he _
        ((List.mem_tails _ _).mpr hmore) (.one c) rfl hc
      have hsuffix := (List.suffix_cons (.one c) more).trans hmore
      exact dropStrokes?_trimLeft_writes hmem hf hsuffix hwrites hright hbehind

/-- The symbol between two words is the one that is found. -/
theorem relation?_relationText (hf : f ∈ relationForms) (hoperator : Writes f.strokes operator)
    (hleft : IsWord left) (hright : IsWord right) :
    relation? (relationText left operator right) = some (f.edge left right []) := by
  obtain ⟨earlier, later, hforms⟩ := List.append_of_mem hf
  have hearlier : earlier.findSome? (·.find? (relationText left operator right)) = none :=
    List.findSome?_eq_none_iff.mpr fun e he => find?_relationText hforms he hoperator hleft hright
  have hdrop := hoperator.dropStrokes?_eq (separate_of_isSuffix hf List.suffix_rfl)
  have hend : ∀ c ∈ ([] : List Char).head?, Text.isWord c = false := fun c hc => nomatch hc
  have hfound := RelationForm.find?_between hf (hoperator.head hf) hdrop hleft hright hend
  have hlabel : (if f.labelled then (labelBehind? []).getD [] else []) = [] := by
    cases f.labelled <;> rfl
  rw [List.append_nil, hlabel] at hfound
  rw [relation?, hforms, List.findSome?_append, hearlier, List.findSome?_cons, relationText, hfound]
  rfl

theorem Writes.ne_feed_paren (h : Writes f.strokes operator) (hf : f ∈ relationForms) :
    ∀ c ∈ operator, c ≠ '\n' ∧ c ≠ '(' := by
  intro c hc
  obtain ⟨s, hs, rfl⟩ := h.exists_char hc
  exact ⟨(char_of_mem f hf s hs).2.1, (char_of_mem f hf s hs).2.2.1⟩

theorem Writes.head_ne_paren (h : Writes f.strokes operator) (hf : f ∈ relationForms)
    (rest : List Char) :
    ∀ c ∈ (Text.trimLeft (operator ++ ' ' :: rest)).head?, c ≠ '(' := by
  obtain ⟨c, hc, hblank⟩ := h.head hf
  rw [Text.trimLeft_append_of_head ⟨c, hc, hblank⟩, List.head?_append, hc]
  rintro d ⟨⟩
  exact (h.ne_feed_paren hf c (List.mem_of_mem_head? hc)).2

theorem joins_relationText (hf : f ∈ relationForms) (hoperator : Writes f.strokes operator)
    (hleft : IsWord left) (hkey : left ∉ ["class".toList, "participant".toList, "actor".toList])
    (hright : IsWord right) : Joins (relationText left operator right) (f.edge left right []) :=
  joins_of_word hleft hkey (hoperator.head_ne_paren hf right)
    (relation?_relationText hf hoperator hleft hright)

theorem trim_relationText (hleft : IsWord left) (hright : IsWord right) (operator : List Char) :
    Text.trim (relationText left operator right) = relationText left operator right := by
  obtain ⟨c, hc, hblank⟩ := hleft.head
  obtain ⟨cs, rfl⟩ := List.head?_eq_some_iff.mp hc
  obtain ⟨ds, d, rfl⟩ := (List.eq_nil_or_concat right).resolve_left hright.1
  have hline : Text.Trimmed (relationText (c :: cs) operator (ds.concat d)) :=
    Text.trimmed_append ⟨c, cs, rfl, hblank⟩ ⟨d, ' ' :: (operator ++ ' ' :: ds), by simp,
      Text.isBlank_of_isWord (hright.2 d (by simp))⟩
  exact hline.trim_eq

/-! ## The operators -/

/-- The operators with runs of `n + 1` dashes or dots, each with whether it points to the left,
which swaps the ends, and with the kind of its edge. -/
def operators (n : Nat) : List (List Char × Bool × EdgeKind) :=
  let dashes := List.replicate (n + 1) '-'
  let dots := List.replicate (n + 1) '.'
  [('<' :: '|' :: dashes, true, .thick), (dashes ++ ['|', '>'], false, .thick),
    ('*' :: dashes, true, .arrow), (dashes ++ ['*'], false, .arrow),
    ('o' :: dashes, true, .arrow), (dashes ++ ['o'], false, .arrow),
    (dashes ++ ['>'], false, .arrow), ('<' :: dashes, true, .arrow),
    (dots ++ ['>'], false, .dotted), (dots ++ ['|', '>'], false, .dotted),
    (dashes, false, .arrow)]

theorem exists_form {n : Nat} {swapped : Bool} {kind : EdgeKind}
    (h : (operator, swapped, kind) ∈ operators n) : ∃ f ∈ relationForms,
      Writes f.strokes operator ∧ f.reversed = swapped ∧ f.kind.edgeKind = kind := by
  have hrun {c : Char} : Writes [.many c] (List.replicate (n + 1) c) := by
    simpa using Writes.many n .nil
  have hform (i : Fin 10) {operator : List Char}
      (h : Writes (relationForms.get i).strokes operator) :
      ∃ f ∈ relationForms, Writes f.strokes operator ∧
        f.reversed = (relationForms.get i).reversed ∧
        f.kind.edgeKind = (relationForms.get i).kind.edgeKind :=
    ⟨_, List.get_mem relationForms i, h, rfl, rfl⟩
  simp only [operators, List.mem_cons, Prod.mk.injEq, List.not_mem_nil, or_false] at h
  rcases h with ⟨rfl, rfl, rfl⟩ | ⟨rfl, rfl, rfl⟩ | ⟨rfl, rfl, rfl⟩ | ⟨rfl, rfl, rfl⟩ |
    ⟨rfl, rfl, rfl⟩ | ⟨rfl, rfl, rfl⟩ | ⟨rfl, rfl, rfl⟩ | ⟨rfl, rfl, rfl⟩ | ⟨rfl, rfl, rfl⟩ |
    ⟨rfl, rfl, rfl⟩ | ⟨rfl, rfl, rfl⟩
  · exact hform 0 (.one (.one hrun))
  · exact hform 1 (.many n (.one (.one .nil)))
  · exact hform 2 (.one hrun)
  · exact hform 3 (.many n (.one .nil))
  · exact hform 4 (.one hrun)
  · exact hform 5 (.many n (.one .nil))
  · exact hform 6 (.many n (.one .nil))
  · exact hform 7 (.one hrun)
  · exact hform 8 (.many n (.absent (.one .nil)))
  · exact hform 8 (.many n (.present (.one .nil)))
  · exact hform 9 hrun

/-- A source that joins two words by an operator makes one edge between them, and no other nodes. -/
theorem parse_relationText {n : Nat} {swapped : Bool} {kind : EdgeKind}
    (hoperator : (operator, swapped, kind) ∈ operators n) (hleft : IsWord left)
    (hkey : left ∉ ["class".toList, "participant".toList, "actor".toList])
    (hright : IsWord right) : ∃ g source target,
      parse (some (String.ofList (relationText left operator right))) = .ok g ∧
      (source, target) = (if swapped then (String.ofList right, String.ofList left)
        else (String.ofList left, String.ofList right)) ∧
      g.edges = [⟨source, target, "", kind⟩] ∧
      g.nodes = if source = target then [.bare source] else [.bare source, .bare target] := by
  obtain ⟨f, hf, hwrites, rfl, rfl⟩ := exists_form hoperator
  have hfeed : '\n' ∉ relationText left operator right := by
    have hword : ∀ {w}, IsWord w → '\n' ∉ w := fun hw hmem => absurd (hw.2 _ hmem) (by decide)
    have hno : '\n' ∉ operator := fun hmem => (hwrites.ne_feed_paren hf _ hmem).1 rfl
    simp [relationText, hword hleft, hno, hword hright]
  have hparse := parse_of_relation hleft hkey (hwrites.head_ne_paren hf right)
    (relation?_relationText hf hwrites hleft hright) hfeed (trim_relationText hleft hright operator)
  rw [Graph.ofEdge_nil] at hparse
  refine ⟨_, _, _, hparse, ?_, rfl, rfl⟩
  cases f.reversed <;> rfl

/-- The letter of the symbol stands between others. -/
theorem parse_relationText_letters : ∃ g, parse (some "foo o-- oboe") = .ok g ∧
    g.edges = [{ source := "oboe", target := "foo" }] ∧
    g.nodes = [.bare "oboe", .bare "foo"] := by
  have hoperator : (['o', '-', '-'], true, EdgeKind.arrow) ∈ operators 1 := by decide
  have hleft : IsWord "foo".toList := by decide
  have hright : IsWord "oboe".toList := by decide
  obtain ⟨g, source, target, hparse, hends, hedges, hnodes⟩ :=
    parse_relationText hoperator hleft (by decide) hright
  obtain ⟨rfl, rfl⟩ : source = "oboe" ∧ target = "foo" := Prod.mk.inj hends
  exact ⟨g, hparse, hedges, hnodes⟩

end Whiteboard.Diagram.Uml

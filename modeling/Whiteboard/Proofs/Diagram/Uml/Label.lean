import Whiteboard.Proofs.Diagram.Uml.Relation
import Whiteboard.Proofs.Diagram.WellFormed

/-!
# Labels of relations and messages

A line that joins two words and carries a label is read by the first symbol that stands anywhere in
it. The symbols that are looked for before the one between the words are found in the label only, so
the label is inert exactly as far as it holds none of them (`Uml.inert_of_not_found`).
-/

namespace Whiteboard.Diagram.Uml

variable {cs w left operator right label rest word : List Char} {e f : RelationForm}
  {earlier later : List RelationForm}

/-- A line that joins two words and carries a label. -/
def labelledText (left operator right label : List Char) : List Char :=
  left ++ ' ' :: (operator ++ ' ' :: (right ++ ' ' :: ':' :: ' ' :: label))

/-- Operators of relations and messages, each with the form that it is. -/
def labelledOperators : List (List Char × RelationForm) :=
  [(['-', '-', '>'], ⟨[.many '-', .one '>'], .association, false, true⟩),
    (['-', '>'], ⟨[.many '-', .one '>'], .association, false, true⟩),
    (['<', '-', '-'], ⟨[.one '<', .many '-'], .association, true, true⟩),
    (['.', '.', '>'], ⟨[.many '.', .maybe '|', .one '>'], .dependency, false, true⟩)]

/-! ## Which symbol is found -/

theorem labelled_of_mem : ∀ o ∈ labelledOperators, o.2.labelled = true := by decide

theorem dropStrokes?_operator : ∀ o ∈ labelledOperators,
    dropStrokes? o.2.strokes o.1 = some [] := by decide

theorem operator_head : ∀ o ∈ labelledOperators,
    ∃ c ∈ o.1.head?, Text.isBlank c = false := by decide

theorem not_isWord_operator : ∀ o ∈ labelledOperators, ∀ c ∈ o.1, Text.isWord c = false := by decide

theorem dropStrokes?_earlier : relationForms.Pairwise fun e f => ∀ o ∈ labelledOperators,
    o.2.strokes = f.strokes → dropStrokes? e.strokes o.1 = none := by decide

theorem required?_earlier : relationForms.Pairwise fun e f => ∀ o ∈ labelledOperators,
    o.2.strokes = f.strokes → ∃ s ∈ e.strokes, s.required? = some '-' := by decide

/-- Symbols that are looked for earlier are found in the label or nowhere. -/
theorem find?_labelledText (hop : (operator, f) ∈ labelledOperators)
    (hforms : relationForms = earlier ++ f :: later) (he : e ∈ earlier) (hleft : IsWord left)
    (hright : IsWord right) (label : List Char) :
    e.find? (labelledText left operator right label) = e.find? label := by
  have hmem : e ∈ relationForms := hforms ▸ List.mem_append_left _ he
  have hbetween : ∀ rest,
      dropStrokes? e.strokes (Text.trimLeft (operator ++ ' ' :: rest)) = none := by
    intro rest
    have hnone := Text.rel_of_pairwise dropStrokes?_earlier hforms he _ hop rfl
    rw [Text.trimLeft_append_of_head (operator_head _ hop),
      dropStrokes?_append (not_blank_of_mem e hmem), hnone, Option.map_none]
  have hcolon : ∀ rest, dropStrokes? e.strokes (Text.trimLeft (':' :: rest)) = none := by
    intro rest
    rw [Text.trimLeft_cons (by decide)]
    exact dropStrokes?_of_head hmem (by simp)
  rw [labelledText, RelationForm.find?_word hmem hleft.2 (hbetween _),
    RelationForm.find?_append_of_not_isWord (not_isWord_operator _ hop),
    RelationForm.find?_cons_of_not_isWord (by decide),
    RelationForm.find?_word hmem hright.2 (hcolon _),
    RelationForm.find?_cons_of_not_isWord (by decide),
    RelationForm.find?_cons_of_not_isWord (by decide)]

theorem relation?_labelledText (hop : (operator, f) ∈ labelledOperators)
    (hforms : relationForms = earlier ++ f :: later) (hleft : IsWord left) (hright : IsWord right)
    (hlabel : Text.trim label ≠ []) :
    relation? (labelledText left operator right label)
      = some ((earlier.findSome? (·.find? label)).getD (f.edge left right label)) := by
  have hmem : f ∈ relationForms := hforms ▸ List.mem_append_right _ List.mem_cons_self
  have hmain : f.find? (labelledText left operator right label) = some (f.edge left right label) :=
    RelationForm.find?_labelled hmem (labelled_of_mem _ hop) (operator_head _ hop)
      (dropStrokes?_operator _ hop) hleft hright hlabel
  have hearlier : earlier.findSome? (·.find? (labelledText left operator right label))
      = earlier.findSome? (·.find? label) :=
    Text.findSome?_congr fun e he => find?_labelledText hop hforms he hleft hright label
  rw [relation?, hforms, List.findSome?_append, List.findSome?_cons, hmain, hearlier]
  cases earlier.findSome? (·.find? label) <;> rfl

/-! ## Lines that begin with no keyword -/

/-- The word at the front of a text. -/
def firstWord (cs : List Char) : List Char := cs.takeWhile Text.isWord

theorem firstWord_append (hw : ∀ c ∈ w, Text.isWord c = true)
    (hrest : ∀ c ∈ rest.head?, Text.isWord c = false) : firstWord (w ++ rest) = w :=
  congrArg Prod.fst (Text.span_append hw hrest)

theorem IsWord.firstWord_eq (h : IsWord w) : firstWord w = w := List.takeWhile_eq_self_iff.mpr h.2

/-- Behind a keyword at the front of a text that does not begin with this word, a word goes on. -/
theorem exists_of_dropWord? (hkey : ∀ c ∈ word, Text.isWord c = true) (hne : firstWord cs ≠ word)
    {after : List Char} (h : Text.dropWord? word (cs ++ ' ' :: rest) = some after) :
    ∃ c t, Text.isWord c = true ∧ after = c :: t := by
  have hspace : ' ' ∉ word := fun hmem => absurd (hkey ' ' hmem) (by decide)
  obtain ⟨t, rfl, rfl⟩ := Text.eq_append_of_dropWord? hspace h
  cases t with
  | nil =>
    rw [List.append_nil, firstWord] at hne
    exact absurd (List.takeWhile_eq_self_iff.mpr hkey) hne
  | cons c t =>
    refine ⟨c, t ++ ' ' :: rest, ?_, rfl⟩
    by_contra hc
    exact hne (firstWord_append hkey (by simpa using hc))

theorem dropBlanks?_of_isWord {c : Char} (hc : Text.isWord c = true) :
    Text.dropBlanks? (c :: rest) = none := by
  simp [Text.dropBlanks?, Text.spanBlank, Text.span, Text.isBlank_of_isWord hc]

theorem classHead?_of_firstWord (h : firstWord cs ≠ "class".toList) (rest : List Char) :
    classHead? (cs ++ ' ' :: rest) = none := by
  unfold classHead?
  cases hdrop : Text.dropWord? "class".toList (cs ++ ' ' :: rest) with
  | none => rfl
  | some after =>
    obtain ⟨c, t, hc, rfl⟩ := exists_of_dropWord? (by decide) h hdrop
    rw [Option.bind_some, dropBlanks?_of_isWord hc]

theorem participant?_of_firstWord (h : firstWord cs ≠ "participant".toList)
    (h' : firstWord cs ≠ "actor".toList) (rest : List Char) :
    participant? (cs ++ ' ' :: rest) = none := by
  unfold participant?
  cases hdrop : Text.dropWord? "participant".toList (cs ++ ' ' :: rest) with
  | some after =>
    obtain ⟨c, t, hc, rfl⟩ := exists_of_dropWord? (by decide) h hdrop
    simp only [dropBlanks?_of_isWord hc, Option.bind_none]
  | none =>
    cases hdrop' : Text.dropWord? "actor".toList (cs ++ ' ' :: rest) with
    | some after =>
      obtain ⟨c, t, hc, rfl⟩ := exists_of_dropWord? (by decide) h' hdrop'
      simp only [Option.map_some, dropBlanks?_of_isWord hc, Option.bind_none]
    | none => rfl

/-- A condition begins with a bracket behind the keyword. -/
theorem condition?_of_firstWord
    (h : firstWord cs ≠ "if".toList ∨
      IsWord cs ∧ ∀ c ∈ (Text.trimLeft rest).head?, c ≠ '(') :
    condition? (cs ++ ' ' :: rest) = none := by
  unfold condition?
  cases hdrop : Text.dropWord? "if".toList (cs ++ ' ' :: rest) with
  | none => rfl
  | some after =>
    have hparen : ∀ c ∈ (Text.trimLeft after).head?, c ≠ '(' := by
      by_cases hword : firstWord cs = "if".toList
      · obtain ⟨hcs, hrest⟩ := h.resolve_left (not_not_intro hword)
        rw [hcs.firstWord_eq] at hword
        rw [hword, Text.dropWord?_append_self, Option.some.injEq] at hdrop
        rwa [← hdrop, Text.trimLeft_space]
      · obtain ⟨c, t, hc, rfl⟩ := exists_of_dropWord? (by decide) hword hdrop
        rw [Text.trimLeft_cons (Text.isBlank_of_isWord hc)]
        rintro d ⟨⟩ rfl
        exact absurd hc (by decide)
    rw [Option.map_some]
    split
    · next heq =>
      rw [Option.some.injEq] at heq
      exact absurd rfl (hparen '(' (by rw [heq]; rfl))
    · rfl

theorem step?_of_firstWord (hhead : ∃ c ∈ cs.head?, c ≠ ':')
    (h : firstWord cs ≠ "if".toList ∨
      IsWord cs ∧ ∀ c ∈ (Text.trimLeft rest).head?, c ≠ '(') (count : Nat) :
    step? count (cs ++ ' ' :: rest) = none := by
  have hmem : ' ' ∈ cs ++ ' ' :: rest := by simp
  have hne : ∀ word : List Char, ' ' ∉ word → cs ++ ' ' :: rest ≠ word := fun word hspace heq =>
    hspace (heq ▸ hmem)
  have hstep : stepText? (cs ++ ' ' :: rest) = none := by
    obtain ⟨c, hc, hcolon⟩ := hhead
    obtain ⟨cs, rfl⟩ := List.head?_eq_some_iff.mp hc
    unfold stepText?
    split
    · next heq =>
      rw [List.cons_append] at heq
      exact absurd (List.cons.inj heq).1 hcolon
    · rfl
  unfold step?
  rw [if_neg (by simp only [not_or]; exact ⟨hne _ (by decide), hne _ (by decide)⟩),
    if_neg (by simp only [not_or]; exact ⟨hne _ (by decide), hne _ (by decide)⟩), hstep,
    condition?_of_firstWord h]
  rfl

/-- A line that is read as an edge, whatever was read before it. -/
structure Joins (line : List Char) (edge : Edge) : Prop where
  classHead : classHead? line = none
  participant : participant? line = none
  step : ∀ count, step? count line = none
  edge : (relation? line).or (message? line) = some edge

theorem Joins.readStatement {line : List Char} {edge : Edge} (h : Joins line edge) (p : Progress) :
    readStatement p line = p.addEdge edge := by
  simp only [Uml.readStatement, h.classHead, h.participant, h.step, h.edge]

theorem joins_of_firstWord {edge : Edge} (hhead : ∃ c ∈ cs.head?, c ≠ ':')
    (hkey : firstWord cs ∉ ["class".toList, "participant".toList, "actor".toList])
    (hif : firstWord cs ≠ "if".toList ∨
      IsWord cs ∧ ∀ c ∈ (Text.trimLeft rest).head?, c ≠ '(')
    (hedge : (relation? (cs ++ ' ' :: rest)).or (message? (cs ++ ' ' :: rest)) = some edge) :
    Joins (cs ++ ' ' :: rest) edge := by
  simp only [List.mem_cons, List.not_mem_nil, or_false, not_or] at hkey
  obtain ⟨hclass, hparticipant, hactor⟩ := hkey
  exact ⟨classHead?_of_firstWord hclass rest, participant?_of_firstWord hparticipant hactor rest,
    step?_of_firstWord hhead hif, hedge⟩

theorem joins_of_word {edge : Edge} (hw : IsWord w)
    (hkey : w ∉ ["class".toList, "participant".toList, "actor".toList])
    (hparen : ∀ c ∈ (Text.trimLeft rest).head?, c ≠ '(')
    (hrelation : relation? (w ++ ' ' :: rest) = some edge) : Joins (w ++ ' ' :: rest) edge := by
  have hhead : ∃ c ∈ w.head?, c ≠ ':' := by
    obtain ⟨c, cs, rfl⟩ := List.exists_cons_of_ne_nil hw.1
    refine ⟨c, rfl, ?_⟩
    rintro rfl
    exact absurd (hw.2 ':' List.mem_cons_self) (by decide)
  refine joins_of_firstWord hhead ?_ (.inr ⟨hw, hparen⟩) ?_
  · rwa [hw.firstWord_eq]
  · rw [hrelation, Option.some_or]

theorem isStatement_word (hw : IsWord w) (rest : List Char) : isStatement (w ++ rest) = true := by
  obtain ⟨hnil, hword⟩ := hw
  obtain ⟨c, cs, rfl⟩ := List.exists_cons_of_ne_nil hnil
  have hall : ∀ d ∈ ['\'', '/', '@'], d ≠ c := by
    have hno : ∀ d ∈ ['\'', '/', '@'], Text.isWord d = false := by decide
    rintro d hd rfl
    have hd' := hword d List.mem_cons_self
    rw [hno d hd] at hd'
    contradiction
  simp only [List.forall_mem_cons] at hall
  obtain ⟨hquote, hslash, hat, -⟩ := hall
  simp [isStatement, List.isPrefixOf_cons_cons, hquote, hslash, hat]

/-! ## Sources of one line -/

/-- A source with a relation on its only line makes one edge. -/
theorem parse_of_relation {edge : Edge} (hw : IsWord w)
    (hkey : w ∉ ["class".toList, "participant".toList, "actor".toList])
    (hparen : ∀ c ∈ (Text.trimLeft rest).head?, c ≠ '(')
    (hrelation : relation? (w ++ ' ' :: rest) = some edge) (hfeed : '\n' ∉ w ++ ' ' :: rest)
    (htrim : Text.trim cs = w ++ ' ' :: rest) :
    parse (some (String.ofList cs)) = .ok (.ofEdge [] edge) := by
  have his : isStatement (w ++ ' ' :: rest) = true := isStatement_word hw _
  have hline : Text.Trimmed (w ++ ' ' :: rest) := htrim ▸ Text.trimmed_trim cs
  have hread : readLines [w ++ ' ' :: rest] = .ofEdge [] edge := by
    rw [readLines, List.map_singleton, hline.trim_eq, List.filter_singleton, his]
    change (readStatement {} (w ++ ' ' :: rest)).closeClass.graph = _
    rw [(joins_of_word hw hkey hparen hrelation).readStatement]
    rfl
  have hsource : sourceLines (some (String.ofList cs)) = .ok [w ++ ' ' :: rest] := by
    rw [sourceLines_eq, Option.getD_some, String.toList_ofList, htrim, if_neg (by simp),
      Text.lines_of_not_mem hfeed]
  rw [parse, hsource]
  change finish .uml (readLines [w ++ ' ' :: rest]) = _
  rw [finish_of_wellFormed (wellFormed_readLines _), hread,
    if_neg (Graph.nodes_ofEdge_ne_nil _ _)]

theorem not_mem_labelledText (hop : (operator, f) ∈ labelledOperators) (hleft : IsWord left)
    (hright : IsWord right) (hline : '\n' ∉ label) :
    '\n' ∉ labelledText left operator right label := by
  have hall : ∀ o ∈ labelledOperators, '\n' ∉ o.1 := by decide
  have hword : ∀ {w}, IsWord w → '\n' ∉ w := fun hw hmem => absurd (hw.2 _ hmem) (by decide)
  simp [labelledText, hword hleft, hall _ hop, hword hright, hline]

/-- The blanks at the end of a label are cut off with the line, those before it are not. -/
theorem trim_labelledText (hleft : IsWord left) (hlabel : Text.trim label ≠ [])
    (operator right : List Char) :
    ∃ u, (∀ c ∈ u, Text.isBlank c = true) ∧ u ++ Text.trim label <+: label ∧
      Text.trim (labelledText left operator right label)
        = labelledText left operator right (u ++ Text.trim label) := by
  obtain ⟨u, v, hu, hv, hpad, htrimmed⟩ := Text.exists_pad label
  generalize Text.trim label = core at hlabel hpad htrimmed ⊢
  have hline : Text.Trimmed (labelledText left operator right (u ++ core)) := by
    obtain ⟨c, hc, hblank⟩ := hleft.head
    obtain ⟨cs, rfl⟩ := List.head?_eq_some_iff.mp hc
    obtain ⟨ds, d, rfl⟩ := (List.eq_nil_or_concat core).resolve_left hlabel
    refine Text.trimmed_append ⟨c, cs, rfl, hblank⟩ ⟨d, ' ' :: (operator ++ ' ' ::
      (right ++ ' ' :: ':' :: ' ' :: (u ++ ds))), by simp, htrimmed.last d (by simp)⟩
  refine ⟨u, hu, ⟨v, hpad.symm⟩, ?_⟩
  have happend : labelledText left operator right label
      = [] ++ labelledText left operator right (u ++ core) ++ v := by simp [labelledText, hpad]
  rw [happend, hline.trim_pad (List.forall_mem_nil _) hv]

/-- A labelled line between two words makes one edge: that of the first symbol that is found in the
label and looked for before the operator, else that between the two words. -/
theorem parse_labelledText (hop : (operator, f) ∈ labelledOperators)
    (hforms : relationForms = earlier ++ f :: later) (hleft : IsWord left)
    (hkey : left ∉ ["class".toList, "participant".toList, "actor".toList]) (hright : IsWord right)
    (hlabel : Text.trim label ≠ []) (hfeed : '\n' ∉ label) :
    parse (some (String.ofList (labelledText left operator right label)))
      = .ok (.ofEdge [] ((earlier.findSome? (·.find? (Text.trim label))).getD
          (f.edge left right label))) := by
  obtain ⟨u, hu, hbegin, htrim⟩ := trim_labelledText hleft hlabel operator right
  have hcore : Text.trim (u ++ Text.trim label) = Text.trim label := by
    simpa using (Text.trimmed_trim label).trim_pad hu (List.forall_mem_nil _)
  have hfound : earlier.findSome? (·.find? (u ++ Text.trim label))
      = earlier.findSome? (·.find? (Text.trim label)) :=
    Text.findSome?_congr fun e _ => RelationForm.find?_append_of_not_isWord
      fun c hc => Text.isWord_of_isBlank (hu c hc)
  have hedge : f.edge left right (u ++ Text.trim label) = f.edge left right label := by
    rw [RelationForm.edge, RelationForm.edge, hcore]
  have hparen : ∀ c ∈ (Text.trimLeft (operator ++ ' ' :: (right ++ ' ' :: ':' :: ' ' ::
      (u ++ Text.trim label)))).head?, c ≠ '(' := by
    have hall : ∀ o ∈ labelledOperators, '(' ∉ o.1 := by decide
    obtain ⟨c, hc, hblank⟩ := operator_head _ hop
    rw [Text.trimLeft_append_of_head ⟨c, hc, hblank⟩, List.head?_append, hc]
    rintro d hd rfl
    cases hd
    exact hall _ hop (List.mem_of_mem_head? hc)
  have hrelation := relation?_labelledText hop hforms hleft hright (hcore.symm ▸ hlabel)
  rw [hfound, hedge] at hrelation
  have hlines := not_mem_labelledText hop hleft hright fun hmem => hfeed (hbegin.subset hmem)
  exact parse_of_relation hleft hkey hparen hrelation hlines htrim

/-- A label is inert as far as no symbol that is looked for before the operator is found in it. All
of these have hyphens. -/
theorem inert_of_not_found (hop : (operator, f) ∈ labelledOperators)
    (hforms : relationForms = earlier ++ f :: later) (hleft : IsWord left)
    (hkey : left ∉ ["class".toList, "participant".toList, "actor".toList]) (hright : IsWord right)
    (hlabel : Text.trim label ≠ []) (hfeed : '\n' ∉ label) :
    (parse (some (String.ofList (labelledText left operator right label)))
      = .ok (.ofEdge [] ((earlier.findSome? (·.find? (Text.trim label))).getD
          (f.edge left right label)))) ∧
    ((∀ e ∈ earlier, e.find? (Text.trim label) = none) →
      parse (some (String.ofList (labelledText left operator right label)))
        = .ok (.ofEdge [] (f.edge left right label))) ∧
    ('-' ∉ label → ∀ e ∈ earlier, e.find? (Text.trim label) = none) := by
  have hparse := parse_labelledText hop hforms hleft hkey hright hlabel hfeed
  refine ⟨hparse, fun hnone => ?_, fun hhyphen e he => ?_⟩
  · rw [hparse, List.findSome?_eq_none_iff.mpr hnone, Option.getD_none]
  · obtain ⟨s, hs, hrequired⟩ := Text.rel_of_pairwise required?_earlier hforms he _ hop rfl
    refine RelationForm.find?_of_not_mem hs hrequired fun hmem => hhyphen ?_
    obtain ⟨u, v, -, -, hpad, -⟩ := Text.exists_pad label
    rw [hpad]
    exact List.mem_append_left _ (List.mem_append_right _ hmem)

theorem inert_of_not_found_reply : parse (some "Alice <-- Bob : class -- 2 - 1 : 1 ") = .ok {
    nodes := [.bare "Bob", .bare "Alice"]
    edges := [⟨"Bob", "Alice", "class -- 2 - 1 : 1", .arrow⟩] } := by
  have hop : (['<', '-', '-'], ⟨[.one '<', .many '-'], .association, true, true⟩)
      ∈ labelledOperators := by simp [labelledOperators]
  have hforms : relationForms = relationForms.take 7 ++
      ⟨[.one '<', .many '-'], .association, true, true⟩ :: relationForms.drop 8 := rfl
  have hleft : IsWord "Alice".toList := by decide
  have hright : IsWord "Bob".toList := by decide
  have hlabel : Text.trim "class -- 2 - 1 : 1 ".toList ≠ [] := by decide
  exact (inert_of_not_found hop hforms hleft (by decide) hright hlabel (by decide)).2.1 (by decide)

/-- The message of a traversal is read as an aggregation. -/
theorem parse_preorder : parse (some "A -> B : pre-order") = .ok {
    nodes := [.bare "pre", .bare "rder"]
    edges := [{ source := "pre", target := "rder" }] } := by
  have hop : (['-', '>'], ⟨[.many '-', .one '>'], .association, false, true⟩)
      ∈ labelledOperators := by simp [labelledOperators]
  have hforms : relationForms = relationForms.take 6 ++
      ⟨[.many '-', .one '>'], .association, false, true⟩ :: relationForms.drop 7 := rfl
  have hleft : IsWord ['A'] := by decide
  have hright : IsWord ['B'] := by decide
  have hlabel : Text.trim "pre-order".toList ≠ [] := by decide
  have hparse := parse_labelledText hop hforms hleft (by decide) hright hlabel (by decide)
  have hfound : (relationForms.take 6).findSome? (·.find? (Text.trim "pre-order".toList))
      = some { source := "pre", target := "rder" } := by decide
  rw [hfound] at hparse
  exact hparse

end Whiteboard.Diagram.Uml

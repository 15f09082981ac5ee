import Whiteboard.Proofs.Diagram.Flowchart.Declaration
import Whiteboard.Proofs.Diagram.WellFormed

/-!
# Statements of flowcharts

What the edge reader makes of a statement that joins two ids, with a label between bars or without
one (`Flowchart.edges_edgeText`), which lines are headers, and what a line that is none adds to a
graph (`Flowchart.readLine_of_not_header`).
-/

namespace Whiteboard.Diagram.Flowchart

variable {cs id rest : List Char} {c : Char}

/-! ## Texts of statements -/

/-- A declaration of a node in brackets. -/
def declarationText (b : Bracket) (id label : List Char) : List Char :=
  id ++ (b.opening ++ label ++ b.closing)

theorem not_mem_declarationText {b : Bracket} (hb : b ∈ brackets) {id label : List Char}
    (hid : c ∉ id) (hlabel : c ∉ label) (hmarks : c ∉ marks) : c ∉ declarationText b id label := by
  have hbracket := mt (Bracket.mem_marks b hb c) hmarks
  rw [List.mem_append, not_or] at hbracket
  simp only [declarationText, List.mem_append, not_or]
  exact ⟨hid, ⟨hbracket.1, hlabel⟩, hbracket.2⟩

theorem trimmed_declarationText {b : Bracket} (hb : b ∈ brackets) {id : List Char} (hid : IsId id)
    (label : List Char) : Text.Trimmed (declarationText b id label) := by
  obtain ⟨c, cs, rfl, hc⟩ := hid.exists_cons
  obtain ⟨ms, m, hclosing⟩ := (List.eq_nil_or_concat b.closing).resolve_left
    (Bracket.closing_ne_nil b hb)
  have hmark : m ∈ marks := Bracket.mem_marks b hb m (by simp [hclosing])
  have hall : ∀ m ∈ marks, Text.isBlank m = false := by decide
  refine Text.trimmed_append ⟨c, cs, rfl, isBlank_of_isIdChar hc⟩ ⟨m, b.opening ++ label ++ ms, ?_,
    hall m hmark⟩
  rw [hclosing, List.concat_eq_append, List.append_assoc (b.opening ++ label)]

/-! ## Edges -/

/-- A statement that joins two ids; an empty label is left out with its bars. -/
def edgeText (source operator label target : List Char) : List Char :=
  source ++ ' ' :: (operator ++ ((if label.isEmpty then [] else '|' :: (label ++ ['|'])) ++
    ' ' :: target))

theorem edgeText_nil (source operator target : List Char) :
    edgeText source operator [] target = source ++ ' ' :: (operator ++ ' ' :: target) := rfl

theorem edgeText_of_ne_nil {label : List Char} (h : label ≠ [])
    (source operator target : List Char) : edgeText source operator label target
      = (source ++ ' ' :: operator) ++ '|' :: (label ++ '|' :: ' ' :: target) := by
  rw [edgeText, if_neg (by simpa using h)]
  simp

theorem stops_space : Stops (' ' :: rest) := stops_cons (by decide)

theorem IsId.head (h : IsId id) (rest : List Char) :
    ∀ c ∈ (id ++ rest).head?, isIdChar c = true := by
  obtain ⟨c, cs, rfl, hc⟩ := h.exists_cons
  simpa using hc

theorem IsId.trimLeft (h : IsId id) : Text.trimLeft id = id := by
  refine Text.trimLeft_of_head fun c hc => isBlank_of_isIdChar ?_
  exact h.head [] c (by simpa using hc)

/-- Each operator is read as itself, whatever stands behind it. -/
theorem takeOperator?_append {operator : List Char} {kind : EdgeKind}
    (h : (operator, kind) ∈ operators) (rest : List Char) :
    takeOperator? (operator ++ rest) operators = some (kind, rest) := by
  simp only [operators, List.mem_cons, Prod.mk.injEq, List.not_mem_nil, or_false] at h
  rcases h with ⟨rfl, rfl⟩ | ⟨rfl, rfl⟩ | ⟨rfl, rfl⟩ | ⟨rfl, rfl⟩ <;> rfl

theorem operator_head : ∀ o ∈ operators, ∀ c ∈ o.1.head?, Text.isBlank c = false := by decide

theorem operator_ne_nil : ∀ o ∈ operators, o.1 ≠ [] := by decide

theorem trimLeft_operator {operator : List Char} {kind : EdgeKind}
    (h : (operator, kind) ∈ operators) (rest : List Char) :
    Text.trimLeft (' ' :: (operator ++ rest)) = operator ++ rest := by
  rw [Text.trimLeft_space]
  refine Text.trimLeft_of_head fun c hc => operator_head _ h c ?_
  rwa [List.head?_append_of_ne_nil _ (operator_ne_nil _ h)] at hc

theorem takeEdgeLabel_of_head (h : ∀ c ∈ cs.head?, c ≠ '|') : takeEdgeLabel cs = ([], cs) := by
  unfold takeEdgeLabel
  split
  · exact absurd rfl (h '|' rfl)
  · rfl

theorem takeEdgeLabel_bars {label : List Char} (hne : label ≠ []) (hbar : '|' ∉ label)
    (rest : List Char) :
    takeEdgeLabel ('|' :: (label ++ '|' :: rest)) = (label, Text.trimLeft rest) := by
  have hspan : Text.span (· != '|') (label ++ '|' :: rest) = (label, '|' :: rest) := by
    refine Text.span_append (fun c hc => ?_) (by simp)
    have hc : c ≠ '|' := ne_of_mem_of_not_mem hc hbar
    simpa using hc
  obtain ⟨l, ls, rfl⟩ := List.exists_cons_of_ne_nil hne
  simp only [takeEdgeLabel, hspan]

theorem edge?_edgeText {source operator label target : List Char} {kind : EdgeKind}
    (hs : IsId source) (ht : IsId target) (ho : (operator, kind) ∈ operators)
    (hbar : '|' ∉ label) : edge? (edgeText source operator label target)
      = some (⟨String.ofList source, String.ofList target, String.ofList (Text.trim label), kind⟩,
        target) := by
  have htarget : takeId? target = some (target, []) := by
    simpa using takeId?_isId ht stops_nil
  unfold edge?
  by_cases hlabel : label = []
  · subst hlabel
    have hhead : ∀ c ∈ target.head?, c ≠ '|' := by
      rintro c hc rfl
      exact absurd (ht.head [] '|' (by simpa using hc)) (by decide)
    simp only [edgeText_nil, takeId?_isId hs stops_space, trimLeft_operator ho,
      takeOperator?_append ho, Text.trimLeft_space, ht.trimLeft, takeEdgeLabel_of_head hhead,
      htarget, Option.map_some]
  · have hbars : Text.trimLeft ('|' :: (label ++ '|' :: ' ' :: target))
        = '|' :: (label ++ '|' :: ' ' :: target) := Text.trimLeft_cons (by decide)
    simp only [edgeText_of_ne_nil hlabel, List.append_assoc, List.cons_append,
      takeId?_isId hs stops_space, trimLeft_operator ho, takeOperator?_append ho, hbars,
      takeEdgeLabel_bars hlabel hbar, Text.trimLeft_space, ht.trimLeft, htarget, Option.map_some]

theorem mem_of_takeOperator? {kind : EdgeKind} {ops : List (List Char × EdgeKind)}
    (hops : ∀ o ∈ ops, '>' ∈ o.1) (h : takeOperator? cs ops = some (kind, rest)) : '>' ∈ cs := by
  induction ops with
  | nil => cases h
  | cons op ops ih =>
    rw [List.forall_mem_cons] at hops
    unfold takeOperator? at h
    split at h
    · next r hword =>
      rw [Text.dropWord?_eq_some_iff.mp hword]
      exact List.mem_append_left _ hops.1
    · exact ih hops.2 h

/-- All operators end in an arrow head. -/
theorem edge?_of_not_mem (h : '>' ∉ cs) : edge? cs = none := by
  unfold edge?
  cases hid : takeId? cs with
  | none => rfl
  | some pair =>
    obtain ⟨id, after⟩ := pair
    cases hop : takeOperator? (Text.trimLeft after) operators with
    | none => simp only [hop]
    | some found =>
      obtain ⟨kind, rest⟩ := found
      have hmem : '>' ∈ Text.trimLeft after := mem_of_takeOperator? (by decide) hop
      refine absurd ?_ h
      rw [(takeId?_eq_some hid).1]
      exact List.mem_append_right _ ((List.dropWhile_suffix _).subset hmem)

theorem edges_of_some {e : Edge} (h : edge? cs = some (e, rest)) : edges cs = e :: edges rest := by
  rw [edges]
  split
  · next heq =>
    rw [h] at heq
    cases heq
    rfl
  · next heq =>
    rw [h] at heq
    cases heq

theorem edges_of_none (h : edge? (c :: cs) = none) : edges (c :: cs) = edges cs := by
  rw [edges]
  split
  · next heq =>
    rw [h] at heq
    cases heq
  · rfl

theorem edges_of_not_mem (h : '>' ∉ cs) : edges cs = [] := by
  induction cs with
  | nil =>
    rw [edges]
    rfl
  | cons c cs ih =>
    have hnone := edge?_of_not_mem h
    rw [List.mem_cons, not_or] at h
    rw [edges_of_none hnone, ih h.2]

theorem IsId.arrow_not_mem (h : IsId id) : '>' ∉ id :=
  Text.Joined.not_mem h (by decide) (by decide)

theorem edges_edgeText {source operator label target : List Char} {kind : EdgeKind}
    (hs : IsId source) (ht : IsId target) (ho : (operator, kind) ∈ operators)
    (hbar : '|' ∉ label) : edges (edgeText source operator label target)
      = [⟨String.ofList source, String.ofList target, String.ofList (Text.trim label), kind⟩] := by
  rw [edges_of_some (edge?_edgeText hs ht ho hbar), edges_of_not_mem ht.arrow_not_mem]

theorem trimmed_edgeText {source target : List Char} (hs : IsId source) (ht : IsId target)
    (operator label : List Char) : Text.Trimmed (edgeText source operator label target) := by
  obtain ⟨c, cs, rfl, hc⟩ := hs.exists_cons
  obtain ⟨d, ds, rfl, hd⟩ := ht.exists_concat
  exact Text.trimmed_append ⟨c, cs, rfl, isBlank_of_isIdChar hc⟩ ⟨d, ' ' :: (operator ++
    ((if label.isEmpty then [] else '|' :: (label ++ ['|'])) ++ ' ' :: ds)), by simp,
    isBlank_of_isIdChar hd⟩

theorem not_mem_marks_of_operator : ∀ o ∈ operators, ∀ c ∈ o.1, c ∉ marks := by decide

theorem not_mem_marks_edgeText {source operator label target : List Char} {kind : EdgeKind}
    (hs : IsId source) (ht : IsId target) (ho : (operator, kind) ∈ operators)
    (hlabel : ∀ c ∈ label, c ∉ marks) : ∀ c ∈ edgeText source operator label target, c ∉ marks := by
  have hspace : ' ' ∉ marks := by decide
  have hbar : '|' ∉ marks := by decide
  have hbars : ∀ c ∈ (if label.isEmpty then [] else '|' :: (label ++ ['|'])), c ∉ marks := by
    split
    · simp
    · simpa [hbar] using fun c hc => hc.elim (hlabel c) fun heq => heq ▸ hbar
  refine List.forall_mem_append.mpr ⟨fun _ => hs.not_mem_marks, List.forall_mem_cons.mpr
    ⟨hspace, List.forall_mem_append.mpr ⟨not_mem_marks_of_operator _ ho,
      List.forall_mem_append.mpr ⟨hbars, List.forall_mem_cons.mpr ⟨hspace, ?_⟩⟩⟩⟩⟩
  exact fun _ => ht.not_mem_marks

theorem not_mem_edgeText {source operator label target : List Char} {kind : EdgeKind}
    (ho : (operator, kind) ∈ operators) (hs : c ∉ source) (ht : c ∉ target) (hlabel : c ∉ label)
    (hrest : c ∉ [' ', '|', '-', '=', '.', '>']) : c ∉ edgeText source operator label target := by
  have hall : ∀ o ∈ operators, ∀ d ∈ o.1, d ∈ [' ', '|', '-', '=', '.', '>'] := by decide
  have hoperator : c ∉ operator := mt (hall _ ho c) hrest
  have hspace : c ≠ ' ' := fun heq => hrest (by simp [heq])
  have hbar : c ≠ '|' := fun heq => hrest (by simp [heq])
  simp only [edgeText, List.mem_append, List.mem_cons, not_or]
  refine ⟨hs, hspace, hoperator, ?_, hspace, ht⟩
  split
  · simp
  · simpa using ⟨hbar, hlabel, hbar⟩

/-! ## Headers -/

/-- The words that begin a header, in any case. -/
def IsKeyword (id : List Char) : Prop :=
  id.map Char.toLower = "graph".toList ∨ id.map Char.toLower = "flowchart".toList

instance : DecidablePred IsKeyword := fun _ => instDecidableOr

theorem isIdChar_of_toLower (h : isIdChar c.toLower = true) : isIdChar c = true := by
  by_cases hupper : c.isUpper = true
  · simp [isIdChar, Char.isAlphanum, Char.isAlpha, hupper]
  · rwa [Char.toLower_eq_of_not_isUpper hupper] at h

/-- Behind a whole id, a word in any case is that id or ends where the id goes on. -/
theorem dropAnyCase?_isId {word after : List Char} (hword : ∀ w ∈ word, isIdChar w = true)
    (hid : IsId id) (hrest : Stops rest) (h : Text.dropAnyCase? word (id ++ rest) = some after) :
    id.map Char.toLower = word ∧ after = rest ∨
      ∃ c ∈ after.head?, isIdChar c = true ∨ c = '-' := by
  obtain ⟨shown, rfl, heq⟩ := Text.dropAnyCase?_eq_some h
  have hshown : ∀ c ∈ shown, isIdChar c = true := fun c hc =>
    isIdChar_of_toLower (hword _ (List.mem_map_of_mem hc))
  rcases List.append_eq_append_iff.mp heq with ⟨t, rfl, rfl⟩ | ⟨t, rfl, rfl⟩
  · -- the word would go on behind the id
    cases t with
    | nil => exact .inl ⟨by simp, rfl⟩
    | cons c t =>
      have hc := hshown c (by simp)
      rw [(hrest c rfl).1] at hc
      contradiction
  · cases t with
    | nil => exact .inl ⟨by simp, rfl⟩
    | cons c t => exact .inr ⟨c, rfl, Text.Joined.mem hid (by simp)⟩

/-- A line that begins with an id is no header if the id is no keyword, or if what stands behind
the id does not set a keyword apart. -/
theorem dropKeyword?_eq_none (hid : IsId id) (hrest : Stops rest)
    (h : ¬ IsKeyword id ∨ ∃ c ∈ rest.head?, Text.isBlank c = false ∧ c ≠ ';') :
    dropKeyword? (id ++ rest) = none := by
  have hnone : ∀ word ∈ ["graph".toList, "flowchart".toList], ∀ after,
      Text.dropAnyCase? word (id ++ rest) = some after →
        ∃ c ∈ after.head?, Text.isBlank c = false ∧ c ≠ ';' := by
    intro word hword after hdrop
    have hletters : ∀ word ∈ ["graph".toList, "flowchart".toList], ∀ w ∈ word,
        isIdChar w = true := by decide
    rcases dropAnyCase?_isId (hletters word hword) hid hrest hdrop with
      ⟨rfl, rfl⟩ | ⟨c, hc, hcase⟩
    · refine h.resolve_left (not_not_intro ?_)
      simpa [IsKeyword] using hword
    · refine ⟨c, hc, ?_⟩
      rcases hcase with hidc | rfl
      · refine ⟨isBlank_of_isIdChar hidc, ?_⟩
        rintro rfl
        exact absurd hidc (by decide)
      · decide
  unfold dropKeyword?
  refine Option.filter_eq_none_iff.mpr fun after hafter => ?_
  have hor : ∃ word ∈ ["graph".toList, "flowchart".toList],
      Text.dropAnyCase? word (id ++ rest) = some after := by
    rcases Option.or_eq_some_iff.mp hafter with h1 | ⟨-, h2⟩
    · exact ⟨_, by simp, h1⟩
    · exact ⟨_, by simp, h2⟩
  obtain ⟨word, hword, hdrop⟩ := hor
  obtain ⟨c, hc, hblank, hsemicolon⟩ := hnone word hword after hdrop
  cases after with
  | nil => cases hc
  | cons d after =>
    cases hc
    simp [hblank, hsemicolon]

/-- A declaration is no header, whatever its id. -/
theorem dropKeyword?_declarationText {b : Bracket} (hb : b ∈ brackets) {id : List Char}
    (hid : IsId id) (label : List Char) : dropKeyword? (declarationText b id label) = none := by
  obtain ⟨o, os, hopening, hmark⟩ := Bracket.exists_opening hb
  have hall : ∀ m ∈ marks, Text.isBlank m = false ∧ m ≠ ';' := by decide
  rw [declarationText, hopening]
  exact dropKeyword?_eq_none hid (stops_of_mem_marks hmark) (.inr ⟨o, rfl, hall o hmark⟩)

theorem dropKeyword?_edgeText {source : List Char} (hs : IsId source) (hkey : ¬ IsKeyword source)
    (operator label target : List Char) :
    dropKeyword? (edgeText source operator label target) = none :=
  dropKeyword?_eq_none hs stops_space (.inl hkey)

/-! ## Lines -/

/-- What a line that is no header adds to a graph. -/
theorem readLine_of_not_header {g : Graph} {line : List Char} (h : dropKeyword? line = none) :
    readLine g line = (edges (allDeclarations line).1).foldl Graph.addEdge
      ((allDeclarations line).2.foldl Graph.addNode g) := by
  have hheader : readHeader line = (none, line) := by rw [readHeader, h]
  simp only [readLine, hheader, Option.getD_none]

theorem isStatement_of_head (h : ∃ c ∈ cs.head?, c ≠ '%') : isStatement cs = true := by
  obtain ⟨c, hc, hne⟩ := h
  cases cs with
  | nil => cases hc
  | cons d cs =>
    cases hc
    simp [isStatement, List.isPrefixOf_cons_cons, Ne.symm hne]

theorem isStatement_of_isId {id : List Char} (h : IsId id) (rest : List Char) :
    isStatement (id ++ rest) = true := by
  obtain ⟨c, cs, rfl, hc⟩ := h.exists_cons
  refine isStatement_of_head ⟨c, rfl, ?_⟩
  rintro rfl
  exact absurd hc (by decide)

/-- A source of one line that begins with an id. -/
theorem parse_line {line : List Char} (htrim : Text.Trimmed line) (hline : '\n' ∉ line)
    (hhead : ∃ c ∈ line.head?, isIdChar c = true) {g : Graph}
    (hg : declareEnds (readLine .empty line) (readLine .empty line).edges = g) :
    parse (some (String.ofList line))
      = if g.nodes = [] then .error (.noNodes .flowchart) else .ok g := by
  obtain ⟨c, hc, hid⟩ := hhead
  have hnil : line ≠ [] := by
    rintro rfl
    cases hc
  have hstatement : isStatement line = true :=
    isStatement_of_head ⟨c, hc, by rintro rfl; exact absurd hid (by decide)⟩
  have hread : readLines [line] = g := by
    rw [readLines, List.map_singleton, htrim.trim_eq, List.filter_singleton, hstatement]
    exact hg
  rw [← finish_of_wellFormed (hread ▸ wellFormed_readLines _), ← hread, parse,
    sourceLines_line htrim hnil hline]
  rfl

end Whiteboard.Diagram.Flowchart

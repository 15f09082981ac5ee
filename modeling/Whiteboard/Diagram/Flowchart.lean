import Whiteboard.Diagram.Source
import Whiteboard.Text.Scan
import Whiteboard.Text.Word

/-!
# Flowcharts

A flowchart is a list of statements, one a line: an optional header with the direction, node
declarations `id[label]` in eight kinds of brackets, and edges `id --> id` with one of four
operators and an optional label `|label|`. Declarations are replaced by their bare ids before the
edges of a line are read. Two percent signs start a comment line.
-/

namespace Whiteboard.Diagram.Flowchart

/-- The characters of ids, besides single hyphens inside. -/
def isIdChar (c : Char) : Bool := c.isAlphanum || c == '_'

/-- The rest of an id behind an id character. -/
def takeIdTail : List Char → List Char × List Char
  | '-' :: c :: rest =>
    if isIdChar c then
      let (tail, after) := takeIdTail rest
      ('-' :: c :: tail, after)
    else ([], '-' :: c :: rest)
  | c :: rest =>
    if isIdChar c then
      let (tail, after) := takeIdTail rest
      (c :: tail, after)
    else ([], c :: rest)
  | [] => ([], [])

/-- The longest id at the front of a text. -/
def takeId? : List Char → Option (List Char × List Char)
  | [] => none
  | c :: rest =>
    if isIdChar c then
      let (tail, after) := takeIdTail rest
      some (c :: tail, after)
    else none

/-- The brackets around a label and the shape they mean. -/
structure Bracket where
  opening : List Char
  closing : List Char
  shape : NodeShape

/-- The kinds of brackets, longer ones before those they start with. -/
def brackets : List Bracket :=
  [⟨['[', '['], [']', ']'], .rectangle⟩, ⟨['(', '('], [')', ')'], .circle⟩,
    ⟨['{', '{'], ['}', '}'], .diamond⟩, ⟨['[', '\\'], ['/', ']'], .parallelogram⟩,
    ⟨['[', '/'], ['\\', ']'], .parallelogram⟩, ⟨['['], [']'], .rectangle⟩,
    ⟨['{'], ['}'], .diamond⟩, ⟨['('], [')'], .rounded⟩]

/-- A declaration at the front of a text: its id, its label as written and the rest. -/
def declaration? (b : Bracket) (cs : List Char) : Option (List Char × List Char × List Char) :=
  match takeId? cs with
  | none => none
  | some (id, after) =>
    match Text.dropWord? b.opening after with
    | none => none
    | some inner => (Text.cutAt? b.closing inner).map fun (label, rest) => (id, label, rest)

theorem length_takeIdTail (cs : List Char) : (takeIdTail cs).2.length ≤ cs.length := by
  fun_induction takeIdTail cs <;> simp_all <;> omega

theorem length_takeId? {cs id after : List Char} (h : takeId? cs = some (id, after)) :
    after.length < cs.length := by
  cases cs with
  | nil => simp [takeId?] at h
  | cons c rest =>
    simp only [takeId?] at h
    split at h
    · simp only [Option.some.injEq, Prod.mk.injEq] at h
      have := length_takeIdTail rest
      simp only [← h.2, List.length_cons]
      omega
    · contradiction

theorem length_declaration? {b : Bracket} {cs id label rest : List Char}
    (h : declaration? b cs = some (id, label, rest)) : rest.length < cs.length := by
  unfold declaration? at h
  split at h
  · contradiction
  · rename_i i after hid
    split at h
    · contradiction
    · rename_i inner hword
      obtain ⟨⟨l, r⟩, hcut, hpair⟩ := Option.map_eq_some_iff.mp h
      simp only [Prod.mk.injEq] at hpair
      have h1 := length_takeId? hid
      have h2 := Text.length_cutAt? hcut
      unfold Text.dropWord? at hword
      split at hword
      · simp only [Option.some.injEq] at hword
        have h3 : inner.length ≤ after.length := by simp [← hword]
        rw [← hpair.2.2]
        omega
      · contradiction

/-- Replaces the declarations in one kind of brackets by their ids, left to right. Returns the text
that remains and the nodes declared. -/
def declarations (b : Bracket) (cs : List Char) : List Char × List Node :=
  match _h : declaration? b cs with
  | some (id, label, rest) =>
    let (text, nodes) := declarations b rest
    (id ++ text, { id := String.ofList id, label := String.ofList (Text.trim label),
                   shape := b.shape } :: nodes)
  | none =>
    match cs with
    | [] => ([], [])
    | c :: rest =>
      let (text, nodes) := declarations b rest
      (c :: text, nodes)
  termination_by cs.length
  decreasing_by
  · exact length_declaration? ‹_›
  · simp

/-- Takes the declarations in all kinds of brackets out of a statement. -/
def allDeclarations (cs : List Char) : List Char × List Node :=
  brackets.foldl (fun (text, nodes) b =>
    let (text, more) := declarations b text
    (text, nodes ++ more)) (cs, [])

/-- The operators, longer ones first. -/
def operators : List (List Char × EdgeKind) :=
  [(['-', '-', '>'], .arrow), (['=', '=', '>'], .thick), (['-', '.', '-', '>'], .dotted),
    (['-', '>'], .arrow)]

/-- The kind of edge that an operator means; any other text means an arrow. -/
def edgeKindOf (operator : String) : EdgeKind := (operators.lookup operator.toList).getD .arrow

/-- An operator at the front of a text. -/
def takeOperator? (cs : List Char) : List (List Char × EdgeKind) → Option (EdgeKind × List Char)
  | [] => none
  | (operator, kind) :: more =>
    match Text.dropWord? operator cs with
    | some rest => some (kind, rest)
    | none => takeOperator? cs more

/-- The label of an edge behind its operator; a bar that starts no label stays. -/
def takeEdgeLabel (cs : List Char) : List Char × List Char :=
  match cs with
  | '|' :: rest =>
    match Text.span (· != '|') rest with
    | ([], _) => ([], cs)
    | (label, '|' :: after) => (label, Text.trimLeft after)
    | _ => ([], cs)
  | _ => ([], cs)

/-- An edge at the front of a text, and the text from its target on. -/
def edge? (cs : List Char) : Option (Edge × List Char) :=
  match takeId? cs with
  | none => none
  | some (source, afterSource) =>
    match takeOperator? (Text.trimLeft afterSource) operators with
    | none => none
    | some (kind, afterOperator) =>
      let labelled := takeEdgeLabel (Text.trimLeft afterOperator)
      (takeId? labelled.2).map fun target =>
        (⟨String.ofList source, String.ofList target.1, String.ofList (Text.trim labelled.1), kind⟩,
          labelled.2)

theorem length_trimLeft (cs : List Char) : (Text.trimLeft cs).length ≤ cs.length :=
  (List.dropWhile_suffix _).length_le

theorem length_takeOperator? {cs rest : List Char} {kind : EdgeKind}
    {ops : List (List Char × EdgeKind)} (h : takeOperator? cs ops = some (kind, rest)) :
    rest.length ≤ cs.length := by
  induction ops with
  | nil => simp [takeOperator?] at h
  | cons op more ih =>
    unfold takeOperator? at h
    split at h
    · rename_i r hword
      simp only [Option.some.injEq, Prod.mk.injEq] at h
      unfold Text.dropWord? at hword
      split at hword
      · simp only [Option.some.injEq] at hword
        simp [← h.2, ← hword]
      · contradiction
    · exact ih h

theorem length_takeEdgeLabel (cs : List Char) : (takeEdgeLabel cs).2.length ≤ cs.length := by
  unfold takeEdgeLabel
  split
  · rename_i rest
    split
    · simp
    · rename_i label after _ heq
      have hlen := length_trimLeft after
      have hspan := Text.length_span_snd (· != '|') rest
      rw [heq] at hspan
      simp only [List.length_cons] at hspan ⊢
      omega
    · simp
  · simp

theorem length_edge? {cs rest : List Char} {e : Edge} (h : edge? cs = some (e, rest)) :
    rest.length < cs.length := by
  unfold edge? at h
  split at h
  · contradiction
  · rename_i source afterSource hid
    split at h
    · contradiction
    · rename_i kind afterOperator hop
      obtain ⟨_, _, hpair⟩ := Option.map_eq_some_iff.mp h
      rw [Prod.mk.injEq] at hpair
      have h1 := length_takeId? hid
      have h2 := length_takeOperator? hop
      have h3 := length_trimLeft afterSource
      have h4 := length_trimLeft afterOperator
      have h5 := length_takeEdgeLabel (Text.trimLeft afterOperator)
      rw [← hpair.2]
      omega

/-- The edges of a statement from left to right; the target of one may be the source of the next. -/
def edges (cs : List Char) : List Edge :=
  match _h : edge? cs with
  | some (e, rest) => e :: edges rest
  | none =>
    match cs with
    | [] => []
    | _ :: rest => edges rest
  termination_by cs.length
  decreasing_by
  · exact length_edge? ‹_›
  · simp

/-- Letters that may stand in a direction; four of them are no ASCII letters but differ from one
only in case. -/
def isDirectionLetter (c : Char) : Bool :=
  c.isAlpha || c == '\u0130' || c == '\u0131' || c == '\u017F' || c == '\u212A'

/-- A direction of two letters at the front of a text, which end a word, in any case. The letters
are taken away even if they name no direction. -/
def takeDirection : List Char → Option Direction × List Char
  | a :: b :: rest =>
    let ends := match rest with
      | [] => true
      | c :: _ => !Text.isWord c
    if isDirectionLetter a && isDirectionLetter b && ends then
      (Named.ofName? (String.ofList [a.toUpper, b.toUpper]), rest)
    else (none, a :: b :: rest)
  | cs => (none, cs)

/-- A header's keyword: `graph` or `flowchart` in any case, before a blank, a semicolon or the end
of the line. -/
def dropKeyword? (cs : List Char) : Option (List Char) :=
  let rest? := (Text.dropAnyCase? "graph".toList cs).or (Text.dropAnyCase? "flowchart".toList cs)
  rest?.filter fun
    | [] => true
    | c :: _ => Text.isBlank c || c == ';'

/-- What stands behind a header on its line, without the mark that sets it apart. -/
def afterHeader (cs : List Char) : List Char :=
  match Text.trim cs with
  | ';' :: rest => Text.trimLeft rest
  | ',' :: rest => Text.trimLeft rest
  | rest => rest

/-- Reads the header of a line: its direction and the statement behind it. -/
def readHeader (cs : List Char) : Option Direction × List Char :=
  match dropKeyword? cs with
  | none => (none, cs)
  | some rest =>
    let (direction?, rest) := takeDirection (Text.trimLeft rest)
    (direction?, afterHeader rest)

/-- Reads one line without blanks around it into a graph. -/
def readLine (g : Graph) (line : List Char) : Graph :=
  let (direction?, statement) := readHeader line
  let (text, nodes) := allDeclarations statement
  let g := { g with direction := direction?.getD g.direction }
  (edges text).foldl Graph.addEdge (nodes.foldl Graph.addNode g)

/-- Whether a line holds a statement. -/
def isStatement (line : List Char) : Bool := !line.isEmpty && !"%%".toList.isPrefixOf line

/-- Reads all lines, and declares the ids that only edges name. -/
def readLines (lines : List (List Char)) : Graph :=
  let g := ((lines.map Text.trim).filter isStatement).foldl readLine .empty
  g.edges.foldl (fun g e => (g.ensureNode e.source).ensureNode e.target) g

/-- Reads a flowchart. -/
def parse (source : Option String) : Except SourceError Graph :=
  (sourceLines source).bind fun lines => finish .flowchart (readLines lines)

end Whiteboard.Diagram.Flowchart

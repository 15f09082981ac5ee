import Whiteboard.Proofs.Diagram.Flowchart.Statement

/-!
# Printed flowcharts

A graph with nodes that is printed as a flowchart, a header, then a declaration for each node, then
a statement for each edge, reads back as the same graph (`Flowchart.parse_print`).
-/

namespace Whiteboard.Diagram.Flowchart

/-! ## Printing -/

/-- The brackets in which a node of a shape is printed. -/
def bracketOf : NodeShape → Bracket
  | .rectangle => ⟨['['], [']'], .rectangle⟩
  | .rounded => ⟨['('], [')'], .rounded⟩
  | .circle => ⟨['(', '('], [')', ')'], .circle⟩
  | .diamond => ⟨['{'], ['}'], .diamond⟩
  | .parallelogram => ⟨['[', '/'], ['\\', ']'], .parallelogram⟩

/-- The operator with which an edge of a kind is printed. -/
def operatorOf : EdgeKind → List Char
  | .arrow => ['-', '-', '>']
  | .dotted => ['-', '.', '-', '>']
  | .thick => ['=', '=', '>']

def headerText (d : Direction) : List Char := "graph ".toList ++ (Named.name d).toList

def nodeText (n : Node) : List Char :=
  declarationText (bracketOf n.shape) n.id.toList n.label.toList

def edgeLine (e : Edge) : List Char :=
  edgeText e.source.toList (operatorOf e.kind) e.label.toList e.target.toList

/-- The lines of a printed graph. -/
def printedLines (g : Graph) : List (List Char) :=
  headerText g.direction :: (g.nodes.map nodeText ++ g.edges.map edgeLine)

def print (g : Graph) : String := String.ofList (['\n'].intercalate (printedLines g))

/-- Words of letters and digits, joined by single spaces. -/
def IsLabel : List Char → Prop := Text.Joined ' ' Text.isAlphanumeric

instance : DecidablePred IsLabel := fun _ => Text.instDecidableJoined

/-- A node whose text tells all of it. -/
@[mk_iff]
structure PrintableNode (n : Node) : Prop where
  id : IsId n.id.toList
  keyword : ¬ IsKeyword n.id.toList
  label : IsLabel n.label.toList
  level : n.level = none
  fill : n.fill = none
  border : n.border = none
  isDecision : n.isDecision = false

instance (n : Node) : Decidable (PrintableNode n) := decidable_of_iff' _ (printableNode_iff n)

/-- A well-formed graph whose ids and labels can be printed. -/
@[mk_iff]
structure Printable (g : Graph) : Prop where
  wellFormed : g.WellFormed
  nodes : ∀ n ∈ g.nodes, PrintableNode n
  labels : ∀ e ∈ g.edges, e.label.toList ≠ [] → IsLabel e.label.toList

instance (g : Graph) : Decidable (Printable g) := decidable_of_iff' _ (printable_iff g)

/-! ## Reading what was printed, line by line -/

variable {n : Node} {e : Edge} {c : Char}

theorem IsLabel.not_mem {label : List Char} (h : IsLabel label) (hc : Text.isAlphanumeric c = false)
    (hspace : c ≠ ' ') : c ∉ label :=
  Text.Joined.not_mem h hc hspace

theorem IsLabel.not_mem_marks {label : List Char} (h : IsLabel label) (hc : c ∈ label) :
    c ∉ marks := by
  intro hmark
  have hall : ∀ d ∈ marks, Text.isAlphanumeric d = false ∧ d ≠ ' ' := by decide
  exact h.not_mem (hall c hmark).1 (hall c hmark).2 hc

theorem IsLabel.trimmed {label : List Char} (h : IsLabel label) : Text.Trimmed label := by
  constructor
  · obtain ⟨c, cs, rfl, hc⟩ := h.exists_cons
    simpa using Text.isBlank_of_isAlphanumeric hc
  · obtain ⟨c, cs, rfl, hc⟩ := h.exists_concat
    simpa using Text.isBlank_of_isAlphanumeric hc

/-- Of the kinds that are looked for before the one in which a shape is printed, none can be made of
its marks. -/
theorem exists_earlier (s : NodeShape) : ∃ earlier later,
    brackets = earlier ++ bracketOf s :: later ∧ ∀ e ∈ earlier, ¬ (e.opening ++ e.closing).Sublist
      ((bracketOf s).opening ++ (bracketOf s).closing) := by
  cases s with
  | rectangle => exact ⟨brackets.take 5, brackets.drop 6, rfl, by decide⟩
  | rounded => exact ⟨brackets.take 7, brackets.drop 8, rfl, by decide⟩
  | circle => exact ⟨brackets.take 1, brackets.drop 2, rfl, by decide⟩
  | diamond => exact ⟨brackets.take 6, brackets.drop 7, rfl, by decide⟩
  | parallelogram => exact ⟨brackets.take 4, brackets.drop 5, rfl, by decide⟩

theorem bracketOf_mem (s : NodeShape) : bracketOf s ∈ brackets := by
  obtain ⟨earlier, later, hb, -⟩ := exists_earlier s
  exact hb ▸ List.mem_append_right _ List.mem_cons_self

theorem filter_declarationText {b : Bracket} (hb : b ∈ brackets) {id label : List Char}
    (hid : ∀ c ∈ id, c ∉ marks) (hlabel : ∀ c ∈ label, c ∉ marks) :
    (declarationText b id label).filter (· ∈ marks) = b.opening ++ b.closing := by
  have hmarks := Bracket.mem_marks b hb
  rw [List.forall_mem_append] at hmarks
  have hkept : ∀ cs : List Char, (∀ c ∈ cs, c ∈ marks) → cs.filter (· ∈ marks) = cs :=
    fun cs h => List.filter_eq_self.mpr (by simpa using h)
  have hdropped : ∀ cs : List Char, (∀ c ∈ cs, c ∉ marks) → cs.filter (· ∈ marks) = [] :=
    fun cs h => List.filter_eq_nil_iff.mpr (by simpa using h)
  rw [declarationText, List.filter_append, List.filter_append, List.filter_append, hdropped id hid,
    hdropped label hlabel, hkept _ hmarks.1, hkept _ hmarks.2, List.nil_append, List.append_nil]

theorem node_bracketOf (h : PrintableNode n) :
    (bracketOf n.shape).node n.id.toList n.label.toList = n := by
  have hshape : (bracketOf n.shape).shape = n.shape := by cases n.shape <;> rfl
  rw [Bracket.node, h.label.trimmed.trim_eq, hshape, String.ofList_toList, String.ofList_toList]
  obtain ⟨id, label, shape, level, fill, border, isDecision⟩ := n
  obtain ⟨-, -, -, hlevel, hfill, hborder, hdecision⟩ := h
  cases hlevel
  cases hfill
  cases hborder
  cases hdecision
  rfl

theorem allDeclarations_nodeText (h : PrintableNode n) :
    allDeclarations (nodeText n) = (n.id.toList, [n]) := by
  obtain ⟨earlier, later, hb, hearlier⟩ := exists_earlier n.shape
  have hmem := bracketOf_mem n.shape
  have hclosing : ∀ m ∈ (bracketOf n.shape).closing.head?, m ∉ n.label.toList := fun m hm hlabel =>
    h.label.not_mem_marks hlabel (Bracket.mem_marks _ hmem m
      (List.mem_append_right _ (List.mem_of_mem_head? hm)))
  have hdeclared := allDeclarations_bracketed hb h.id hclosing fun k hk hstands => by
    refine hearlier k hk ?_
    rw [← filter_declarationText hmem (fun _ => h.id.not_mem_marks)
      fun _ => h.label.not_mem_marks]
    exact hstands.sublist_filter (hb ▸ List.mem_append_left _ hk)
  rwa [node_bracketOf h] at hdeclared

theorem readLine_nodeText (h : PrintableNode n) (g : Graph) :
    readLine g (nodeText n) = g.addNode n := by
  have hheader : dropKeyword? (nodeText n) = none :=
    dropKeyword?_declarationText (bracketOf_mem n.shape) h.id _
  rw [readLine_of_not_header hheader, allDeclarations_nodeText h,
    edges_of_not_mem h.id.arrow_not_mem]
  rfl

theorem operatorOf_mem (kind : EdgeKind) : (operatorOf kind, kind) ∈ operators := by
  cases kind <;> decide

theorem readLine_edgeLine (hs : IsId e.source.toList) (hkey : ¬ IsKeyword e.source.toList)
    (ht : IsId e.target.toList) (hlabel : e.label.toList ≠ [] → IsLabel e.label.toList)
    (g : Graph) : readLine g (edgeLine e) = g.addEdge e := by
  have hunmarked : ∀ c ∈ e.label.toList, c ∉ marks := fun c hc =>
    (hlabel (List.ne_nil_of_mem hc)).not_mem_marks hc
  have hbar : '|' ∉ e.label.toList := fun hmem =>
    (hlabel (List.ne_nil_of_mem hmem)).not_mem (by decide) (by decide) hmem
  have htrim : Text.trim e.label.toList = e.label.toList := by
    by_cases hnil : e.label.toList = []
    · rw [hnil]
      rfl
    · exact (hlabel hnil).trimmed.trim_eq
  have hheader : dropKeyword? (edgeLine e) = none := dropKeyword?_edgeText hs hkey _ _ _
  have hnone : allDeclarations (edgeLine e) = (edgeLine e, []) :=
    allDeclarations_of_not_standsIn fun b hb => Bracket.not_standsIn_of_unmarked hb
      (not_mem_marks_edgeText hs ht (operatorOf_mem e.kind) hunmarked)
  rw [readLine_of_not_header hheader, hnone, edgeLine,
    edges_edgeText hs ht (operatorOf_mem e.kind) hbar, htrim, String.ofList_toList,
    String.ofList_toList, String.ofList_toList]
  rfl

theorem readLine_headerText (d : Direction) :
    readLine .empty (headerText d) = { Graph.empty with direction := d } := by
  have hheader : readHeader (headerText d) = (some d, []) := by cases d <;> decide
  have hdeclared : allDeclarations [] = ([], []) := allDeclarations_of_not_standsIn fun b hb =>
    Bracket.not_standsIn_of_unmarked hb (by simp)
  simp only [readLine, hheader, hdeclared, edges_of_not_mem List.not_mem_nil]
  rfl

/-! ## The whole text -/

/-- A line of a printed graph: it is read as a statement, as it stands. -/
structure PrintedLine (line : List Char) : Prop where
  trimmed : Text.Trimmed line
  isStatement : isStatement line = true
  feed : '\n' ∉ line
  carriage : '\r' ∉ line

theorem PrintedLine.ne_nil {line : List Char} (h : PrintedLine line) : line ≠ [] := by
  rintro rfl
  exact absurd h.isStatement (by decide)

theorem printedLine_headerText (d : Direction) : PrintedLine (headerText d) := by
  cases d <;> exact ⟨⟨by decide, by decide⟩, by decide, by decide, by decide⟩

theorem printedLine_nodeText (h : PrintableNode n) : PrintedLine (nodeText n) := by
  have hmem := bracketOf_mem n.shape
  have hnot : ∀ c ∈ ['\n', '\r'], c ∉ nodeText n := by
    have hall : ∀ c ∈ ['\n', '\r'], isIdChar c = false ∧ c ≠ '-' ∧
        Text.isAlphanumeric c = false ∧ c ≠ ' ' ∧ c ∉ marks := by decide
    intro c hc
    obtain ⟨hid, hhyphen, halnum, hspace, hmarks⟩ := hall c hc
    exact not_mem_declarationText hmem (Text.Joined.not_mem h.id hid hhyphen)
      (h.label.not_mem halnum hspace) hmarks
  exact ⟨trimmed_declarationText hmem h.id _, isStatement_of_isId h.id _, hnot _ (by simp),
    hnot _ (by simp)⟩

theorem printedLine_edgeLine (hs : IsId e.source.toList) (ht : IsId e.target.toList)
    (hlabel : e.label.toList ≠ [] → IsLabel e.label.toList) : PrintedLine (edgeLine e) := by
  have hnot : ∀ c ∈ ['\n', '\r'], c ∉ edgeLine e := by
    have hall : ∀ c ∈ ['\n', '\r'], isIdChar c = false ∧ c ≠ '-' ∧
        Text.isAlphanumeric c = false ∧ c ≠ ' ' ∧ c ∉ [' ', '|', '-', '=', '.', '>'] := by decide
    intro c hc
    obtain ⟨hid, hhyphen, halnum, hspace, hrest⟩ := hall c hc
    exact not_mem_edgeText (operatorOf_mem e.kind) (Text.Joined.not_mem hs hid hhyphen)
      (Text.Joined.not_mem ht hid hhyphen)
      (fun hmem => (hlabel (List.ne_nil_of_mem hmem)).not_mem halnum hspace hmem) hrest
  exact ⟨trimmed_edgeText hs ht _ _, isStatement_of_isId hs _, hnot _ (by simp), hnot _ (by simp)⟩

theorem declareEnds_of_mem {g : Graph} {es : List Edge}
    (h : ∀ e ∈ es, e.source ∈ g.nodeIds ∧ e.target ∈ g.nodeIds) : declareEnds g es = g := by
  induction es with
  | nil => rfl
  | cons e es ih =>
    rw [List.forall_mem_cons] at h
    have hstep : (g.ensureNode e.source).ensureNode e.target = g := by
      rw [Graph.ensureNode, Graph.ensureNode, Graph.addNode_of_mem (n := .bare e.source) h.1.1,
        Graph.addNode_of_mem (n := .bare e.target) h.1.2]
    rw [declareEnds, List.foldl_cons, hstep]
    exact ih h.2

variable {g : Graph}

theorem Printable.isId (h : Printable g) {id : String} (hid : id ∈ g.nodeIds) :
    IsId id.toList ∧ ¬ IsKeyword id.toList := by
  obtain ⟨n, hn, rfl⟩ := List.mem_map.mp hid
  exact ⟨(h.nodes n hn).id, (h.nodes n hn).keyword⟩

theorem Printable.printedLine (h : Printable g) : ∀ line ∈ printedLines g, PrintedLine line := by
  refine List.forall_mem_cons.mpr ⟨printedLine_headerText _, List.forall_mem_append.mpr
    ⟨List.forall_mem_map.mpr fun n hn => printedLine_nodeText (h.nodes n hn),
      List.forall_mem_map.mpr fun e he => ?_⟩⟩
  exact printedLine_edgeLine (h.isId (h.wellFormed.source_mem e he)).1
    (h.isId (h.wellFormed.target_mem e he)).1 (h.labels e he)

theorem Printable.readLines_eq (h : Printable g) : readLines (printedLines g) = g := by
  have htrim : (printedLines g).map Text.trim = printedLines g := by
    rw [List.map_congr_left fun line hline => (h.printedLine line hline).trimmed.trim_eq,
      List.map_id']
  have hstatements : (printedLines g).filter isStatement = printedLines g :=
    List.filter_eq_self.mpr fun line hline => (h.printedLine line hline).isStatement
  have hnodes : (g.nodes.map nodeText).foldl readLine { Graph.empty with direction := g.direction }
      = { g with edges := [] } := by
    rw [List.foldl_map, List.foldl_ext _ Graph.addNode _ fun g' n hn =>
      readLine_nodeText (h.nodes n hn) g', Graph.foldl_addNode_of_nodup]
    · rfl
    · exact h.wellFormed.nodup
  have hedges : (g.edges.map edgeLine).foldl readLine { g with edges := [] } = g := by
    rw [List.foldl_map, List.foldl_ext _ Graph.addEdge _ fun g' e he => ?_, Graph.foldl_addEdge]
    · rfl
    · obtain ⟨hs, hkey⟩ := h.isId (h.wellFormed.source_mem e he)
      exact readLine_edgeLine hs hkey (h.isId (h.wellFormed.target_mem e he)).1 (h.labels e he) g'
  have hread : (printedLines g).foldl readLine .empty = g := by
    rw [printedLines, List.foldl_cons, readLine_headerText, List.foldl_append, hnodes, hedges]
  rw [readLines, htrim, hstatements, hread]
  exact declareEnds_of_mem fun e he =>
    ⟨h.wellFormed.source_mem e he, h.wellFormed.target_mem e he⟩

theorem Printable.parse_eq (h : Printable g) : parse (some (print g)) = finish .flowchart g := by
  have htext : ['\n'].intercalate (printedLines g) ≠ [] ∧
      Text.Trimmed (['\n'].intercalate (printedLines g)) :=
    Text.trimmed_intercalate (List.cons_ne_nil _ _) fun line hline =>
      ⟨(h.printedLine line hline).ne_nil, (h.printedLine line hline).trimmed⟩
  have hcut : Text.lines (['\n'].intercalate (printedLines g)) = printedLines g :=
    Text.lines_intercalate (List.cons_ne_nil _ _) fun line hline =>
      ⟨(h.printedLine line hline).feed, (h.printedLine line hline).carriage⟩
  have hlines : sourceLines (some (print g)) = .ok (printedLines g) := by
    rw [sourceLines_eq, Option.getD_some, print, String.toList_ofList, htext.2.trim_eq,
      if_neg htext.1, hcut]
  rw [parse, hlines]
  change finish .flowchart (readLines (printedLines g)) = _
  rw [h.readLines_eq]

/-- A printed graph with nodes reads back as it was. -/
theorem parse_print (h : Printable g) (hne : g.nodes ≠ []) : parse (some (print g)) = .ok g := by
  rw [h.parse_eq, finish_of_wellFormed h.wellFormed, if_neg hne]

/-- Two questions, with a node of each shape and an edge of each kind. -/
def questions : Graph where
  direction := .lr
  nodes := [{ id := "start", label := "Start", shape := .rounded },
    { id := "in-1", label := "Read input", shape := .parallelogram },
    { id := "q1", label := "Valid", shape := .diamond },
    { id := "q_2", label := "Again", shape := .diamond },
    { id := "log", label := "log" },
    { id := "end", label := "Done", shape := .circle }]
  edges := [{ source := "start", target := "in-1" },
    { source := "in-1", target := "q1", kind := .thick },
    { source := "q1", target := "end", label := "yes" },
    { source := "q1", target := "q_2", label := "not yet" },
    { source := "q_2", target := "q_2", label := "2 times", kind := .dotted },
    { source := "q_2", target := "log", kind := .dotted }]

theorem parse_print_questions : Printable questions ∧ questions.nodes ≠ [] ∧
    parse (some (print questions)) = .ok questions :=
  ⟨by decide +kernel, by decide, parse_print (by decide +kernel) (by decide)⟩

/-- The graph without nodes can be printed, but its header alone is refused. -/
theorem parse_print_empty : Printable .empty ∧
    parse (some (print .empty)) = .error (.noNodes .flowchart) := by
  have hempty : Printable .empty := by decide
  exact ⟨hempty, hempty.parse_eq⟩

end Whiteboard.Diagram.Flowchart

import Whiteboard.Proofs.Diagram.Flowchart.Statement

/-!
# Labels in flowcharts

Declarations are taken out of a whole line before anything else in it is read, longer brackets
first. So text inside a label is nothing but text if no declaration stands in it, and of a label
between bars the bare ids stay (`Flowchart.parse_edgeText`). A label in brackets is left alone
exactly if no brackets that are looked for earlier stand in it
(`Flowchart.parse_declarationText_iff`). Both together are `Flowchart.inert_of_not_standsIn`.
-/

namespace Whiteboard.Diagram.Flowchart

variable {id label : List Char} {b e : Bracket} {earlier later : List Bracket}

/-! ## Labels between bars -/

section Bars

variable {source operator target : List Char} {kind : EdgeKind}

theorem allDeclarations_edgeText (hs : IsId source) (ht : IsId target)
    (ho : (operator, kind) ∈ operators) (hlabel : label ≠ []) :
    allDeclarations (edgeText source operator label target)
      = (edgeText source operator (allDeclarations label).1 target, (allDeclarations label).2) := by
  have hspace : ' ' ∉ marks := by decide
  have hfront : ∀ c ∈ source ++ ' ' :: operator, c ∉ marks :=
    List.forall_mem_append.mpr ⟨fun _ => hs.not_mem_marks,
      List.forall_mem_cons.mpr ⟨hspace, not_mem_marks_of_operator _ ho⟩⟩
  have hback : ∀ c ∈ ' ' :: target, c ∉ marks :=
    List.forall_mem_cons.mpr ⟨hspace, fun _ => ht.not_mem_marks⟩
  have hleft : (allDeclarations label).1 ≠ [] := foldl_takeOut_fst_ne_nil hlabel
  rw [edgeText_of_ne_nil hlabel, edgeText_of_ne_nil hleft, allDeclarations_around hfront hback]

/-- The ends of an edge are declared behind what stands in its line. -/
theorem declareEnds_addEdge (ns : List Node) (e : Edge) {g : Graph}
    (hg : g = (ns.foldl Graph.addNode .empty).addEdge e) :
    declareEnds g g.edges = .ofEdge ns e := by
  have hedges : g.edges = [e] := by rw [hg, Graph.edges_addEdge, Graph.edges_foldl_addNode]; rfl
  have hends : declareEnds g [e] = (g.ensureNode e.source).ensureNode e.target := rfl
  rw [hedges, hends, hg, Graph.ensureNode_addEdge, Graph.ensureNode_addEdge]
  rfl

/-- A label between bars: what is declared in it comes first, and its bare ids stay. -/
theorem parse_edgeText (hs : IsId source) (hkey : ¬ IsKeyword source) (ht : IsId target)
    (ho : (operator, kind) ∈ operators) (hlabel : label ≠ []) (hbar : '|' ∉ label)
    (hline : '\n' ∉ label) :
    parse (some (String.ofList (edgeText source operator label target)))
      = .ok (.ofEdge (allDeclarations label).2 ⟨String.ofList source, String.ofList target,
          String.ofList (Text.trim (allDeclarations label).1), kind⟩) := by
  have hheader := dropKeyword?_edgeText hs hkey operator label target
  have hbar' : '|' ∉ (allDeclarations label).1 := mt mem_of_mem_foldl_takeOut hbar
  generalize he : Edge.mk (String.ofList source) (String.ofList target)
    (String.ofList (Text.trim (allDeclarations label).1)) kind = e
  have hread : readLine .empty (edgeText source operator label target)
      = ((allDeclarations label).2.foldl Graph.addNode .empty).addEdge e := by
    rw [readLine_of_not_header hheader, allDeclarations_edgeText hs ht ho hlabel,
      edges_edgeText hs ht ho hbar', he]
    rfl
  have hfeed : '\n' ∉ edgeText source operator label target :=
    not_mem_edgeText ho (Text.Joined.not_mem hs (by decide) (by decide))
      (Text.Joined.not_mem ht (by decide) (by decide)) hline (by decide)
  obtain ⟨c, cs, hcons, hc⟩ := hs.exists_cons
  have hhead : ∃ c ∈ (edgeText source operator label target).head?, isIdChar c = true :=
    ⟨c, by simp [edgeText, hcons], hc⟩
  rw [parse_line (trimmed_edgeText hs ht _ _) hfeed hhead (declareEnds_addEdge _ e hread),
    if_neg (Graph.nodes_ofEdge_ne_nil _ e)]

end Bars

/-! ## Labels in brackets -/

theorem not_sublist_closing : brackets.Pairwise fun e b => b.opening.length = 1 →
    e.shape = b.shape → ¬ (e.closing.filter (· ∈ b.closing)).Sublist b.closing := by decide

/-- In a declaration, earlier brackets stand in the label and what closes it, or nowhere. -/
theorem Bracket.StandsIn.of_declarationText (hb : brackets = earlier ++ b :: later)
    (he : e ∈ earlier) (hone : b.opening.length = 1) (hid : IsId id)
    (hhead : ∀ c ∈ label.head?, c ∉ marks) (h : e.StandsIn (declarationText b id label)) :
    e.StandsIn (label ++ b.closing) := by
  have hmem : b ∈ brackets := hb ▸ List.mem_append_right _ List.mem_cons_self
  have hmem' : e ∈ brackets := hb ▸ List.mem_append_left _ he
  have hnot : ¬ e.opening <+: b.opening ++ (label ++ b.closing) := by
    simpa using Bracket.not_isPrefix_opening hb he hhead []
  obtain ⟨o, hopening⟩ := List.length_eq_one_iff.mp hone
  have hmark : o ∈ marks := Bracket.mem_marks b hmem o (by simp [hopening])
  obtain ⟨c, text, hc, front, back, hwhole⟩ := h
  have hco : c ≠ o := by
    rintro rfl
    have hstops : Stops [c] := stops_of_mem_marks hmark
    rw [(hstops c rfl).1] at hc
    contradiction
  rw [declarationText, List.append_assoc b.opening, List.append_assoc front,
    List.cons_append] at hwhole
  rcases List.append_eq_append_iff.mp hwhole with ⟨t, hfront, hrest⟩ | ⟨t, hfront, hrest⟩
  · -- the id character stands in the id; behind it the brackets open, in the id or at its end
    cases t with
    | nil =>
      rw [hopening] at hrest
      exact absurd (List.cons.inj hrest).1 hco
    | cons d t =>
      obtain ⟨rfl, hbehind⟩ := List.cons.inj hrest
      rw [List.append_assoc, List.append_assoc] at hbehind
      cases t with
      | nil => exact absurd ⟨_, hbehind⟩ hnot
      | cons x t =>
        obtain ⟨m, ms, hopening', hmark'⟩ := Bracket.exists_opening hmem'
        rw [hopening'] at hbehind
        have hx : m = x := (List.cons.inj hbehind).1
        exact absurd hmark' (hid.not_mem_marks (by simp [hfront, hx]))
  · rw [hopening] at hrest
    cases t with
    | nil => exact absurd (List.cons.inj hrest).1.symm hco
    | cons x t =>
      obtain ⟨-, hbehind⟩ := List.cons.inj hrest
      exact ⟨c, text, hc, t, back, by simpa using hbehind.symm⟩

/-- Earlier brackets of the same shape are closed twice by what closes a declaration once. -/
theorem shape_ne_of_standsIn (hb : brackets = earlier ++ b :: later) (he : e ∈ earlier)
    (hone : b.opening.length = 1) (hlabel : ∀ c ∈ b.closing, c ∉ label)
    (h : e.StandsIn (label ++ b.closing)) : e.shape ≠ b.shape := by
  intro hshape
  refine Text.rel_of_pairwise not_sublist_closing hb he hone hshape ?_
  have hsub : e.closing.Sublist (label ++ b.closing) := by
    obtain ⟨c, text, -, hinfix⟩ := h
    have hpart : e.closing.Sublist (c :: (e.opening ++ text ++ e.closing)) :=
      .trans (List.sublist_append_right _ _) (List.sublist_cons_self _ _)
    exact hpart.trans hinfix.sublist
  have hleft : label.filter (· ∈ b.closing) = [] :=
    List.filter_eq_nil_iff.mpr fun c hc => by simpa using fun hmem => hlabel c hmem hc
  have hright : b.closing.filter (· ∈ b.closing) = b.closing :=
    List.filter_eq_self.mpr fun c hc => by simpa using hc
  have hfilter := hsub.filter (· ∈ b.closing)
  rwa [List.filter_append, hleft, hright, List.nil_append] at hfilter

/-- A line that is one declaration, before the ends of its edges are declared. -/
theorem parse_line_declarationText (hb : b ∈ brackets) (hid : IsId id) (hline : '\n' ∉ label)
    {g : Graph} (hg : declareEnds (readLine .empty (declarationText b id label))
      (readLine .empty (declarationText b id label)).edges = g) (hne : g.nodes ≠ []) :
    parse (some (String.ofList (declarationText b id label))) = .ok g := by
  obtain ⟨c, cs, hcons, hc⟩ := hid.exists_cons
  have hhead : ∃ c ∈ (declarationText b id label).head?, isIdChar c = true :=
    ⟨c, by simp [declarationText, hcons], hc⟩
  have hfeed : '\n' ∉ declarationText b id label :=
    not_mem_declarationText hb (Text.Joined.not_mem hid (by decide) (by decide)) hline (by decide)
  rw [parse_line (trimmed_declarationText hb hid label) hfeed hhead hg, if_neg hne]

theorem parse_declarationText (hb : brackets = earlier ++ b :: later) (hid : IsId id)
    (hline : '\n' ∉ label) (hlabel : ∀ c ∈ b.closing, c ∉ label)
    (hearlier : ∀ e ∈ earlier, ¬ e.StandsIn (declarationText b id label)) :
    parse (some (String.ofList (declarationText b id label)))
      = .ok { nodes := [b.node id label] } := by
  have hmem : b ∈ brackets := hb ▸ List.mem_append_right _ List.mem_cons_self
  have hread : readLine .empty (declarationText b id label) = { nodes := [b.node id label] } := by
    have hdeclared : allDeclarations (declarationText b id label) = (id, [b.node id label]) :=
      allDeclarations_bracketed hb hid (fun m hm => hlabel m (List.mem_of_mem_head? hm)) hearlier
    rw [readLine_of_not_header (dropKeyword?_declarationText hmem hid label), hdeclared,
      edges_of_not_mem hid.arrow_not_mem]
    rfl
  exact parse_line_declarationText hmem hid hline (by rw [hread]; rfl) (List.cons_ne_nil _ _)

/-- Earlier brackets in a declaration make the first node. -/
theorem exists_parse_declarationText (hb : brackets = earlier ++ b :: later) (hid : IsId id)
    (hline : '\n' ∉ label) (he : e ∈ earlier) (h : e.StandsIn (declarationText b id label)) :
    ∃ g n, ∃ f ∈ earlier, parse (some (String.ofList (declarationText b id label))) = .ok g ∧
      g.nodes.head? = some n ∧ n.shape = f.shape ∧ f.StandsIn (declarationText b id label) := by
  classical
  have hmem : b ∈ brackets := hb ▸ List.mem_append_right _ List.mem_cons_self
  have hsome : (earlier.find? fun k => decide (k.StandsIn (declarationText b id label))).isSome :=
    List.find?_isSome.mpr ⟨e, he, decide_eq_true h⟩
  obtain ⟨f, hfind⟩ := Option.isSome_iff_exists.mp hsome
  obtain ⟨hf, before, behind, rfl, hbefore⟩ := List.find?_eq_some_iff_append.mp hfind
  have hf : f.StandsIn (declarationText b id label) := of_decide_eq_true hf
  rw [List.append_assoc, List.cons_append] at hb
  obtain ⟨n, ns, hdeclared, hshape⟩ := exists_cons_allDeclarations hb
    (fun k hk => by simpa using hbefore k hk) hf
  generalize hread : readLine .empty (declarationText b id label) = g
  have hfront : [n] <+: (declareEnds g g.edges).nodes := by
    refine .trans ?_ (isPrefix_declareEnds g g.edges)
    rw [← hread, readLine_of_not_header (dropKeyword?_declarationText hmem hid label), hdeclared,
      Graph.nodes_foldl_addEdge]
    exact Graph.isPrefix_foldl_addNode (Graph.empty.addNode n) ns
  obtain ⟨more, hmore⟩ := hfront
  refine ⟨_, n, f, by simp, parse_line_declarationText hmem hid hline rfl ?_, ?_, hshape, hf⟩
  · rw [hread, ← hmore]
    exact List.cons_ne_nil _ _
  · rw [hread, ← hmore]
    rfl

/-- A declaration declares its own node and no other exactly if no earlier brackets stand in its
label and what closes it. -/
theorem parse_declarationText_iff (hb : brackets = earlier ++ b :: later)
    (hone : b.opening.length = 1) (hid : IsId id) (hline : '\n' ∉ label)
    (hlabel : ∀ c ∈ b.closing, c ∉ label) (hhead : ∀ c ∈ label.head?, c ∉ marks) :
    parse (some (String.ofList (declarationText b id label)))
      = .ok { nodes := [b.node id label] } ↔
      ∀ e ∈ earlier, ¬ e.StandsIn (label ++ b.closing) := by
  constructor
  · intro hparse e he hstands
    have hinfix : label ++ b.closing <:+: declarationText b id label :=
      ⟨id ++ b.opening, [], by simp [declarationText]⟩
    obtain ⟨g, n, f, hf, hparse', hn, hshape, hstands⟩ :=
      exists_parse_declarationText hb hid hline he (hstands.mono hinfix)
    rw [hparse] at hparse'
    cases hparse'
    cases hn
    exact shape_ne_of_standsIn hb hf hone hlabel (hstands.of_declarationText hb hf hone hid hhead)
      hshape.symm
  · intro hearlier
    exact parse_declarationText hb hid hline hlabel fun e he hstands =>
      hearlier e he (hstands.of_declarationText hb he hone hid hhead)

/-! ## Inert labels -/

/-- Labels are nothing but text, as far as no declaration stands in them. -/
theorem inert_of_not_standsIn :
    (∀ (source operator label target : List Char) (kind : EdgeKind), IsId source →
      ¬ IsKeyword source → IsId target → (operator, kind) ∈ operators → label ≠ [] →
      '|' ∉ label → '\n' ∉ label →
        parse (some (String.ofList (edgeText source operator label target)))
          = .ok (.ofEdge (allDeclarations label).2 ⟨String.ofList source, String.ofList target,
            String.ofList (Text.trim (allDeclarations label).1), kind⟩) ∧
        ((∀ b ∈ brackets, ¬ b.StandsIn label) →
          parse (some (String.ofList (edgeText source operator label target)))
            = .ok {
              nodes := if source = target then [.bare (String.ofList source)]
                else [.bare (String.ofList source), .bare (String.ofList target)]
              edges := [⟨String.ofList source, String.ofList target,
                String.ofList (Text.trim label), kind⟩] })) ∧
    ∀ (earlier : List Bracket) (b : Bracket) (later : List Bracket) (id label : List Char),
      brackets = earlier ++ b :: later → b.opening.length = 1 → IsId id → '\n' ∉ label →
      (∀ c ∈ b.closing, c ∉ label) → (∀ c ∈ label.head?, c ∉ marks) →
        (parse (some (String.ofList (declarationText b id label)))
          = .ok { nodes := [b.node id label] } ↔
          ∀ e ∈ earlier, ¬ e.StandsIn (label ++ b.closing)) := by
  refine ⟨fun source operator label target kind hs hkey ht ho hlabel hbar hline => ?_,
    fun _ _ _ _ _ hb hone hid hline hlabel hhead =>
      parse_declarationText_iff hb hone hid hline hlabel hhead⟩
  have hparse := parse_edgeText hs hkey ht ho hlabel hbar hline
  refine ⟨hparse, fun hnot => ?_⟩
  rw [hparse, allDeclarations_of_not_standsIn hnot, Graph.ofEdge_nil]
  simp only [String.ofList_inj]

theorem inert_of_not_standsIn_checks :
    parse (some "check-1 -.->| [b] (--> c)| Check-2") = .ok {
      nodes := [.bare "check-1", .bare "Check-2"]
      edges := [⟨"check-1", "Check-2", "[b] (--> c)", .dotted⟩] } ∧
    parse (some "graph\x7bfree -->|x| ((y)) \x7d") = .ok {
      nodes := [{ id := "graph", label := "free -->|x| ((y))", shape := .diamond }] } := by
  have hopen : ∀ e ∈ brackets, " [b] (--> c)".toList.IsChain fun c d =>
      isIdChar c = true → e.opening.head? ≠ some d := by decide
  have hopen' : ∀ e ∈ brackets, "free -->|x| ((y)) \x7d".toList.IsChain fun c d =>
      isIdChar c = true → e.opening.head? ≠ some d := by decide
  refine ⟨?_, ?_⟩
  · exact (inert_of_not_standsIn.1 "check-1".toList ['-', '.', '-', '>'] " [b] (--> c)".toList
      "Check-2".toList .dotted (by decide) (by decide) (by decide) (by decide) (by decide)
      (by decide) (by decide)).2 fun b hb => Bracket.not_standsIn_of_isChain hb (hopen b hb)
  · refine (inert_of_not_standsIn.2 (brackets.take 6) ⟨['\x7b'], ['\x7d'], .diamond⟩
      (brackets.drop 7) "graph".toList "free -->|x| ((y)) ".toList rfl (by decide) (by decide)
      (by decide) (by decide) (by decide)).mpr fun e he => ?_
    have hmem : e ∈ brackets := List.mem_of_mem_take he
    exact Bracket.not_standsIn_of_isChain hmem (hopen' e hmem)

/-- A declaration between bars, a header in another case, and a declaration in brackets. -/
theorem declared_in_label :
    parse (some "A -->|x[y]| B") = .ok {
      nodes := [{ id := "x", label := "y" }, .bare "A", .bare "B"]
      edges := [{ source := "A", target := "B", label := "x" }] } ∧
    parse (some "Graph -->|yes| B") = .error (.noNodes .flowchart) ∧
    parse (some "A\x7bsee B[1]\x7d") ≠ .ok {
      nodes := [{ id := "A", label := "see B[1]", shape := .diamond }] } := by
  have hA : IsId ['A'] := by decide
  have hB : IsId ['B'] := by decide
  refine ⟨?_, ?_, fun hparse => ?_⟩
  · have hb : brackets = brackets.take 5 ++ ⟨['['], [']'], .rectangle⟩ :: brackets.drop 6 := rfl
    have hx : IsId ['x'] := by decide
    have hclosing : ∀ m ∈ [']'].head?, m ∉ ['y'] := by decide
    have hearlier : ∀ e ∈ brackets.take 5, ¬ e.StandsIn "x[y]".toList := by
      have hnot : ∀ e ∈ brackets.take 5,
          ¬ (e.opening ++ e.closing).Sublist ("x[y]".toList.filter (· ∈ marks)) := by decide
      exact fun e he hstands => hnot e he (hstands.sublist_filter (List.mem_of_mem_take he))
    have hdeclared : allDeclarations "x[y]".toList = (['x'], [{ id := "x", label := "y" }]) :=
      allDeclarations_bracketed hb hx hclosing hearlier
    have hoperator : (['-', '-', '>'], EdgeKind.arrow) ∈ operators := by decide
    have hbar : '|' ∉ "x[y]".toList := by decide
    have hparse := parse_edgeText hA (by decide) hB hoperator (by decide) hbar (by decide)
    rw [hdeclared] at hparse
    exact hparse
  · have hheader : readHeader "Graph -->|yes| B".toList = (none, "-->|yes| B".toList) := by decide
    have hdeclared : allDeclarations "-->|yes| B".toList = ("-->|yes| B".toList, []) :=
      allDeclarations_of_not_standsIn fun b hb => Bracket.not_standsIn_of_unmarked hb (by decide)
    have hedges : edges "-->|yes| B".toList = [] := by
      change edges ('-' :: '-' :: '>' :: "|yes| B".toList) = []
      rw [edges_of_none rfl, edges_of_none rfl, edges_of_none rfl, edges_of_not_mem (by decide)]
    have hread : readLine .empty "Graph -->|yes| B".toList = .empty := by
      simp only [readLine, hheader, hdeclared, hedges]
      rfl
    have htrim : Text.Trimmed "Graph -->|yes| B".toList := ⟨by decide, by decide⟩
    exact parse_line htrim (by decide) ⟨'G', rfl, by decide⟩ (by rw [hread])
  · have hb : brackets = brackets.take 6 ++ ⟨['\x7b'], ['\x7d'], .diamond⟩ :: brackets.drop 7 := rfl
    have hline : '\n' ∉ "see B[1]".toList := by decide
    have hnot := (parse_declarationText_iff hb rfl hA hline (by decide) (by decide)).mp hparse
    exact hnot ⟨['['], [']'], .rectangle⟩ (by simp [brackets]) ⟨'B', ['1'], by decide, by decide⟩

end Whiteboard.Diagram.Flowchart

import Mathlib.Data.Finset.Card
import Mathlib.Data.Finset.Dedup
import Whiteboard.Proofs.Graph.WellFormed

/-!
# Counted errors

Each node whose id an earlier node has is one error, and so is each end of an edge that no node
has for its id. A graph with nodes is valid exactly if it is well formed; one without nodes always
is, whatever its edges (`Graph.summary_findings`).
-/

namespace Whiteboard.Graph

/-- The ends of the edges that are the id of no node, once for each edge that has them. -/
def danglingEnds (g : Graph) : List String :=
  (g.edges.flatMap fun e => [e.source, e.target]).filter fun id => id ∉ g.nodeIds

/-- How many nodes there are to an id that has a node already. -/
def repetitions (g : Graph) : Nat := g.nodes.length - g.nodeIds.toFinset.card

/-- How many of some findings are errors. -/
def errorsIn (fs : List Finding) : Nat := fs.countP (·.severity = .error)

theorem errorsIn_append (fs fs' : List Finding) :
    errorsIn (fs ++ fs') = errorsIn fs + errorsIn fs' := List.countP_append

/-! ## Repeated ids -/

/-- All nodes but the first one of each new id are found. -/
theorem length_repeatedIds_add (seen : List String) (ns : List Node) :
    (repeatedIds seen ns).length + ((ns.map (·.id)).toFinset \ seen.toFinset).card = ns.length := by
  induction ns generalizing seen with
  | nil => simp [repeatedIds]
  | cons n ns ih =>
    have hrest := ih (n.id :: seen)
    rw [List.toFinset_cons] at hrest
    rw [repeatedIds, List.length_append, List.map_cons, List.toFinset_cons, List.length_cons]
    by_cases hn : n.id ∈ seen
    · have hmem : n.id ∈ seen.toFinset := List.mem_toFinset.mpr hn
      rw [Finset.insert_eq_of_mem hmem] at hrest
      rw [if_pos hn, Finset.insert_sdiff_of_mem _ hmem, List.length_singleton]
      omega
    · have hsplit : insert n.id (ns.map (·.id)).toFinset \ seen.toFinset
          = insert n.id ((ns.map (·.id)).toFinset \ insert n.id seen.toFinset) := by
        ext id
        by_cases hid : id = n.id
        · simp [hid, hn]
        · simp [hid]
      rw [if_neg hn, hsplit, Finset.card_insert_of_notMem (by simp), List.length_nil]
      omega

theorem errorsIn_repeatedIds (g : Graph) : errorsIn (repeatedIds [] g.nodes) = g.repetitions := by
  have hall : errorsIn (repeatedIds [] g.nodes) = (repeatedIds [] g.nodes).length :=
    List.countP_eq_length.mpr fun f hf => decide_eq_true (severity_of_mem_repeatedIds hf)
  have hlength := length_repeatedIds_add [] g.nodes
  rw [List.toFinset_nil, Finset.sdiff_empty] at hlength
  rw [hall, repetitions, nodeIds]
  omega

/-! ## Dangling ends -/

theorem errorsIn_edgeFindings (ids : List String) (seen : List (String × String)) (i : Nat)
    (e : Edge) : errorsIn (edgeFindings ids seen i e)
      = ([e.source, e.target].filter fun id => id ∉ ids).length := by
  have hloop : errorsIn (if e.source = e.target then [.loop i e.source] else []) = 0 := by
    split <;> rfl
  have hparallel : errorsIn (if (e.source, e.target) ∈ seen then
      [.parallel i e.source e.target] else []) = 0 := by
    split <;> rfl
  rw [edgeFindings, errorsIn_append, errorsIn_append, errorsIn_append, hloop, hparallel]
  by_cases hs : e.source ∈ ids <;> by_cases ht : e.target ∈ ids <;> simp [hs, ht] <;> rfl

/-- Each end is looked up once, whatever stands before it. -/
theorem errorsIn_edgesFindings (ids : List String) (seen : List (String × String)) (i : Nat)
    (es : List Edge) : errorsIn (edgesFindings ids seen i es)
      = ((es.flatMap fun e => [e.source, e.target]).filter fun id => id ∉ ids).length := by
  induction es generalizing seen i with
  | nil => rfl
  | cons e es ih =>
    rw [edgesFindings, errorsIn_append, errorsIn_edgeFindings, ih, List.flatMap_cons,
      List.filter_append, List.length_append]

/-! ## All findings -/

theorem errorsIn_findings {g : Graph} (hne : g.nodes ≠ []) :
    errorsIn g.findings = g.repetitions + g.danglingEnds.length := by
  have hunconnected : errorsIn (if g.unconnectedIds.isEmpty || g.edges.isEmpty then []
      else [.unconnected g.unconnectedIds]) = 0 := by
    split <;> rfl
  rw [findings, if_neg (by simpa using hne)]
  dsimp only
  rw [errorsIn_append, errorsIn_append, errorsIn_repeatedIds, errorsIn_edgesFindings, hunconnected]
  rfl

/-- A graph is valid if it is well formed, or if it has no nodes at all, and each repetition of an
id and each dangling end is one error, the ends apart where there are no nodes. -/
theorem summary_findings (g : Graph) :
    let summary := FindingSummary.ofList g.findings
    (summary.valid = true ↔ g.WellFormed ∨ g.nodes = []) ∧
      summary.errors = g.repetitions + if g.nodes = [] then 0 else g.danglingEnds.length := by
  intro summary
  have hvalid : summary.valid = true ↔ errorsIn g.findings = 0 := decide_eq_true_iff
  have herrors : summary.errors = errorsIn g.findings := rfl
  rw [hvalid, herrors]
  by_cases hne : g.nodes = []
  · -- the search ends before it comes to the edges
    have hnone : g.findings = [.noNodes] := if_pos (by rw [hne]; rfl)
    have hids : g.repetitions = 0 := by rw [repetitions, hne, List.length_nil, Nat.zero_sub]
    rw [hnone, if_pos hne, hids]
    exact ⟨iff_of_true rfl (.inr hne), rfl⟩
  · have hfree : errorsIn g.findings = 0 ↔ g.WellFormed := by
      rw [wellFormed_iff_findings hne, errorsIn, List.countP_eq_zero]
      simp only [decide_eq_true_eq, ne_eq]
    rw [hfree, if_neg hne, errorsIn_findings hne]
    exact ⟨(or_iff_left hne).symm, rfl⟩

/-- An edge without nodes has two dangling ends, and passes. -/
theorem summary_findings_edge :
    let g : Graph := { edges := [⟨"a", "b", "", .arrow⟩] }
    ¬ g.WellFormed ∧ g.repetitions = 0 ∧ g.danglingEnds = ["a", "b"] ∧
      FindingSummary.ofList g.findings = ⟨1, 0, 0, 1, true⟩ := by decide

end Whiteboard.Graph

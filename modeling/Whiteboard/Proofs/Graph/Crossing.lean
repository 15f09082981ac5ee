import Mathlib
import Whiteboard.Proofs.Graph.Layout

/-!
# The order that sweeps lead to

The sweeps against crossings sort each layer by the mean place of its nodes' neighbors in the layer
beside it, and by id where means agree, so that the ids of a layer tell the order in which it comes
out. After any number of sweeps each layer stands in the order that the one behind it asks for, and
neither the order of the edges nor that of the layers behind the first one counts
(`Graph.settled_reduceCrossings`).
-/

namespace Whiteboard

namespace Graph

variable {g g' : Graph}

/-! ## Means -/

/-- The mean that is meant; no mean is above all others. -/
def Barycenter.value (b : Barycenter) : WithTop ℚ :=
  if b.count = 0 then ⊤ else ((b.total / b.count : ℚ) : WithTop ℚ)

theorem Barycenter.lt_iff (a b : Barycenter) : a.lt b = true ↔ a.value < b.value := by
  unfold lt value
  by_cases ha : a.count = 0
  · simp [ha]
  by_cases hb : b.count = 0
  · simp [ha, hb, WithTop.coe_lt_top]
  have ha' : (0 : ℚ) < a.count := by exact_mod_cast Nat.pos_of_ne_zero ha
  have hb' : (0 : ℚ) < b.count := by exact_mod_cast Nat.pos_of_ne_zero hb
  rw [if_neg ha, if_neg hb, if_neg ha, if_neg hb, WithTop.coe_lt_coe, div_lt_div_iff₀ ha' hb',
    decide_eq_true_iff]
  exact_mod_cast Iff.rfl

theorem Barycenter.of_perm {positions positions' : List Nat} (h : positions.Perm positions') :
    Barycenter.of positions = Barycenter.of positions' := by
  rw [of, of, ← List.sum_eq_foldl, ← List.sum_eq_foldl, h.sum_eq, h.length_eq]

/-- What the nodes of a layer are sorted by. -/
def sortKey (mean : String → Barycenter) (id : String) : WithTop ℚ ×ₗ String :=
  toLex ((mean id).value, id)

theorem sortKey_injective (mean : String → Barycenter) : Function.Injective (sortKey mean) := by
  intro a b h
  exact congrArg (fun key => (ofLex key).2) h

theorem precedes_iff (mean : String → Barycenter) (a b : String) :
    precedes mean a b = true ↔ sortKey mean a ≤ sortKey mean b := by
  rw [sortKey, sortKey, Prod.Lex.toLex_le_toLex]
  unfold precedes
  by_cases hlt : (mean a).value < (mean b).value
  · rw [if_pos ((Barycenter.lt_iff _ _).mpr hlt)]
    exact iff_of_true rfl (.inl hlt)
  rw [if_neg (mt (Barycenter.lt_iff _ _).mp hlt)]
  by_cases hgt : (mean b).value < (mean a).value
  · rw [if_pos ((Barycenter.lt_iff _ _).mpr hgt)]
    refine iff_of_false Bool.false_ne_true ?_
    rintro (h | ⟨h, -⟩)
    · exact hlt h
    · exact hgt.ne' h
  rw [if_neg (mt (Barycenter.lt_iff _ _).mp hgt), decide_eq_true_iff]
  have heq : (mean a).value = (mean b).value := le_antisymm (not_lt.mp hgt) (not_lt.mp hlt)
  constructor
  · intro h
    exact .inr ⟨heq, h⟩
  · rintro (h | ⟨-, h⟩)
    · exact absurd h hlt
    · exact h

/-! ## One layer -/

section Reorder

variable {neighbors neighbors' : String → List String} {beside layer layer' : List String}

theorem pairwise_reorder (neighbors : String → List String) (beside layer : List String) :
    (reorder neighbors beside layer).Pairwise fun a b =>
      sortKey (barycenter neighbors beside) a ≤ sortKey (barycenter neighbors beside) b := by
  have hsorted : (reorder neighbors beside layer).Pairwise fun a b =>
      precedes (barycenter neighbors beside) a b = true := by
    refine List.pairwise_mergeSort (fun a b c hab hbc => ?_) (fun a b => ?_) layer
    · rw [precedes_iff] at hab hbc ⊢
      exact hab.trans hbc
    · rw [Bool.or_eq_true, precedes_iff, precedes_iff]
      exact le_total _ _
  exact hsorted.imp fun h => (precedes_iff _ _ _).mp h

theorem barycenter_congr (h : ∀ id, (neighbors id).Perm (neighbors' id)) (beside : List String) :
    barycenter neighbors beside = barycenter neighbors' beside := by
  funext id
  exact Barycenter.of_perm ((h id).filterMap _)

/-- The ids of a layer and the neighbors of each, in any order, tell how the layer comes out. -/
theorem reorder_congr (h : ∀ id, (neighbors id).Perm (neighbors' id)) (hlayer : layer.Perm layer')
    (beside : List String) : reorder neighbors beside layer = reorder neighbors' beside layer' := by
  have hsorted := pairwise_reorder neighbors beside layer
  have hsorted' := pairwise_reorder neighbors' beside layer'
  rw [← barycenter_congr h] at hsorted'
  have hperm : (reorder neighbors beside layer).Perm (reorder neighbors' beside layer') :=
    (perm_reorder _ _ _).symm.trans (hlayer.trans (perm_reorder _ _ _))
  refine hperm.eq_of_pairwise (fun a b _ _ hab hba => ?_) hsorted hsorted'
  exact sortKey_injective _ (le_antisymm hab hba)

end Reorder

/-! ## Layers behind one another -/

/-- The mean place, in the layer behind, of the nodes there to which a node's edges lead. Where
there are none it is above all others. -/
def meanPlace (g : Graph) (behind : List String) (id : String) : WithTop ℚ :=
  let places := (g.successors id).filterMap behind.idxOf?
  if places = [] then ⊤ else ((places.sum / places.length : ℚ) : WithTop ℚ)

/-- A layer stands in the order that the one behind it asks for. -/
structure Settled (g : Graph) (layer behind : List String) : Prop where
  sorted : layer.Pairwise fun a b =>
    g.meanPlace behind a < g.meanPlace behind b
      ∨ g.meanPlace behind a = g.meanPlace behind b ∧ a ≤ b
  /-- Behind a node that no edge of its own leads on from stand only such nodes. -/
  last : layer.Pairwise fun a b =>
    (∀ t ∈ g.successors a, t ∉ behind) → ∀ t ∈ g.successors b, t ∉ behind

theorem lastIndex?_eq_none {layer : List String} {id : String} (h : id ∉ layer) (start : Nat) :
    lastIndex? id start layer = none := by
  induction layer generalizing start with
  | nil => rfl
  | cons x rest ih =>
    rw [List.mem_cons, not_or] at h
    rw [lastIndex?, ih h.2, Option.none_or, if_neg (Ne.symm h.1)]

/-- Where no id is repeated, its last place is its first. -/
theorem lastIndex?_eq_idxOf? {layer : List String} (h : layer.Nodup) (id : String) (start : Nat) :
    lastIndex? id start layer = (layer.idxOf? id).map (· + start) := by
  induction layer generalizing start with
  | nil => rfl
  | cons x rest ih =>
    rw [List.nodup_cons] at h
    rw [lastIndex?, List.idxOf?_cons]
    by_cases hx : x = id
    · subst hx
      rw [lastIndex?_eq_none h.1, if_pos rfl, if_pos (beq_self_eq_true x)]
      simp
    · rw [ih h.2, if_neg hx, if_neg (by simpa using hx), Option.or_none, Option.map_map]
      congr 1
      funext i
      simp only [Function.comp_apply]
      omega

theorem value_barycenter {behind : List String} (h : behind.Nodup) (id : String) :
    (barycenter g.successors behind id).value = g.meanPlace behind id := by
  have hplaces : (fun t => lastIndex? t 0 behind) = behind.idxOf? := by
    funext t
    rw [lastIndex?_eq_idxOf? h]
    simp
  rw [barycenter, hplaces, Barycenter.of, Barycenter.value, meanPlace, ← List.sum_eq_foldl]
  simp only [List.length_eq_zero_iff]

theorem meanPlace_eq_top_iff {behind : List String} {id : String} :
    g.meanPlace behind id = ⊤ ↔ ∀ t ∈ g.successors id, t ∉ behind := by
  have hnone : (g.successors id).filterMap behind.idxOf? = []
      ↔ ∀ t ∈ g.successors id, t ∉ behind := by
    rw [List.filterMap_eq_nil_iff]
    simp only [List.idxOf?_eq_none_iff]
  rw [← hnone, meanPlace]
  split
  · next h => exact iff_of_true rfl h
  · next h => exact iff_of_false (WithTop.coe_ne_top) h

theorem settled_reorder {behind : List String} (h : behind.Nodup) (layer : List String) :
    g.Settled (reorder g.successors behind layer) behind := by
  have hsorted : (reorder g.successors behind layer).Pairwise fun a b =>
      g.meanPlace behind a < g.meanPlace behind b
        ∨ g.meanPlace behind a = g.meanPlace behind b ∧ a ≤ b := by
    refine (pairwise_reorder g.successors behind layer).imp fun {a b} hab => ?_
    rw [sortKey, sortKey, Prod.Lex.toLex_le_toLex] at hab
    simpa only [value_barycenter h] using hab
  refine ⟨hsorted, hsorted.imp fun {a b} hab ha => ?_⟩
  rw [← meanPlace_eq_top_iff] at ha ⊢
  rw [ha] at hab
  obtain hlt | ⟨heq, -⟩ := hab
  · exact absurd hlt not_top_lt
  · exact heq.symm

/-! ## Sweeps -/

theorem SameLayers.nodup {ls ls' : List (List String)} (h : SameLayers ls ls')
    (hnodup : ∀ layer ∈ ls, layer.Nodup) : ∀ layer ∈ ls', layer.Nodup := by
  induction h with
  | nil => exact hnodup
  | cons hperm _ ih =>
    rw [List.forall_mem_cons] at hnodup ⊢
    exact ⟨hperm.nodup_iff.mp hnodup.1, ih hnodup.2⟩

/-- A sweep up sorts a layer by the one behind it after that one has come into its last place. -/
theorem isChain_sweepUp {layers : List (List String)} (h : ∀ layer ∈ layers, layer.Nodup) :
    (g.sweepUp layers).IsChain g.Settled := by
  induction layers with
  | nil => exact .nil
  | cons layer rest ih =>
    rw [List.forall_mem_cons] at h
    have hchain := ih h.2
    have hnodup := (sameLayers_sweepUp g rest).nodup h.2
    rw [sweepUp]
    split
    · exact .singleton layer
    · next behind more hcons =>
      rw [hcons] at hchain hnodup
      exact .cons_cons (settled_reorder (hnodup behind List.mem_cons_self) layer) hchain

theorem reduceCrossings_succ (g : Graph) (layers : List (List String)) (n : Nat) :
    g.reduceCrossings layers (n + 1) = g.sweepUp (g.sweepDown (g.reduceCrossings layers n)) := by
  induction n generalizing layers with
  | zero => rfl
  | succ n ih => exact ih (g.sweepUp (g.sweepDown layers))

section Edges

variable (hedges : g.edges.Perm g'.edges) {first : List String} {rest rest' : List (List String)}

include hedges

theorem successors_perm (id : String) : (g.successors id).Perm (g'.successors id) :=
  (hedges.filter _).map _

theorem predecessors_perm (id : String) : (g.predecessors id).Perm (g'.predecessors id) :=
  (hedges.filter _).map _

theorem sweepDownFrom_congr (h : SameLayers rest rest') (before : List String) :
    g.sweepDownFrom before rest = g'.sweepDownFrom before rest' := by
  induction h generalizing before with
  | nil => rfl
  | cons hperm _ ih =>
    rw [sweepDownFrom, sweepDownFrom, reorder_congr (predecessors_perm hedges) hperm before]
    exact congrArg _ (ih _)

/-- A sweep down forgets in which order the layers behind the first one stood. -/
theorem sweepDown_congr (h : SameLayers rest rest') :
    g.sweepDown (first :: rest) = g'.sweepDown (first :: rest') :=
  congrArg (first :: ·) (sweepDownFrom_congr hedges h first)

theorem sweepUp_congr (layers : List (List String)) : g.sweepUp layers = g'.sweepUp layers := by
  induction layers with
  | nil => rfl
  | cons layer rest ih =>
    rw [sweepUp, sweepUp, ih]
    cases g'.sweepUp rest with
    | nil => rfl
    | cons behind more =>
      exact congrArg (· :: _) (reorder_congr (successors_perm hedges) (.refl layer) behind)

theorem reduceCrossings_congr (layers : List (List String)) (n : Nat) :
    g.reduceCrossings layers n = g'.reduceCrossings layers n := by
  induction n generalizing layers with
  | zero => rfl
  | succ n ih =>
    have hdown : g.sweepDown layers = g'.sweepDown layers := by
      cases layers with
      | nil => rfl
      | cons first rest => exact sweepDown_congr hedges (.refl rest)
    rw [reduceCrossings, reduceCrossings, ih, hdown, sweepUp_congr hedges]

end Edges

/-- What sweeps lead to: layers of the same nodes, each but the last in the order that the one
behind it asks for. Of the edges only the multiset counts, and of the layers behind the first one
only which nodes they hold. -/
theorem settled_reduceCrossings (g : Graph) {layers : List (List String)}
    (hnodup : ∀ layer ∈ layers, layer.Nodup) (n : Nat) :
    SameLayers layers (g.reduceCrossings layers (n + 1)) ∧
      (g.reduceCrossings layers (n + 1)).IsChain g.Settled ∧
      ∀ (g' : Graph) layers', g.edges.Perm g'.edges → SameLayers layers layers' →
        layers.head? = layers'.head? →
        g'.reduceCrossings layers' (n + 1) = g.reduceCrossings layers (n + 1) := by
  refine ⟨sameLayers_reduceCrossings g layers (n + 1), ?_, ?_⟩
  · rw [reduceCrossings_succ]
    refine isChain_sweepUp (SameLayers.nodup ?_ hnodup)
    exact (sameLayers_reduceCrossings g layers n).trans (sameLayers_sweepDown g _)
  · intro g' layers' hedges hsame hhead
    rw [← reduceCrossings_congr hedges, reduceCrossings, reduceCrossings]
    cases hsame with
    | nil => rfl
    | cons _ hrest =>
      cases hhead
      rw [sweepDown_congr (.refl _) hrest]

/-- Three layers with crossing edges, a doubled one among them, and a node without an edge. -/
theorem settled_reduceCrossings_crossed :
    let g : Graph :=
      { nodes := []
        edges := [⟨"a", "z", "", .arrow⟩, ⟨"b", "x", "", .arrow⟩, ⟨"b", "z", "", .arrow⟩,
          ⟨"a", "z", "again", .dotted⟩, ⟨"x", "q", "", .arrow⟩, ⟨"z", "p", "", .arrow⟩] }
    let layers := [["b", "c", "a"], ["x", "y", "z"], ["q", "p"]]
    (∀ layer ∈ layers, layer.Nodup) ∧
      g.reduceCrossings layers 2 = [["b", "a", "c"], ["x", "z", "y"], ["q", "p"]] ∧
      SameLayers layers (g.reduceCrossings layers 2) ∧
      (g.reduceCrossings layers 2).IsChain g.Settled ∧
      ∀ (g' : Graph) layers', g.edges.Perm g'.edges → SameLayers layers layers' →
        layers.head? = layers'.head? →
        g'.reduceCrossings layers' 2 = g.reduceCrossings layers 2 := by
  intro g layers
  have hnodup : ∀ layer ∈ layers, layer.Nodup := by decide
  have hresult : g.reduceCrossings layers 2 = [["b", "a", "c"], ["x", "z", "y"], ["q", "p"]] := by
    cbv
  exact ⟨hnodup, hresult, settled_reduceCrossings g hnodup 1⟩

end Graph

end Whiteboard

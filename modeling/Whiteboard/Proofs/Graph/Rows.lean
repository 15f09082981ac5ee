import Mathlib.Data.Finset.Card
import Mathlib.Order.Interval.Finset.Nat
import Mathlib.Data.Int.Interval
import Whiteboard.Proofs.Graph.Layout
import Whiteboard.Proofs.Scalar.Lawful

/-!
# The rows of an outline

The trunk nodes of an outline stand in rows that are counted: a level without a trunk node takes no
row. Decisions stand in the row that their level has by its number. Each node gets one place, at the
height of its row (`Layout.exists_outline`), and the heights follow the levels exactly if the two
ways to count agree wherever a decision and a trunk node meet (`Layout.exists_inRows`).
-/

namespace Whiteboard

namespace Graph

/-- The levels above a level on which trunk nodes stand. -/
def trunkAbove (g : Graph) (level : Int) : Finset Int :=
  ((g.nodes.filter (!·.isOffTrunk)).map Node.depth).toFinset.filter (· < level)

/-- The row of a node, counted from zero. -/
def row (g : Graph) (n : Node) : Int :=
  if n.isOffTrunk then n.depth else (g.trunkAbove n.depth).card

/-- The rows of decisions and trunk nodes agree: a decision that is not deeper than a trunk node is
above its row, unless no level above that node lacks a row. -/
def RowsAgree (g : Graph) : Prop :=
  ∀ t ∈ g.nodes, ∀ d ∈ g.nodes, t.isOffTrunk = false → d.isOffTrunk = true → d.depth ≤ t.depth →
    d.depth < g.row t ∨ g.row t = t.depth

instance (g : Graph) : Decidable g.RowsAgree :=
  inferInstanceAs (Decidable (∀ t ∈ g.nodes, ∀ d ∈ g.nodes, t.isOffTrunk = false →
    d.isOffTrunk = true → d.depth ≤ t.depth → d.depth < g.row t ∨ g.row t = t.depth))

variable {g : Graph} {n n' : Node}

theorem row_of_off (h : n.isOffTrunk = true) : g.row n = n.depth := if_pos h

theorem row_of_trunk (h : n.isOffTrunk = false) : g.row n = (g.trunkAbove n.depth).card :=
  if_neg (by simp [h])

theorem mem_trunkAbove {level k : Int} : k ∈ g.trunkAbove level ↔
    (∃ n ∈ g.nodes, n.isOffTrunk = false ∧ n.depth = k) ∧ k < level := by
  simp [trunkAbove, and_assoc]

theorem row_nonneg (hlevel : 0 ≤ n.depth) : 0 ≤ g.row n := by
  unfold row
  split
  · exact hlevel
  · exact Int.natCast_nonneg _

/-- Counting some of the levels above leads no further than counting all of them. -/
theorem row_le_depth (hlevels : ∀ n ∈ g.nodes, 0 ≤ n.depth) (hn : n ∈ g.nodes) :
    g.row n ≤ n.depth := by
  unfold row
  split
  · exact le_rfl
  · have hsub : g.trunkAbove n.depth ⊆ Finset.Ico 0 n.depth := by
      intro k hk
      obtain ⟨⟨m, hm, -, rfl⟩, hlt⟩ := mem_trunkAbove.mp hk
      exact Finset.mem_Ico.mpr ⟨hlevels m hm, hlt⟩
    have hcard := Finset.card_le_card hsub
    rw [Int.card_Ico] at hcard
    have := hlevels n hn
    omega

theorem row_lt_row (hn : n ∈ g.nodes) (htrunk : n.isOffTrunk = false)
    (htrunk' : n'.isOffTrunk = false) (h : n.depth < n'.depth) : g.row n < g.row n' := by
  rw [row_of_trunk htrunk, row_of_trunk htrunk', Int.ofNat_lt]
  refine Finset.card_lt_card (Finset.ssubset_iff_of_subset ?_ |>.mpr ⟨n.depth, ?_, ?_⟩)
  · intro k hk
    obtain ⟨hk, hlt⟩ := mem_trunkAbove.mp hk
    exact mem_trunkAbove.mpr ⟨hk, hlt.trans h⟩
  · exact mem_trunkAbove.mpr ⟨⟨n, hn, htrunk, rfl⟩, h⟩
  · intro hmem
    exact lt_irrefl _ (mem_trunkAbove.mp hmem).2

/-- Rows that agree are in the order of levels. -/
theorem RowsAgree.compare_row (h : g.RowsAgree) (hlevels : ∀ n ∈ g.nodes, 0 ≤ n.depth)
    (hn : n ∈ g.nodes) (hn' : n' ∈ g.nodes) : (n.depth = n'.depth → g.row n = g.row n') ∧
      (n.depth < n'.depth → g.row n < g.row n') := by
  have hle := row_le_depth hlevels hn
  have hle' := row_le_depth hlevels hn'
  cases hoff : n.isOffTrunk <;> cases hoff' : n'.isOffTrunk
  case false.false =>
    refine ⟨fun heq => ?_, row_lt_row hn hoff hoff'⟩
    rw [row_of_trunk hoff, row_of_trunk hoff', heq]
  case false.true =>
    have hagree := h n hn n' hn' hoff hoff'
    rw [row_of_off hoff'] at hle' ⊢
    omega
  case true.false =>
    have hagree := h n' hn' n hn hoff' hoff
    rw [row_of_off hoff] at hle ⊢
    omega
  case true.true =>
    rw [row_of_off hoff, row_of_off hoff']
    exact ⟨fun heq => heq, fun hlt => hlt⟩

end Graph

/-- The heights of the levels up to a last one: multiples of the step, and each above those before
it. -/
structure Pitch.Ascends {α : Type} [Scalar α] (pitch : Pitch α) (last : Int) : Prop where
  reach : ∀ i, 0 ≤ i → i ≤ last → pitch.reach i = .ok (Scalar.ofInt i * pitch.step)
  lt : ∀ i j, 0 ≤ i → i < j → j ≤ last → Scalar.ofInt i * pitch.step < Scalar.ofInt j * pitch.step

section Ascends

variable {α : Type} [Scalar α] [LawfulScalar α] {pitch : Pitch α} {last i j : Int}

theorem Pitch.Ascends.lt_iff (h : pitch.Ascends last) (hi : 0 ≤ i ∧ i ≤ last)
    (hj : 0 ≤ j ∧ j ≤ last) :
    Scalar.ofInt i * pitch.step < Scalar.ofInt j * pitch.step ↔ i < j := by
  refine ⟨fun hlt => ?_, fun hij => h.lt i j hi.1 hij hj.2⟩
  rcases lt_trichotomy i j with hij | rfl | hji
  · exact hij
  · exact absurd hlt (Scalar.lt_irrefl _)
  · exact absurd hlt (Scalar.lt_asymm (h.lt j i hj.1 hji hi.2))

theorem Pitch.Ascends.inj (h : pitch.Ascends last) (hi : 0 ≤ i ∧ i ≤ last) (hj : 0 ≤ j ∧ j ≤ last)
    (heq : Scalar.ofInt i * pitch.step = Scalar.ofInt j * pitch.step) : i = j := by
  rcases lt_trichotomy i j with hij | hij | hji
  · exact absurd (heq ▸ h.lt i j hi.1 hij hj.2) (Scalar.lt_irrefl _)
  · exact hij
  · exact absurd (heq ▸ h.lt j i hj.1 hji hi.2) (Scalar.lt_irrefl _)

end Ascends

namespace Layout

open Whiteboard.Graph

variable {α : Type} {g : Graph}

/-! ## Heights -/

/-- The height of an id among places. -/
def heightIn (places : Entries (Place α)) (id : String) : Option α :=
  (places.get? id).map (·.y)

theorem mem_keys_iff {places : Entries (Place α)} {id : String} :
    id ∈ places.keys ↔ ∃ y, heightIn places id = some y := by
  constructor
  · intro h
    obtain ⟨p, hp⟩ := Entries.exists_get?_of_mem_keys h
    exact ⟨p.y, by rw [heightIn, hp]; rfl⟩
  · rintro ⟨y, h⟩
    obtain ⟨p, hp, -⟩ := Option.map_eq_some_iff.mp h
    exact Entries.mem_keys_of_get? hp

/-- Ids were put at one height, and nothing else happened. -/
structure Lifts (row : List String) (y : α) (places places' : Entries (Place α)) : Prop where
  height : ∀ id, heightIn places' id = if id ∈ row then some y else heightIn places id
  nodup : places.keys.Nodup → places'.keys.Nodup

theorem lifts_foldl_set (locate : String × Nat → Place α) (row : List String) (i : Nat)
    (places : Entries (Place α)) {y : α} (hy : ∀ m, (locate m).y = y) : Lifts row y places
      ((row.zipIdx i).foldl (fun places m => Entries.set m.1 (locate m) places) places) := by
  induction row generalizing i places with
  | nil => exact ⟨fun id => (if_neg List.not_mem_nil).symm, fun h => h⟩
  | cons first rest ih =>
    obtain ⟨hheight, hnodup⟩ := ih (i + 1) (Entries.set first (locate (first, i)) places)
    refine ⟨fun id => ?_, fun h => hnodup (Entries.nodup_keys_set h _ _)⟩
    rw [List.zipIdx_cons, List.foldl_cons, hheight]
    by_cases hrest : id ∈ rest
    · rw [if_pos hrest, if_pos (List.mem_cons_of_mem _ hrest)]
    · rw [if_neg hrest, heightIn, Entries.get?_set]
      by_cases hfirst : first = id
      · rw [if_pos hfirst, if_pos (List.mem_cons.mpr (.inl hfirst.symm)), Option.map_some, hy]
      · rw [if_neg hfirst, if_neg, heightIn]
        rw [List.mem_cons, not_or]
        exact ⟨Ne.symm hfirst, hrest⟩

/-- The nodes of some levels were put at the heights of these levels. -/
structure Stands (nodes : List Node) (height : Int → α) (levels : List Int)
    (places places' : Entries (Place α)) : Prop where
  height : ∀ n ∈ nodes, heightIn places' n.id
    = if n.depth ∈ levels then some (height n.depth) else heightIn places n.id
  other : ∀ id, (∀ n ∈ nodes, n.id ≠ id) → heightIn places' id = heightIn places id
  nodup : places.keys.Nodup → places'.keys.Nodup

section Stands

variable {nodes : List Node} {height : Int → α} {level : Int} {levels : List Int}
  {places places' places'' : Entries (Place α)}

theorem stands_nil (nodes : List Node) (height : Int → α) (places : Entries (Place α)) :
    Stands nodes height [] places places :=
  ⟨fun _ _ => (if_neg List.not_mem_nil).symm, fun _ _ => rfl, fun h => h⟩

/-- Where ids are unique, the ids of a level tell its nodes. -/
theorem Lifts.stands_cons (hids : (nodes.map (·.id)).Nodup)
    (h : Lifts (idsAt nodes level) (height level) places places')
    (h' : Stands nodes height levels places' places'') :
    Stands nodes height (level :: levels) places places'' := by
  have hmem : ∀ n ∈ nodes, n.id ∈ idsAt nodes level ↔ n.depth = level := by
    intro n hn
    rw [mem_idsAt]
    constructor
    · rintro ⟨n', hn', hlevel, hid⟩
      rwa [← List.inj_on_of_nodup_map hids hn' hn hid]
    · intro hlevel
      exact ⟨n, hn, hlevel, rfl⟩
  refine ⟨fun n hn => ?_, fun id hid => ?_, fun hnodup => h'.nodup (h.nodup hnodup)⟩
  · rw [h'.height n hn, h.height]
    simp only [hmem n hn, List.mem_cons]
    by_cases hrest : n.depth ∈ levels
    · rw [if_pos hrest, if_pos (.inr hrest)]
    · by_cases hlevel : n.depth = level
      · rw [if_neg hrest, if_pos hlevel, if_pos (.inl hlevel), hlevel]
      · rw [if_neg hrest, if_neg hlevel, if_neg (by tauto)]
  · rw [h'.other id hid, h.height, if_neg]
    rw [mem_idsAt]
    rintro ⟨n, hn, -, rfl⟩
    exact hid n hn rfl

variable [Scalar α]

theorem lifts_placeTrunk (g : Graph) (y : α) (row : List String) (places : Entries (Place α)) :
    Lifts row y places (placeTrunk g y row places) := by
  refine lifts_foldl_set _ row 0 places ?_
  intro m
  rfl

theorem lifts_placeDecisions (g : Graph) (y : α) (row : List String) (places : Entries (Place α)) :
    Lifts row y places (placeDecisions g y row places) := by
  refine lifts_foldl_set _ row 0 places ?_
  intro m
  rfl

/-- The rows of the trunk, from the `i`-th one on. -/
theorem stands_trunk (hids : (nodes.map (·.id)).Nodup) {f : Nat → α} {i : Nat}
    (h : ∀ j (hj : j < levels.length), height levels[j] = f (i + j)) (places : Entries (Place α)) :
    Stands nodes height levels places (((levels.map (idsAt nodes)).zipIdx i).foldl
      (fun places m => placeTrunk g (f m.2) m.1 places) places) := by
  induction levels generalizing i places with
  | nil => exact stands_nil nodes height places
  | cons level rest ih =>
    have hfirst : height level = f i := h 0 (Nat.succ_pos _)
    have hrest : ∀ j (hj : j < rest.length), height rest[j] = f (i + 1 + j) := by
      intro j hj
      rw [Nat.add_assoc, Nat.add_comm 1 j]
      exact h (j + 1) (Nat.succ_lt_succ hj)
    have hlifts := lifts_placeTrunk g (f i) (idsAt nodes level) places
    rw [← hfirst] at hlifts
    refine hlifts.stands_cons hids ?_
    rw [hfirst]
    exact ih hrest _

/-- The rows of the decisions, each where the pitch reaches its level. -/
theorem exists_stands_placeLevels (hids : (nodes.map (·.id)).Nodup) {pitch : Pitch α}
    (h : ∀ level ∈ levels, pitch.reach level = .ok (height level)) (places : Entries (Place α)) :
    ∃ places', placeLevels g pitch nodes levels places = .ok places' ∧
      Stands nodes height levels places places' := by
  induction levels generalizing places with
  | nil => exact ⟨places, rfl, stands_nil nodes height places⟩
  | cons level rest ih =>
    rw [List.forall_mem_cons] at h
    obtain ⟨places', hplaces, hstands⟩ :=
      ih h.2 (placeDecisions g (height level) (idsAt nodes level) places)
    refine ⟨places', ?_, (lifts_placeDecisions g _ _ places).stands_cons hids hstands⟩
    rw [placeLevels, h.1]
    exact hplaces

end Stands

/-! ## Counting rows -/

theorem nodup_levels (nodes : List Node) : (levels nodes).Nodup :=
  (List.mergeSort_perm _ _).nodup_iff.mpr (nodup_eraseDups _)

theorem pairwise_levels (nodes : List Node) : (levels nodes).Pairwise (· < ·) := by
  have hsorted : (levels nodes).Pairwise (· ≤ ·) := by
    have h : (levels nodes).Pairwise fun a b => decide (a ≤ b) = true := by
      refine List.pairwise_mergeSort (fun a b c hab hbc => ?_) (fun a b => ?_) _
      · rw [decide_eq_true_iff] at hab hbc ⊢
        exact hab.trans hbc
      · rw [Bool.or_eq_true, decide_eq_true_iff, decide_eq_true_iff]
        exact le_total a b
    exact h.imp of_decide_eq_true
  exact (hsorted.and (nodup_levels nodes)).imp fun h => lt_of_le_of_ne h.1 h.2

/-- In an ascending list a number stands behind all smaller ones. -/
theorem idxOf_eq_length_filter {levels : List Int} (h : levels.Pairwise (· < ·)) {level : Int}
    (hlevel : level ∈ levels) : levels.idxOf level = (levels.filter (· < level)).length := by
  induction levels with
  | nil => cases hlevel
  | cons first rest ih =>
    rw [List.pairwise_cons] at h
    rcases List.mem_cons.mp hlevel with rfl | hrest
    · have hnone : rest.filter (· < level) = [] := by
        rw [List.filter_eq_nil_iff]
        intro k hk
        simpa using (h.1 k hk).le
      rw [List.idxOf_cons_self, List.filter_cons_of_neg (by simp), hnone, List.length_nil]
    · have hlt := h.1 level hrest
      rw [List.idxOf_cons_ne _ hlt.ne, ih h.2 hrest, List.filter_cons_of_pos (by simpa using hlt),
        List.length_cons]

/-- The row of a trunk node is the place of its level among those of the trunk. -/
theorem idxOf_levels {n : Node} (hn : n ∈ g.nodes) (htrunk : n.isOffTrunk = false) :
    ((levels (g.nodes.filter (!·.isOffTrunk))).idxOf n.depth : Int) = g.row n := by
  let trunk := g.nodes.filter (!·.isOffTrunk)
  have hmem : n.depth ∈ levels trunk :=
    mem_levels.mpr ⟨n, List.mem_filter.mpr ⟨hn, by simp [htrunk]⟩, rfl⟩
  have hnodup : ((levels trunk).filter (· < n.depth)).Nodup := (nodup_levels trunk).filter _
  have hfinset : ((levels trunk).filter (· < n.depth)).toFinset = g.trunkAbove n.depth := by
    ext level
    simp only [trunkAbove, List.mem_toFinset, Finset.mem_filter, List.mem_filter, mem_levels,
      List.mem_map, decide_eq_true_iff, trunk]
  rw [row, if_neg (by simp [htrunk]), ← hfinset, List.toFinset_card_of_nodup hnodup,
    idxOf_eq_length_filter (pairwise_levels trunk) hmem]

section Outline

variable [Scalar α] {pitch : Pitch α}

/-- The height at which an id was placed. -/
def height? (l : Layout α) (id : String) : Option α := heightIn l.places id

/-- Each node gets one place, at the height of its row. -/
theorem exists_outline (hids : g.nodeIds.Nodup)
    (hreach : ∀ n ∈ g.nodes, pitch.reach n.depth = .ok (Scalar.ofInt n.depth * pitch.step)) :
    ∃ l, outline g pitch = .ok l ∧ l.places.keys.Nodup ∧ l.places.keys.Perm g.nodeIds ∧
      ∀ n ∈ g.nodes, l.height? n.id = some (Scalar.ofInt (g.row n) * pitch.step) := by
  let trunk := g.nodes.filter (!·.isOffTrunk)
  let decisions := g.nodes.filter (·.isOffTrunk)
  have hsub (p : Node → Bool) : ((g.nodes.filter p).map (·.id)).Nodup :=
    hids.sublist (List.filter_sublist.map _)
  let height (level : Int) : α := Scalar.ofNat ((levels trunk).idxOf level) * pitch.step
  have htrunk : Stands trunk height (levels trunk) [] (trunkPlaces g pitch) := by
    refine stands_trunk (f := fun i => Scalar.ofNat i * pitch.step) (hsub _) (fun j hj => ?_) []
    dsimp only [height]
    rw [(nodup_levels trunk).idxOf_getElem j hj, Nat.zero_add]
  have hlevels : ∀ level ∈ levels decisions,
      pitch.reach level = .ok (Scalar.ofInt level * pitch.step) := by
    intro level hlevel
    obtain ⟨n, hn, rfl⟩ := mem_levels.mp hlevel
    exact hreach n (List.mem_of_mem_filter hn)
  obtain ⟨places, hplaces, hdecisions⟩ := exists_stands_placeLevels (hsub _) hlevels
    (trunkPlaces g pitch)
  have hheight : ∀ n ∈ g.nodes,
      heightIn places n.id = some (Scalar.ofInt (g.row n) * pitch.step) := by
    intro n hn
    by_cases hoff : n.isOffTrunk = true
    · have hmem : n ∈ decisions := List.mem_filter.mpr ⟨hn, hoff⟩
      rw [hdecisions.height n hmem, if_pos (mem_levels.mpr ⟨n, hmem, rfl⟩), row, if_pos hoff]
    · have hmem : n ∈ trunk := List.mem_filter.mpr ⟨hn, by simpa using hoff⟩
      have hother : ∀ m ∈ decisions, m.id ≠ n.id := by
        intro m hm hid
        obtain ⟨hm, hoff'⟩ := List.mem_filter.mp hm
        exact hoff (List.inj_on_of_nodup_map hids hm hn hid ▸ hoff')
      rw [hdecisions.other n.id hother, htrunk.height n hmem,
        if_pos (mem_levels.mpr ⟨n, hmem, rfl⟩), ← idxOf_levels hn (by simpa using hoff)]
      rfl
  have hnodup : places.keys.Nodup := hdecisions.nodup (htrunk.nodup List.nodup_nil)
  refine ⟨⟨places, trunkRows g⟩, ?_, hnodup, ?_, hheight⟩
  · rw [outline_eq, hplaces]
    rfl
  · rw [List.perm_ext_iff_of_nodup hnodup hids]
    intro id
    rw [mem_keys_iff]
    constructor
    · rintro ⟨y, hy⟩
      by_contra hid
      have hnone (p : Node → Bool) : ∀ n ∈ g.nodes.filter p, n.id ≠ id := by
        rintro n hn rfl
        exact hid (List.mem_map_of_mem (List.mem_of_mem_filter hn))
      rw [hdecisions.other id (hnone _), htrunk.other id (hnone _)] at hy
      cases hy
    · intro hid
      obtain ⟨n, hn, rfl⟩ := List.mem_map.mp hid
      exact ⟨_, hheight n hn⟩

/-- Nodes of a level are at one height, and deeper ones are further down. -/
structure FollowsLevels (l : Layout α) (g : Graph) : Prop where
  level : ∀ n ∈ g.nodes, ∀ n' ∈ g.nodes, n.depth = n'.depth → l.height? n.id = l.height? n'.id
  below : ∀ n ∈ g.nodes, ∀ n' ∈ g.nodes, n.depth < n'.depth →
    ∃ y y', l.height? n.id = some y ∧ l.height? n'.id = some y' ∧ y < y'

/-- What the layout of an outline is: one place for each node, at the height of its row, so that it
follows the levels exactly if the rows agree. -/
structure InRows (l : Layout α) (g : Graph) (step : α) : Prop where
  nodup : l.places.keys.Nodup
  perm : l.places.keys.Perm g.nodeIds
  height : ∀ n ∈ g.nodes, l.height? n.id = some (Scalar.ofInt (g.row n) * step)
  followsLevels_iff : l.FollowsLevels g ↔ g.RowsAgree

section Order

variable [LawfulScalar α] {last : Int}

theorem exists_inRows (h : pitch.Ascends last) (hids : g.nodeIds.Nodup)
    (hlevels : ∀ n ∈ g.nodes, 0 ≤ n.depth ∧ n.depth ≤ last) :
    ∃ l, outline g pitch = .ok l ∧ l.InRows g pitch.step := by
  obtain ⟨l, hl, hnodup, hperm, hheight⟩ := exists_outline hids
    fun n hn => h.reach n.depth (hlevels n hn).1 (hlevels n hn).2
  have hnonneg : ∀ n ∈ g.nodes, 0 ≤ n.depth := fun n hn => (hlevels n hn).1
  have hrow : ∀ n ∈ g.nodes, 0 ≤ g.row n ∧ g.row n ≤ last := fun n hn =>
    ⟨row_nonneg (hnonneg n hn), (row_le_depth hnonneg hn).trans (hlevels n hn).2⟩
  refine ⟨l, hl, hnodup, hperm, hheight, ?_⟩
  constructor
  · intro hfollows t ht d hd htrunk hoff hle
    rcases hle.lt_or_eq with hlt | heq
    · obtain ⟨y, y', hy, hy', hyy⟩ := hfollows.below d hd t ht hlt
      rw [hheight d hd, Option.some.injEq] at hy
      rw [hheight t ht, Option.some.injEq] at hy'
      subst hy hy'
      rw [h.lt_iff (hrow d hd) (hrow t ht), row_of_off hoff] at hyy
      exact .inl hyy
    · have hy := hfollows.level d hd t ht heq
      rw [hheight d hd, hheight t ht, Option.some.injEq] at hy
      have hrows := h.inj (hrow d hd) (hrow t ht) hy
      rw [row_of_off hoff, heq] at hrows
      exact .inr hrows.symm
  · intro hagree
    refine ⟨fun n hn n' hn' heq => ?_, fun n hn n' hn' hlt => ?_⟩
    · rw [hheight n hn, hheight n' hn', (hagree.compare_row hnonneg hn hn').1 heq]
    · refine ⟨_, _, hheight n hn, hheight n' hn', ?_⟩
      exact (h.lt_iff (hrow n hn) (hrow n' hn')).mpr ((hagree.compare_row hnonneg hn hn').2 hlt)

end Order

end Outline

end Layout

end Whiteboard

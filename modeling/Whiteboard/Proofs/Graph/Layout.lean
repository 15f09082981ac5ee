import Mathlib.Data.List.Perm.Basic
import Whiteboard.Graph.Layout
import Whiteboard.Proofs.Entries
import Whiteboard.Proofs.Graph.Distance
import Whiteboard.Scalar.Double

/-!
# Places of nodes

Sweeps against crossings only permute the nodes inside a layer. Each node of a well-formed graph
gets one place: in layers by its distance from the roots (`Layout.layered_of_valid`), in an outline
by its level.
-/

namespace Whiteboard

namespace Graph

variable {g : Graph}

/-! ## Crossings -/

/-- Two lists of layers whose layers hold the same nodes, in any order. -/
def SameLayers : List (List String) → List (List String) → Prop := List.Forall₂ List.Perm

namespace SameLayers

variable {ls ls' ls'' : List (List String)}

theorem refl (ls : List (List String)) : SameLayers ls ls :=
  List.forall₂_same.mpr fun _ _ => .refl _

theorem trans (h : SameLayers ls ls') (h' : SameLayers ls' ls'') : SameLayers ls ls'' :=
  forall₂_comp (fun _ _ _ hperm hperm' => hperm.trans hperm') h h'

theorem exists_getElem? {n : Nat} {layer : List String} (h : SameLayers ls ls')
    (hlayer : ls[n]? = some layer) : ∃ layer', ls'[n]? = some layer' ∧ layer.Perm layer' := by
  induction h generalizing n with
  | nil => cases hlayer
  | cons hperm _ ih =>
    cases n with
    | zero =>
      cases hlayer
      exact ⟨_, rfl, hperm⟩
    | succ n => exact ih hlayer

theorem ne_nil (h : SameLayers ls ls') (hne : ∀ layer ∈ ls, layer ≠ []) :
    ∀ layer ∈ ls', layer ≠ [] := by
  induction h with
  | nil => simp
  | cons hperm _ ih =>
    rw [List.forall_mem_cons] at hne ⊢
    exact ⟨fun hnil => hne.1 (hnil ▸ hperm).eq_nil, ih hne.2⟩

end SameLayers

theorem perm_reorder (neighbors : String → List String) (beside layer : List String) :
    layer.Perm (reorder neighbors beside layer) := (List.mergeSort_perm _ _).symm

theorem sameLayers_sweepDownFrom (g : Graph) (before : List String) (layers : List (List String)) :
    SameLayers layers (g.sweepDownFrom before layers) := by
  induction layers generalizing before with
  | nil => exact .nil
  | cons layer rest ih => exact .cons (perm_reorder _ _ _) (ih _)

theorem sameLayers_sweepDown (g : Graph) (layers : List (List String)) :
    SameLayers layers (g.sweepDown layers) := by
  cases layers with
  | nil => exact .nil
  | cons first rest => exact .cons (.refl _) (sameLayers_sweepDownFrom g _ rest)

theorem sameLayers_sweepUp (g : Graph) (layers : List (List String)) :
    SameLayers layers (g.sweepUp layers) := by
  induction layers with
  | nil => exact .nil
  | cons layer rest ih =>
    rw [sweepUp]
    split
    · next hnil =>
      rw [hnil] at ih
      exact .cons (.refl _) ih
    · next behind more hcons =>
      rw [hcons] at ih
      exact .cons (perm_reorder _ _ _) ih

/-- Sweeps permute the nodes inside the layers, and do nothing else. -/
theorem sameLayers_reduceCrossings (g : Graph) (layers : List (List String)) (n : Nat) :
    SameLayers layers (g.reduceCrossings layers n) := by
  induction n generalizing layers with
  | zero => exact .refl layers
  | succ n ih =>
    exact ((sameLayers_sweepDown g layers).trans (sameLayers_sweepUp g _)).trans (ih _)

theorem Layered.of_sameLayers {ls ls' : List (List String)} (h : g.Layered ls)
    (hsame : SameLayers ls ls') : g.Layered ls' := by
  constructor
  · exact hsame.ne_nil h.ne_nil
  · exact (List.Perm.flatten_congr hsame).nodup_iff.mp h.nodup
  · exact (List.Perm.flatten_congr hsame).symm.trans h.perm
  · intro n id hreach
    obtain ⟨d, layer, hd, hlayer, hid⟩ := h.of_reaches n id hreach
    obtain ⟨layer', hlayer', hperm⟩ := hsame.exists_getElem? hlayer
    exact ⟨d, layer', hd, hlayer', hperm.mem_iff.mp hid⟩
  · intro hnone
    obtain ⟨layer, hlayer, hids⟩ := h.last hnone
    rw [List.getLast?_eq_getElem?] at hlayer
    obtain ⟨layer', hlayer', hperm⟩ := hsame.exists_getElem? hlayer
    refine ⟨layer', ?_, fun id => hperm.mem_iff.symm.trans (hids id)⟩
    rwa [List.getLast?_eq_getElem?, ← List.Forall₂.length_eq hsame]

end Graph

/-- A place as large as nodes of some shape are. -/
def Place.Sized {α : Type} [Scalar α] (p : Place α) : Prop :=
  ∃ shape : NodeShape, (p.width, p.height) = Layout.sizeOf shape

namespace Layout

open Whiteboard.Graph

variable {α : Type} [Scalar α] {g : Graph} {id : String}

/-! ## Layers -/

theorem length_packFrom (gap y offset : α) (widths : List α) :
    (packFrom gap y offset widths).length = widths.length := by
  induction widths generalizing offset with
  | nil => rfl
  | cons w rest ih => exact congrArg (· + 1) (ih _)

theorem length_centers (widths : List α) (rank : Int) (horizontal : Bool) (spacing : Spacing α) :
    (centers widths rank horizontal spacing).length = widths.length := by
  unfold centers
  dsimp only
  split
  · rw [List.length_map, List.length_range]
  · exact length_packFrom _ _ _ _

theorem exists_shape?_of_mem (h : id ∈ g.nodeIds) : ∃ shape, shape? g id = some shape := by
  obtain ⟨n, hn, rfl⟩ := List.mem_map.mp h
  have hfound : (g.nodes.reverse.find? (·.id == n.id)).isSome = true := by
    rw [List.find?_isSome]
    exact ⟨n, List.mem_reverse.mpr hn, beq_self_eq_true _⟩
  obtain ⟨n', hn'⟩ := Option.isSome_iff_exists.mp hfound
  exact ⟨n'.shape, by rw [shape?, hn']; rfl⟩

theorem exists_layerShapes {layer : List String} (h : ∀ id ∈ layer, id ∈ g.nodeIds) :
    ∃ shapes, layerShapes g layer = .ok shapes ∧ shapes.length = layer.length := by
  induction layer with
  | nil => exact ⟨[], rfl, rfl⟩
  | cons id rest ih =>
    rw [List.forall_mem_cons] at h
    obtain ⟨shape, hshape⟩ := exists_shape?_of_mem h.1
    obtain ⟨shapes, hshapes, hlength⟩ := ih h.2
    refine ⟨shape :: shapes, ?_, congrArg (· + 1) hlength⟩
    rw [layerShapes, hshape, hshapes]
    rfl

/-- A layer gets a place for each of its ids. -/
theorem exists_placeLayer {layer : List String} (h : ∀ id ∈ layer, id ∈ g.nodeIds)
    (spacing : Spacing α) (count i : Nat) (places : Entries (Place α)) :
    ∃ located : Entries (Place α), located.keys = layer ∧ (∀ m ∈ located, m.2.Sized) ∧
      placeLayer g spacing count i layer places = .ok (places.merge located) := by
  obtain ⟨shapes, hshapes, hlength⟩ := exists_layerShapes h
  let sizes : List (α × α) := shapes.map sizeOf
  let points := centers (sizes.map (·.1)) (rankOf g.direction count i) g.direction.isHorizontal
    spacing
  have hpoints : points.length = layer.length := by
    rw [length_centers, List.length_map, List.length_map, hlength]
  let locate (m : String × (α × α) × α × α) : String × Place α :=
    (m.1, ⟨m.2.2.1, m.2.2.2, m.2.1.1, m.2.1.2⟩)
  refine ⟨(layer.zip (sizes.zip points)).map locate, ?_, ?_, ?_⟩
  · have hkeys : ((layer.zip (sizes.zip points)).map locate).map (·.1)
        = (layer.zip (sizes.zip points)).map (·.1) := List.map_map
    rw [Entries.keys, hkeys, List.map_fst_zip]
    rw [List.length_zip, hpoints, List.length_map, hlength, min_self]
  · intro m hm
    obtain ⟨m', hm', rfl⟩ := List.mem_map.mp hm
    obtain ⟨shape, -, hshape⟩ := List.mem_map.mp
      (List.of_mem_zip (List.of_mem_zip (show (m'.1, m'.2) ∈ _ from hm')).2).1
    exact ⟨shape, hshape.symm⟩
  · rw [placeLayer, hshapes, Entries.merge, List.foldl_map]
    rfl

/-- Layers without a repeated id get their places one after the other. -/
theorem exists_placeLayers {layers : List (List String)} {places : Entries (Place α)}
    (h : ∀ id ∈ layers.flatten, id ∈ g.nodeIds) (hnodup : (places.keys ++ layers.flatten).Nodup)
    (hsized : ∀ m ∈ places, m.2.Sized) (spacing : Spacing α) (count i : Nat) :
    ∃ places', placeLayers g spacing count i layers places = .ok places' ∧
      places'.keys = places.keys ++ layers.flatten ∧ ∀ m ∈ places', m.2.Sized := by
  induction layers generalizing places i with
  | nil => exact ⟨places, rfl, (List.append_nil _).symm, hsized⟩
  | cons layer rest ih =>
    rw [List.flatten_cons, List.forall_mem_append] at h
    rw [List.flatten_cons, ← List.append_assoc] at hnodup ⊢
    obtain ⟨located, hlocated, hsizes, hplace⟩ := exists_placeLayer h.1 spacing count i places
    have hmerge : places.merge located = places ++ located := by
      refine Entries.merge_of_nodup ?_
      rw [Entries.keys_append, hlocated]
      exact (List.nodup_append.mp hnodup).1
    have hkeys : (places.merge located).keys = places.keys ++ layer := by
      rw [hmerge, Entries.keys_append, hlocated]
    obtain ⟨places', hrest, hkeys', hsized'⟩ := ih h.2 (by rwa [hkeys])
      (hmerge ▸ List.forall_mem_append.mpr ⟨hsized, hsizes⟩) (i + 1)
    rw [hkeys] at hkeys'
    refine ⟨places', ?_, hkeys', hsized'⟩
    rw [placeLayers, hplace]
    exact hrest

/-- What a drawing asks of a layout: a place for every node, and layers of nodes, which in outlines
are those of the trunk. -/
structure Covers (l : Layout α) (g : Graph) : Prop where
  place : ∀ id ∈ g.nodeIds, id ∈ l.places.keys
  sized : ∀ m ∈ l.places, m.2.Sized
  layer : ∀ id ∈ l.layers.flatten, id ∈ g.nodeIds
  trunk : g.isOutline = true → l.layers ≠ [] → ∃ n ∈ g.nodes, n.isOffTrunk = false

theorem exists_layered (hg : g.WellFormed) (hne : g.nodes ≠ []) (spacing : Spacing α) :
    ∃ l, layered g spacing = .ok l ∧ l.layers = g.orderedLayers ∧ l.places.keys = l.layers.flatten ∧
      ∀ m ∈ l.places, m.2.Sized := by
  have hlayered : g.Layered g.orderedLayers :=
    (layered_layers hg hne).of_sameLayers (sameLayers_reduceCrossings g _ _)
  have hnodup : (Entries.keys ([] : Entries (Place α)) ++ g.orderedLayers.flatten).Nodup :=
    hlayered.perm.nodup_iff.mpr hg.nodup
  obtain ⟨places, hplaces, hkeys, hsized⟩ := exists_placeLayers
    (fun id hid => hlayered.perm.mem_iff.mp hid) hnodup (by simp) spacing g.orderedLayers.length 0
  refine ⟨⟨places, g.orderedLayers⟩, ?_, rfl, hkeys, hsized⟩
  rw [layered, hplaces]
  rfl

/-- The layout of a valid graph in layers. -/
theorem layered_of_valid (hne : g.nodes ≠ []) (hvalid : ∀ f ∈ g.findings, f.severity ≠ .error)
    (spacing : Spacing α) :
    ∃ l, layered g spacing = .ok l ∧ g.Layered l.layers ∧ l.places.keys.Perm g.nodeIds ∧
      SameLayers g.layers l.layers ∧
      ∀ layers sweeps, SameLayers layers (g.reduceCrossings layers sweeps) := by
  have hg : g.WellFormed := (wellFormed_iff_findings hne).mpr hvalid
  have hsame : SameLayers g.layers g.orderedLayers := sameLayers_reduceCrossings g _ _
  have hlayered : g.Layered g.orderedLayers := (layered_layers hg hne).of_sameLayers hsame
  obtain ⟨l, hl, hlayers, hkeys, -⟩ := exists_layered hg hne spacing
  rw [hlayers] at hkeys
  exact ⟨l, hl, hlayers ▸ hlayered, hkeys ▸ hlayered.perm, hlayers ▸ hsame,
    sameLayers_reduceCrossings g⟩

/-- Parallel edges, a loop, and a circle that no walk leads to. -/
theorem layered_of_valid_circle :
    let g : Graph :=
      { nodes := [.bare "a", .bare "b", .bare "c", .bare "d", .bare "e"]
        edges := [⟨"a", "b", "", .arrow⟩, ⟨"a", "b", "again", .dotted⟩, ⟨"b", "c", "", .arrow⟩,
          ⟨"a", "c", "", .thick⟩, ⟨"c", "c", "", .arrow⟩, ⟨"d", "e", "", .arrow⟩,
          ⟨"e", "d", "", .arrow⟩] }
    g.nodes ≠ [] ∧ (∀ f ∈ g.findings, f.severity ≠ .error) ∧
      ∃ l, layered g (defaultSpacing : Spacing Double) = .ok l ∧ g.Layered l.layers ∧
        l.places.keys.Perm g.nodeIds ∧ SameLayers g.layers l.layers ∧
        ∀ layers sweeps, SameLayers layers (g.reduceCrossings layers sweeps) := by
  intro g
  have hne : g.nodes ≠ [] := List.cons_ne_nil _ _
  have hvalid : ∀ f ∈ g.findings, f.severity ≠ .error := by decide
  exact ⟨hne, hvalid, layered_of_valid hne hvalid defaultSpacing⟩

/-! ## Outlines -/

/-- A row of ids was given places. -/
structure Adds (row : List String) (places places' : Entries (Place α)) : Prop where
  mem_keys_iff : ∀ id, id ∈ places'.keys ↔ id ∈ places.keys ∨ id ∈ row
  sized : (∀ m ∈ places, m.2.Sized) → ∀ m ∈ places', m.2.Sized

section Adds

variable {row row' : List String} {places places' places'' : Entries (Place α)}

theorem Adds.refl (places : Entries (Place α)) : Adds [] places places :=
  ⟨fun id => by simp, fun h => h⟩

theorem Adds.trans (h : Adds row places places') (h' : Adds row' places' places'') :
    Adds (row ++ row') places places'' where
  mem_keys_iff id := by rw [h'.mem_keys_iff, h.mem_keys_iff, List.mem_append, or_assoc]
  sized hsized := h'.sized (h.sized hsized)

theorem adds_merge {located : Entries (Place α)} (hkeys : located.keys = row)
    (hsized : ∀ m ∈ located, m.2.Sized) : Adds row places (places.merge located) where
  mem_keys_iff id := by rw [Entries.mem_keys_merge, hkeys]
  sized h m hm := (Entries.mem_of_mem_merge hm).elim (hsized m) (h m)

/-- A row is placed by giving each of its ids a place of its own. -/
theorem adds_foldl_set (locate : String × Nat → Place α) (hsized : ∀ m, (locate m).Sized) :
    Adds row places
      (row.zipIdx.foldl (fun places m => Entries.set m.1 (locate m) places) places) := by
  let located : Entries (Place α) := row.zipIdx.map fun m => (m.1, locate m)
  have hkeys : located.keys = row := by
    rw [Entries.keys, List.map_map]
    exact List.zipIdx_map_fst 0 row
  have hmerge : row.zipIdx.foldl (fun places m => Entries.set m.1 (locate m) places) places
      = places.merge located := by
    rw [Entries.merge, List.foldl_map]
  rw [hmerge]
  refine adds_merge hkeys fun m hm => ?_
  obtain ⟨m', -, rfl⟩ := List.mem_map.mp hm
  exact hsized m'

theorem adds_placeTrunk (g : Graph) (y : α) (row : List String) (places : Entries (Place α)) :
    Adds row places (placeTrunk g y row places) :=
  adds_foldl_set _ fun m => ⟨shapeOf g m.1, rfl⟩

theorem adds_placeDecisions (g : Graph) (y : α) (row : List String) (places : Entries (Place α)) :
    Adds row places (placeDecisions g y row places) := by
  refine adds_foldl_set _ fun m => ?_
  by_cases h : shapeOf g m.1 = .circle
  · exact ⟨.circle, by simp only [h, if_true, sizeOf]⟩
  · exact ⟨.diamond, by simp only [h, if_false, sizeOf]⟩

theorem adds_trunk (g : Graph) (y : Nat → α) (rows : List (List String)) (i : Nat)
    (places : Entries (Place α)) :
    Adds rows.flatten places
      ((rows.zipIdx i).foldl (fun places m => placeTrunk g (y m.2) m.1 places) places) := by
  induction rows generalizing i places with
  | nil => exact .refl places
  | cons row rows ih => exact (adds_placeTrunk g (y i) row places).trans (ih (i + 1) _)

theorem adds_placeLevels {pitch : Pitch α} {decisions : List Node} {levels : List Int}
    (h : placeLevels g pitch decisions levels places = .ok places') :
    Adds (levels.flatMap (idsAt decisions)) places places' := by
  induction levels generalizing places with
  | nil =>
    cases h
    exact Adds.refl _
  | cons level rest ih =>
    rw [placeLevels] at h
    cases hy : pitch.reach level with
    | error e =>
      rw [hy] at h
      cases h
    | ok y =>
      rw [hy] at h
      exact (adds_placeDecisions g y (idsAt decisions level) places).trans (ih h)

end Adds

theorem mem_idsAt {nodes : List Node} {level : Int} :
    id ∈ idsAt nodes level ↔ ∃ n ∈ nodes, n.depth = level ∧ n.id = id := by
  simp [idsAt, and_assoc]

theorem mem_levels {nodes : List Node} {level : Int} :
    level ∈ levels nodes ↔ ∃ n ∈ nodes, n.depth = level := by
  simp [levels]

/-- The rows of nodes hold their ids. -/
theorem mem_flatMap_idsAt {nodes : List Node} :
    id ∈ (levels nodes).flatMap (idsAt nodes) ↔ ∃ n ∈ nodes, n.id = id := by
  rw [List.mem_flatMap]
  constructor
  · rintro ⟨level, -, hid⟩
    obtain ⟨n, hn, -, rfl⟩ := mem_idsAt.mp hid
    exact ⟨n, hn, rfl⟩
  · rintro ⟨n, hn, rfl⟩
    exact ⟨n.depth, mem_levels.mpr ⟨n, hn, rfl⟩, mem_idsAt.mpr ⟨n, hn, rfl, rfl⟩⟩

/-- The rows of the trunk of an outline. -/
def trunkRows (g : Graph) : List (List String) :=
  (levels (g.nodes.filter (!·.isOffTrunk))).map (idsAt (g.nodes.filter (!·.isOffTrunk)))

/-- The places of the trunk of an outline. -/
def trunkPlaces (g : Graph) (pitch : Pitch α) : Entries (Place α) :=
  (trunkRows g).zipIdx.foldl (fun places m =>
    placeTrunk g (Scalar.ofNat m.2 * pitch.step) m.1 places) []

/-- An outline places its trunk, and then its decisions. -/
theorem outline_eq (g : Graph) (pitch : Pitch α) :
    outline g pitch = (placeLevels g pitch (g.nodes.filter (·.isOffTrunk))
      (levels (g.nodes.filter (·.isOffTrunk))) (trunkPlaces g pitch)).map
        fun places => ⟨places, trunkRows g⟩ := rfl

theorem exists_of_outline {pitch : Pitch α} {l : Layout α} (h : outline g pitch = .ok l) :
    ∃ places, placeLevels g pitch (g.nodes.filter (·.isOffTrunk))
        (levels (g.nodes.filter (·.isOffTrunk))) (trunkPlaces g pitch) = .ok places ∧
      l = ⟨places, trunkRows g⟩ := by
  rw [outline_eq] at h
  cases hplaces : placeLevels g pitch (g.nodes.filter (·.isOffTrunk))
      (levels (g.nodes.filter (·.isOffTrunk))) (trunkPlaces g pitch) with
  | error e =>
    rw [hplaces] at h
    cases h
  | ok places =>
    rw [hplaces] at h
    cases h
    exact ⟨places, rfl, rfl⟩

theorem covers_of_outline {pitch : Pitch α} {l : Layout α} (h : outline g pitch = .ok l) :
    l.Covers g := by
  obtain ⟨places, hlevels, rfl⟩ := exists_of_outline h
  have htrunk : Adds (trunkRows g).flatten [] (trunkPlaces g pitch) :=
    adds_trunk g (fun i => Scalar.ofNat i * pitch.step) (trunkRows g) 0 []
  have hadds := htrunk.trans (adds_placeLevels hlevels)
  have hrows : (trunkRows g).flatten = (levels (g.nodes.filter (!·.isOffTrunk))).flatMap
      (idsAt (g.nodes.filter (!·.isOffTrunk))) := rfl
  refine ⟨fun id hid => ?_, hadds.sized (by simp), fun id hid => ?_, fun _ hne => ?_⟩
  · obtain ⟨n, hn, rfl⟩ := List.mem_map.mp hid
    rw [hadds.mem_keys_iff, List.mem_append, hrows, mem_flatMap_idsAt, mem_flatMap_idsAt]
    by_cases hoff : n.isOffTrunk = true
    · exact .inr (.inr ⟨n, List.mem_filter.mpr ⟨hn, hoff⟩, rfl⟩)
    · exact .inr (.inl ⟨n, List.mem_filter.mpr ⟨hn, by simpa using hoff⟩, rfl⟩)
  · obtain ⟨n, hn, rfl⟩ := mem_flatMap_idsAt.mp (hrows ▸ hid)
    exact List.mem_map_of_mem (List.mem_of_mem_filter hn)
  · have hlevels : levels (g.nodes.filter (!·.isOffTrunk)) ≠ [] := fun hnil =>
      hne (congrArg (List.map _) hnil)
    obtain ⟨level, hlevel⟩ := List.exists_mem_of_ne_nil _ hlevels
    obtain ⟨n, hn, -⟩ := mem_levels.mp hlevel
    obtain ⟨hmem, htrunk⟩ := List.mem_filter.mp hn
    exact ⟨n, hmem, by simpa using htrunk⟩

/-! ## All graphs -/

theorem covers_of_choose (hg : g.WellFormed) (hne : g.nodes ≠ []) {spacing : Spacing α}
    {l : Layout α} (h : choose g spacing = .ok l) : l.Covers g := by
  unfold choose at h
  split at h
  · exact covers_of_outline h
  · next houtline =>
    obtain ⟨l', hl', hlayers, hkeys, hsized⟩ := exists_layered hg hne spacing
    cases hl'.symm.trans h
    have hperm : l.layers.flatten.Perm g.nodeIds :=
      hlayers ▸ ((layered_layers hg hne).of_sameLayers (sameLayers_reduceCrossings g _ _)).perm
    refine ⟨fun id hid => ?_, hsized, fun id hid => hperm.mem_iff.mp hid,
      fun h => absurd h houtline⟩
    rw [hkeys]
    exact hperm.mem_iff.mpr hid

theorem exists_reach (hint : ∀ i, Scalar.holdsInt α i = true) (pitch : Pitch α) (level : Int) :
    ∃ y, pitch.reach level = .ok y := by
  cases pitch with
  | whole distance => exact ⟨_, if_pos (hint _)⟩
  | scalar distance => exact ⟨_, if_pos (hint _)⟩

theorem exists_placeLevels (hint : ∀ i, Scalar.holdsInt α i = true) (pitch : Pitch α)
    (decisions : List Node) (levels : List Int) (places : Entries (Place α)) :
    ∃ places', placeLevels g pitch decisions levels places = .ok places' := by
  induction levels generalizing places with
  | nil => exact ⟨places, rfl⟩
  | cons level rest ih =>
    obtain ⟨y, hy⟩ := exists_reach hint pitch level
    rw [placeLevels, hy]
    exact ih _

/-- Where all integers are numbers, every well-formed graph has a layout. -/
theorem exists_choose (hint : ∀ i, Scalar.holdsInt α i = true) (hg : g.WellFormed)
    (hne : g.nodes ≠ []) (spacing : Spacing α) : ∃ l, choose g spacing = .ok l := by
  unfold choose
  split
  · obtain ⟨places, hplaces⟩ := exists_placeLevels hint spacing.layer
      (g.nodes.filter (·.isOffTrunk)) (levels (g.nodes.filter (·.isOffTrunk))) (trunkPlaces g _)
    exact ⟨_, by rw [outline_eq, hplaces]; rfl⟩
  · obtain ⟨l, hl, -⟩ := exists_layered hg hne spacing
    exact ⟨l, hl⟩

end Layout

end Whiteboard

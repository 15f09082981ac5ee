import Mathlib
import Whiteboard.Proofs.Drawing.Curve
import Whiteboard.Proofs.Drawing.Packing

/-!
# Parallel arrows

Whatever the graph and its layout, the arrows of a drawing follow the edges between the nodes, and
those from one node to another one are counted through (`Drawing.exists_parts_of_ofLayout`). So with
the default strength they fan out from side to side (`Drawing.fans_of_ofLayout`).
-/

namespace Whiteboard

/-- Whether an edge leads from one node to another one. -/
def Edge.connects (s t : String) (e : Edge) : Bool := s == e.source && t == e.target

/-- The edges between the nodes of a graph. -/
def Graph.innerEdges (g : Graph) : List Edge :=
  g.edges.filter fun e => g.nodeIds.contains e.source && g.nodeIds.contains e.target

/-- The curve of an arrow. -/
def Element.curve? {α : Type} (e : Element α) : Option α := e.arrow?.bind (·.curve)

namespace Drawing

variable {α : Type}

/-! ## Shapes -/

section Shapes

variable {drawn shapes : Entries (Element α)}

/-- Shapes that stand for nodes, under their ids. -/
structure Shows (nodes : List Node) (shapes : Entries (Element α)) : Prop where
  nodup : shapes.keys.Nodup
  mem_keys : ∀ id, id ∈ shapes.keys ↔ id ∈ nodes.map (·.id)
  draws : ∀ m ∈ shapes, ∃ n ∈ nodes, ∃ mark, n.id = m.1 ∧ Draws n mark m.2

theorem Shows.alike {R : Element α → Element α → Prop} {nodes : List Node}
    (h : Shows nodes drawn) (halike : Entries.Alike R drawn shapes)
    (hR : ∀ {n mark e e'}, Draws n mark e → R e e' → Draws n mark e') : Shows nodes shapes := by
  refine ⟨halike.keys_eq ▸ h.nodup, halike.keys_eq ▸ h.mem_keys, fun m hm => ?_⟩
  obtain ⟨m', hm', hkey, hmoved⟩ := exists_of_mem_right halike hm
  obtain ⟨n, hn, mark, hid, hdraws⟩ := h.draws m' hm'
  exact ⟨n, hn, mark, hid.trans hkey, hR hdraws hmoved⟩

variable [Scalar α] {style : DrawingStyle α} {origin : Point α}

/-- Each shape is one that was there before, or it is drawn for a node. -/
theorem mem_of_nodeElements {isOutline : Bool} {places : Entries (Place α)} {nodes : List Node}
    {ids : IdSupply}
    (h : (nodeElements style origin isOutline places nodes drawn ids).1 = .ok shapes) :
    ∀ m ∈ shapes, m ∈ drawn ∨ ∃ n ∈ nodes, ∃ place mark, n.id = m.1 ∧
      nodeElement style origin isOutline place n mark = .ok m.2 := by
  induction nodes generalizing drawn ids with
  | nil =>
    cases h
    exact fun _ => .inl
  | cons n rest ih =>
    rw [nodeElements] at h
    split at h
    · cases h
    · next place hplace =>
      obtain ⟨e, he, h⟩ := exists_of_andThen h
      intro m hm
      rcases ih h m hm with hset | ⟨n', hn', hmade⟩
      · refine (Entries.mem_of_mem_set hset).symm.imp_right ?_
        rintro rfl
        exact ⟨n, List.mem_cons_self, place, _, rfl, he⟩
      · exact .inr ⟨n', List.mem_cons_of_mem _ hn', hmade⟩

theorem keys_of_nodeElements {isOutline : Bool} {places : Entries (Place α)} {nodes : List Node}
    {ids : IdSupply} (hdrawn : drawn.keys.Nodup)
    (h : (nodeElements style origin isOutline places nodes drawn ids).1 = .ok shapes) :
    shapes.keys.Nodup ∧ ∀ id, id ∈ shapes.keys ↔ id ∈ drawn.keys ∨ id ∈ nodes.map (·.id) := by
  induction nodes generalizing drawn ids with
  | nil =>
    cases h
    exact ⟨hdrawn, fun id => by simp⟩
  | cons n rest ih =>
    rw [nodeElements] at h
    split at h
    · cases h
    · obtain ⟨e, he, h⟩ := exists_of_andThen h
      obtain ⟨hnodup, hkeys⟩ := ih (Entries.nodup_keys_set hdrawn _ _) h
      refine ⟨hnodup, fun id => ?_⟩
      rw [hkeys, Entries.mem_keys_set, List.map_cons, List.mem_cons]
      tauto

/-- Where an id is repeated, there is one shape, for one of the nodes with this id. -/
theorem shows_of_nodeElements {isOutline : Bool} {places : Entries (Place α)} {nodes : List Node}
    {ids : IdSupply}
    (h : (nodeElements style origin isOutline places nodes [] ids).1 = .ok shapes) :
    Shows nodes shapes := by
  have hnone : (Entries.keys ([] : Entries (Element α))).Nodup := List.nodup_nil
  obtain ⟨hnodup, hkeys⟩ := keys_of_nodeElements hnone h
  refine ⟨hnodup, fun id => by simpa [Entries.keys] using hkeys id, fun m hm => ?_⟩
  obtain ⟨n, hn, place, mark, hid, hmade⟩ := (mem_of_nodeElements h m hm).resolve_left nofun
  exact ⟨n, hn, mark, hid, draws_of_nodeElement hmade⟩

end Shapes

/-! ## Arrows -/

section Arrows

/-- The arrow of an edge between two of some shapes. -/
def JoinsIn (shapes : Entries (Element α)) (edge : Edge) (arrow : Element α) : Prop :=
  ∃ mark source target, Entries.get? edge.source shapes = some source ∧
    Entries.get? edge.target shapes = some target ∧ Joins edge mark source.id target.id arrow

variable [Scalar α] {style : DrawingStyle α} {g : Graph}

/-- Edges with the curves that they have if they follow others. -/
def curvesAfter (style : DrawingStyle α) (g : Graph) (before : List Edge) :
    List Edge → List (Edge × α)
  | [] => []
  | edge :: rest =>
    (edge, curveOf style g before edge) :: curvesAfter style g (before ++ [edge]) rest

theorem map_fst_curvesAfter (style : DrawingStyle α) (g : Graph) (before edges : List Edge) :
    (curvesAfter style g before edges).map (·.1) = edges := by
  induction edges generalizing before with
  | nil => rfl
  | cons edge rest ih => exact congrArg (edge :: ·) (ih (before ++ [edge]))

/-- The edges from one node to another one are counted through. -/
theorem curvesAfter_filter (s t : String) (before edges : List Edge) :
    ((curvesAfter style g before edges).filter fun m => m.1.connects s t).map (·.2)
      = (List.range' (before.countP (Edge.connects s t)) (edges.countP (Edge.connects s t))).map
          fun i : Nat => Connector.curve style.bend style.strength i
            (g.edges.countP (Edge.connects s t)) := by
  -- What is counted before an edge is what it has for its index.
  induction edges generalizing before with
  | nil => rfl
  | cons edge rest ih =>
    have hrest := ih (before ++ [edge])
    rw [List.countP_append, List.countP_singleton] at hrest
    rw [curvesAfter, List.filter_cons, List.countP_cons]
    by_cases hedge : edge.connects s t = true
    · have hsame : sameEnds edge = Edge.connects s t := by
        rw [Edge.connects, Bool.and_eq_true, beq_iff_eq, beq_iff_eq] at hedge
        obtain ⟨rfl, rfl⟩ := hedge
        rfl
      rw [if_pos hedge] at hrest
      rw [if_pos hedge, if_pos hedge, List.range'_succ, List.map_cons, List.map_cons, hrest,
        curveOf, hsame]
    · rw [if_neg hedge, Nat.add_zero] at hrest
      rw [if_neg hedge, if_neg hedge, Nat.add_zero, hrest]

theorem joins_of_edgeElement {edge : Edge} {source target e : Element α} {curve : α} {mark : String}
    (h : edgeElement edge source target curve mark = .ok e) :
    Joins edge mark source.id target.id e ∧ e.curve? = some curve := by
  obtain ⟨frame, hframe, h⟩ := exists_of_bind h
  obtain ⟨rfl, -, -⟩ := Frame.checked_eq_ok_iff.mp (checked_of_toDrawing hframe)
  cases h
  exact ⟨⟨rfl, _, rfl, rfl, rfl, rfl⟩, rfl⟩

/-- What is drawn for an edge with a curve between two of some shapes. -/
def DrawnIn (shapes : Entries (Element α)) (m : Edge × α) (arrow : Element α) : Prop :=
  ∃ mark source target, Entries.get? m.1.source shapes = some source ∧
    Entries.get? m.1.target shapes = some target ∧
    edgeElement m.1 source target m.2 mark = .ok arrow

theorem forall₂_arrowsAfter {shapes : Entries (Element α)} {before edges : List Edge}
    {ids : IdSupply} {arrows : List (Element α)}
    (h : (arrowsAfter style g shapes before edges ids).1 = .ok arrows) :
    List.Forall₂ (DrawnIn shapes)
      ((curvesAfter style g before edges).filter fun m =>
        shapes.has m.1.source && shapes.has m.1.target) arrows := by
  induction edges generalizing before ids arrows with
  | nil =>
    cases h
    exact .nil
  | cons edge rest ih =>
    rw [curvesAfter, List.filter_cons]
    unfold arrowsAfter at h
    split at h
    · next source target hsource htarget =>
      obtain ⟨arrow, harrow, h⟩ := exists_of_andThen h
      obtain ⟨arrows', harrows, h⟩ := exists_of_andThen h
      cases h
      rw [if_pos (by simp [Entries.has, hsource, htarget])]
      exact .cons ⟨_, source, target, hsource, htarget, harrow⟩ (ih harrows)
    · next hnone =>
      rw [if_neg]
      · exact ih h
      · intro hhas
        rw [Bool.and_eq_true] at hhas
        obtain ⟨source, hsource⟩ := Option.isSome_iff_exists.mp hhas.1
        obtain ⟨target, htarget⟩ := Option.isSome_iff_exists.mp hhas.2
        exact hnone source target hsource htarget

end Arrows

/-! ## Drawings -/

section Drawings

variable {shapes shapes' : Entries (Element α)}

theorem Restacked.curve?_eq {e e' : Element α} (h : Restacked e e') : e'.curve? = e.curve? := by
  obtain ⟨z, rfl⟩ := h
  cases e with
  | shape f k s => cases k <;> rfl
  | _ => rfl

/-- The arrows of a drawing join the shapes of its nodes, each as an edge asks. -/
def Parts.Joined (p : Parts α) (g : Graph) : Prop :=
  ∃ shapes, Shows g.nodes shapes ∧ p.nodes = shapes.map (·.2) ∧
    List.Forall₂ (JoinsIn shapes) g.innerEdges p.arrows

/-- The curves of the arrows from one node to another one, in the order of edges. -/
def Parts.curves (p : Parts α) (g : Graph) (s t : String) : List (Option α) :=
  ((g.innerEdges.zip p.arrows).filter fun m => m.1.connects s t).map fun m => m.2.curve?

theorem map_filter_zip {β γ δ ε : Type} {f : γ → ε} {k : δ → ε} {ms : List (β × δ)} {cs : List γ}
    (h : List.Forall₂ (fun m c => f c = k m.2) ms cs) (q : β → Bool) :
    (((ms.map (·.1)).zip cs).filter fun m => q m.1).map (fun m => f m.2)
      = ((ms.filter fun m => q m.1).map (·.2)).map k := by
  induction h with
  | nil => rfl
  | @cons m c ms cs hm _ ih =>
    rw [List.map_cons, List.zip_cons_cons, List.filter_cons, List.filter_cons]
    split
    · exact congrArg₂ List.cons hm ih
    · exact ih

variable {g : Graph}

theorem Shows.has_iff (h : Shows g.nodes shapes) {id : String} :
    shapes.has id = true ↔ id ∈ g.nodeIds :=
  Entries.has_eq_true_iff.trans (h.mem_keys id)

variable [Scalar α] {style : DrawingStyle α}

/-- The edges between shapes, with their curves. -/
def curvesWithin (style : DrawingStyle α) (g : Graph) (shapes : Entries (Element α)) :
    List (Edge × α) :=
  (curvesAfter style g [] g.edges).filter fun m => shapes.has m.1.source && shapes.has m.1.target

theorem map_fst_curvesWithin (style : DrawingStyle α) (h : Shows g.nodes shapes) :
    (curvesWithin style g shapes).map (·.1) = g.innerEdges := by
  have hhas (id : String) : shapes.has id = g.nodeIds.contains id := by
    rw [Bool.eq_iff_iff, h.has_iff, List.contains_iff_mem]
  rw [Graph.innerEdges, ← map_fst_curvesAfter style g [] g.edges, List.filter_map]
  simp only [curvesWithin, hhas]
  rfl

theorem curvesWithin_filter (h : Shows g.nodes shapes) {s t : String} (hs : s ∈ g.nodeIds)
    (ht : t ∈ g.nodeIds) :
    let n := g.edges.countP (Edge.connects s t)
    ((curvesWithin style g shapes).filter fun m => m.1.connects s t).map (·.2)
      = (List.range n).map fun i : Nat => Connector.curve style.bend style.strength i n := by
  have hconnects (m : Edge × α) :
      (m.1.connects s t && (shapes.has m.1.source && shapes.has m.1.target))
        = m.1.connects s t := by
    rw [Bool.and_eq_left_iff_imp, Edge.connects, Bool.and_eq_true, beq_iff_eq, beq_iff_eq]
    rintro ⟨rfl, rfl⟩
    rw [h.has_iff.mpr hs, h.has_iff.mpr ht]
    rfl
  simp only [curvesWithin, List.filter_filter, hconnects]
  rw [curvesAfter_filter, List.countP_nil, ← List.range_eq_range']

/-- What holds of the shapes of nodes wherever they are moved, and of the arrows between such shapes
on whatever levels all of them are. -/
structure Describes (V : Element α → Prop) (R : Edge × α → Element α → Element α → Element α → Prop)
    (style : DrawingStyle α) : Prop where
  node : ∀ {origin : Point α} {isOutline : Bool} {place : Place α} {n : Node} {mark : String}
    {e : Element α}, nodeElement style origin isOutline place n mark = .ok e → V e
  moved : ∀ {e e' : Element α}, V e → Moved e e' → V e'
  edge : ∀ {edge : Edge} {source target arrow : Element α} {curve : α} {mark : String},
    V source → V target → edgeElement edge source target curve mark = .ok arrow →
      R (edge, curve) source target arrow
  restacked : ∀ {m : Edge × α} {source source' target target' arrow arrow' : Element α},
    Restacked source source' → Restacked target target' → Restacked arrow arrow' →
      R m source target arrow → R m source' target' arrow'

/-- An arrow between two of some shapes. -/
def Between (R : Edge × α → Element α → Element α → Element α → Prop)
    (shapes : Entries (Element α)) (m : Edge × α) (arrow : Element α) : Prop :=
  ∃ source target, Entries.get? m.1.source shapes = some source ∧
    Entries.get? m.1.target shapes = some target ∧ R m source target arrow

/-- Whatever is drawn of a graph, its arrows follow the edges between its nodes. -/
theorem exists_between_of_ofLayout {V : Element α → Prop}
    {R : Edge × α → Element α → Element α → Element α → Prop} (hR : Describes V R style)
    {l : Layout α} {ids : IdSupply} {origin : Point α} {es : List (Element α)}
    (h : (ofLayout ids g l origin style).1 = .ok es) :
    ∃ (p : Parts α) (shapes : Entries (Element α)), es = p.all ∧ Shows g.nodes shapes ∧
      p.nodes = shapes.map (·.2) ∧
      List.Forall₂ (Between R shapes) (curvesWithin style g shapes) p.arrows := by
  obtain ⟨drawn, hdrawn, h⟩ := exists_of_andThen h
  obtain ⟨packed, hpacked, h⟩ := exists_of_andThen h
  obtain ⟨arrows, harrows, h⟩ := exists_of_andThen h
  obtain ⟨⟨stubs, rails⟩, -, h⟩ := exists_of_andThen h
  cases h
  have hmoved : Entries.Alike Moved drawn packed := alike_of_packLayers hpacked
  have hshows : Shows g.nodes packed :=
    (shows_of_nodeElements hdrawn).alike hmoved fun h he => h.moved he
  have hV : ∀ {id : String} {e : Element α}, Entries.get? id packed = some e → V e := by
    intro id e he
    obtain ⟨e₀, he₀, hmove⟩ := hmoved.exists_get? he
    obtain ⟨n, -, place, mark, -, hmade⟩ :=
      (mem_of_nodeElements hdrawn _ (Entries.mem_of_get? he₀)).resolve_left nofun
    exact hR.moved (hR.node hmade) hmove
  -- All elements get their levels at the end, the shapes as well as the arrows.
  let p : Parts α := ⟨packed.map (·.2), stubs, arrows, rails⟩
  obtain ⟨shapes, hlevels, hshapes⟩ :=
    Entries.Alike.exists_of_forall₂ (restacked_numberedFrom 0 p.nodes)
  have hcurves : curvesWithin style g shapes = curvesWithin style g packed := by
    simp only [curvesWithin, Entries.has_congr hlevels.keys_eq]
  refine ⟨p.numbered, shapes, p.all_numbered.symm, hshows.alike hlevels fun h he => h.restacked he,
    hshapes.symm, ?_⟩
  rw [hcurves]
  refine forall₂_comp (fun m arrow arrow' hm harrow' => ?_) (forall₂_arrowsAfter harrows)
    (restacked_numberedFrom _ p.arrows)
  obtain ⟨mark, source, target, hsource, htarget, harrow⟩ := hm
  obtain ⟨source', hsource', hs⟩ := hlevels.exists_get?_right hsource
  obtain ⟨target', htarget', ht⟩ := hlevels.exists_get?_right htarget
  exact ⟨source', target', hsource', htarget',
    hR.restacked hs ht harrow' (hR.edge (hV hsource) (hV htarget) harrow)⟩

/-- Arrows join the shapes, and they have the curves that are counted for their edges. -/
theorem describes_curves (style : DrawingStyle α) : Describes (fun _ => True)
    (fun m source target arrow => (∃ mark, Joins m.1 mark source.id target.id arrow) ∧
      arrow.curve? = some m.2) style where
  node _ := trivial
  moved _ _ := trivial
  edge _ _ h :=
    have ⟨hjoins, hcurve⟩ := joins_of_edgeElement h
    ⟨⟨_, hjoins⟩, hcurve⟩
  restacked hs ht he h := by
    obtain ⟨⟨mark, hjoins⟩, hcurve⟩ := h
    exact ⟨⟨mark, hs.id_eq ▸ ht.id_eq ▸ hjoins.restacked he⟩, he.curve?_eq.trans hcurve⟩

/-- Whatever is drawn of a graph, its arrows follow its edges, and those from one node to another
one are counted through. -/
theorem exists_parts_of_ofLayout {l : Layout α} {ids : IdSupply} {origin : Point α}
    {es : List (Element α)} (h : (ofLayout ids g l origin style).1 = .ok es) :
    ∃ p : Parts α, es = p.all ∧ p.Joined g ∧ ∀ s ∈ g.nodeIds, ∀ t ∈ g.nodeIds,
      let n := g.edges.countP (Edge.connects s t)
      p.curves g s t = ((List.range n).map fun i : Nat =>
        Connector.curve style.bend style.strength i n).map some := by
  obtain ⟨p, shapes, hall, hshows, hnodes, harrows⟩ :=
    exists_between_of_ofLayout (describes_curves style) h
  have hedges := map_fst_curvesWithin style hshows
  refine ⟨p, hall, ⟨shapes, hshows, hnodes, ?_⟩, ?_⟩
  · rw [← hedges, List.forall₂_map_left_iff]
    refine harrows.imp fun m arrow ⟨source, target, hsource, htarget, hjoins, _⟩ => ?_
    exact hjoins.imp fun mark hjoins => ⟨source, target, hsource, htarget, hjoins⟩
  · intro s hs t ht n
    rw [Parts.curves, ← hedges, map_filter_zip, curvesWithin_filter hshows hs ht]
    exact harrows.imp fun m arrow ⟨_, _, _, _, _, hcurve⟩ => hcurve

/-- The arrows from one node to another one fan out, each of them with a curve. -/
def Parts.Fans (p : Parts α) (g : Graph) (s t : String) : Prop :=
  ∃ cs : List α, p.curves g s t = cs.map some ∧
    cs.length = g.edges.countP (Edge.connects s t) ∧ FansOut cs

theorem exists_fans_of_ofLayout (hα : Balanced α) (hbend : style.bend = true)
    (hstrength : style.strength = DrawingStyle.initial.strength) {l : Layout α} {ids : IdSupply}
    {origin : Point α} {es : List (Element α)} (h : (ofLayout ids g l origin style).1 = .ok es) :
    ∃ p : Parts α, es = p.all ∧ p.Joined g ∧ ∀ s ∈ g.nodeIds, ∀ t ∈ g.nodeIds,
      let n := g.edges.countP (Edge.connects s t)
      2 ≤ n → Connector.Spreads α n → p.Fans g s t := by
  obtain ⟨p, hall, hjoined, hcurves⟩ := exists_parts_of_ofLayout h
  refine ⟨p, hall, hjoined, fun s hs t ht hn hspreads => ?_⟩
  have hfans := Connector.fansOut_of_spreads hα hn hspreads
  have hcurves := hcurves s hs t ht
  rw [hbend, hstrength] at hcurves
  exact ⟨_, hcurves, by rw [List.length_map, List.length_range], hfans⟩

end Drawings

/-- With exact numbers, a valid graph whose colors can be read is drawn. -/
theorem exists_ofLayout_of_valid {α : Type} [Field α] [LinearOrder α] [IsStrictOrderedRing α]
    [FloorRing α] [Trigonometry α] {g : Graph} (hvalid : ∀ f ∈ g.findings, f.severity ≠ .error)
    (hfill : ∀ n ∈ g.nodes, HexOrAbsent n) (ids : IdSupply) (origin : Point α)
    (style : DrawingStyle α) :
    ∃ l es, Layout.choose g style.spacing = .ok l ∧
      (ofLayout ids g l origin style).1 = .ok es := by
  by_cases hne : g.nodes = []
  · obtain ⟨l, hl, hlayers⟩ := Layout.exists_choose_empty hne style.spacing
    exact ⟨l, [], hl, ofLayout_of_nodes_eq_nil hne hlayers ids origin style⟩
  · have hg : g.WellFormed := (Graph.wellFormed_iff_findings hne).mpr hvalid
    have hα : UnboundedScalar α := Scalar.unboundedScalar_ofField
    obtain ⟨l, hl⟩ := Layout.exists_choose hα.holdsInt hg hne style.spacing
    obtain ⟨es, hes, -⟩ := (meets_ofLayout (keeps_valid hα style g)
      (Layout.covers_of_choose hg hne hl) hg hfill ids origin).exists_ok hα
    exact ⟨l, es, hl, hes⟩

theorem exists_ofLayout_of_toBool {α : Type} [Scalar α] {g : Graph} {ids : IdSupply}
    {origin : Point α} {style : DrawingStyle α}
    (h : (ofGraph ids g origin style).1.toBool = true) :
    ∃ l es, Layout.choose g style.spacing = .ok l ∧
      (ofLayout ids g l origin style).1 = .ok es := by
  unfold ofGraph at h
  cases hl : Layout.choose g style.spacing with
  | error e =>
    rw [hl] at h
    cases h
  | ok l =>
    rw [hl] at h
    dsimp only at h
    cases hes : (ofLayout ids g l origin style).1 with
    | error e =>
      rw [hes] at h
      cases h
    | ok es => exact ⟨l, es, rfl, hes⟩

/-- With the default bend and strength, two or more arrows from one node to another one fan out: in
the order of edges one half goes all the way to one side and the other half to the other side, with
a straight one between them where their number is odd. With doubles they must be few enough to be
counted. -/
theorem fans_of_ofLayout (g : Graph) (ids : IdSupply) :
    (∀ (α : Type) [Field α] [LinearOrder α] [IsStrictOrderedRing α] [FloorRing α] [Trigonometry α]
        (origin : Point α) (style : DrawingStyle α), style.bend = true →
      style.strength = DrawingStyle.initial.strength →
        ((∀ f ∈ g.findings, f.severity ≠ .error) → (∀ n ∈ g.nodes, HexOrAbsent n) →
          ∃ l es, Layout.choose g style.spacing = .ok l ∧
            (ofLayout ids g l origin style).1 = .ok es) ∧
        ∀ l es, (ofLayout ids g l origin style).1 = .ok es →
          ∃ p : Parts α, es = p.all ∧ p.Joined g ∧ ∀ s ∈ g.nodeIds, ∀ t ∈ g.nodeIds,
            2 ≤ g.edges.countP (Edge.connects s t) → p.Fans g s t) ∧
      ∀ (origin : Point Double) (style : DrawingStyle Double), style.bend = true →
        style.strength = DrawingStyle.initial.strength →
          ∀ l es, (ofLayout ids g l origin style).1 = .ok es →
            ∃ p : Parts Double, es = p.all ∧ p.Joined g ∧ ∀ s ∈ g.nodeIds, ∀ t ∈ g.nodeIds,
              2 ≤ g.edges.countP (Edge.connects s t) →
                g.edges.countP (Edge.connects s t) ≤ 2 ^ 53 → p.Fans g s t := by
  constructor
  · intro α _ _ _ _ _ origin style hbend hstrength
    refine ⟨fun hvalid hfill => exists_ofLayout_of_valid hvalid hfill ids origin style, ?_⟩
    intro l es hes
    obtain ⟨p, hall, hjoined, hfans⟩ :=
      exists_fans_of_ofLayout balanced_ofField hbend hstrength hes
    exact ⟨p, hall, hjoined, fun s hs t ht hn =>
      hfans s hs t ht hn (Connector.spreads_ofField _)⟩
  · intro origin style hbend hstrength l es hes
    obtain ⟨p, hall, hjoined, hfans⟩ :=
      exists_fans_of_ofLayout Double.balanced hbend hstrength hes
    exact ⟨p, hall, hjoined, fun s hs t ht hn hmost =>
      hfans s hs t ht hn (Double.spreads hn hmost)⟩

/-- Five arrows from one node to another one, beside one that goes back and a loop. -/
theorem fans_of_ofLayout_five :
    let g : Graph :=
      { nodes := [.bare "a", .bare "b"]
        edges := [⟨"a", "b", "", .arrow⟩, ⟨"b", "a", "", .arrow⟩, ⟨"a", "b", "", .thick⟩,
          ⟨"a", "b", "again", .arrow⟩, ⟨"b", "b", "", .dotted⟩, ⟨"a", "b", "", .arrow⟩,
          ⟨"a", "b", "", .dotted⟩] }
    (∃ l es, Layout.choose g (DrawingStyle.initial : DrawingStyle ℝ).spacing = .ok l ∧
      (ofLayout .counting g l ⟨100, 100⟩ (DrawingStyle.initial : DrawingStyle ℝ)).1 = .ok es ∧
      ∃ p : Parts ℝ, es = p.all ∧ p.Joined g ∧ p.Fans g "a" "b") ∧
    ∃ l es, Layout.choose g (DrawingStyle.initial : DrawingStyle Double).spacing = .ok l ∧
      (ofLayout .counting g l ⟨100, 100⟩ (DrawingStyle.initial : DrawingStyle Double)).1 = .ok es ∧
      ∃ p : Parts Double, es = p.all ∧ p.Joined g ∧ p.Fans g "a" "b" := by
  intro g
  have ha : "a" ∈ g.nodeIds := by decide
  have hb : "b" ∈ g.nodeIds := by decide
  have hcount : g.edges.countP (Edge.connects "a" "b") = 5 := by decide
  obtain ⟨hexact, hdouble⟩ := fans_of_ofLayout g .counting
  constructor
  · obtain ⟨hdrawn, hfans⟩ := hexact ℝ ⟨100, 100⟩ .initial rfl rfl
    obtain ⟨l, es, hl, hes⟩ := hdrawn (by decide) (by decide)
    obtain ⟨p, hall, hjoined, hfans⟩ := hfans l es hes
    exact ⟨l, es, hl, hes, p, hall, hjoined, hfans "a" ha "b" hb (by omega)⟩
  · have hdrawn : (ofGraph .counting g ⟨100, 100⟩
        (.initial : DrawingStyle Double)).1.toBool = true := by
      decide +kernel
    obtain ⟨l, es, hl, hes⟩ := exists_ofLayout_of_toBool hdrawn
    obtain ⟨p, hall, hjoined, hfans⟩ := hdouble ⟨100, 100⟩ .initial rfl rfl l es hes
    exact ⟨l, es, hl, hes, p, hall, hjoined, hfans "a" ha "b" hb (by omega) (by omega)⟩

/-- Of four arrows from one node to another one, two lie upon each other on either side. -/
theorem exists_not_distinct :
    let g : Graph :=
      { nodes := [.bare "a", .bare "b"], edges := List.replicate 4 ⟨"a", "b", "", .arrow⟩ }
    ∃ l es, Layout.choose g (DrawingStyle.initial : DrawingStyle Double).spacing = .ok l ∧
      (ofLayout .counting g l ⟨100, 100⟩ (DrawingStyle.initial : DrawingStyle Double)).1 = .ok es ∧
      ∃ p : Parts Double, es = p.all ∧ p.Joined g ∧
        p.curves g "a" "b" = [some (-1), some (-1), some 1, some 1] ∧
        ¬ (p.curves g "a" "b").Nodup := by
  intro g
  have hdrawn : (ofGraph .counting g ⟨100, 100⟩
      (.initial : DrawingStyle Double)).1.toBool = true := by
    decide +kernel
  obtain ⟨l, es, hl, hes⟩ := exists_ofLayout_of_toBool hdrawn
  obtain ⟨p, hall, hjoined, hfans⟩ := exists_fans_of_ofLayout Double.balanced rfl rfl hes
  have hcount : g.edges.countP (Edge.connects "a" "b") = 4 := by decide
  obtain ⟨cs, hcurves, hlength, hfans⟩ := hfans "a" (by decide) "b" (by decide)
    (by omega) (Double.spreads (by omega) (by omega))
  have hsides := hfans.sides
  rw [hlength, hcount] at hsides
  have hlist : p.curves g "a" "b" = [some (-1), some (-1), some 1, some 1] := by
    rw [hcurves, hsides]
    rfl
  exact ⟨l, es, hl, hes, p, hall, hjoined, hlist, by simp [hlist]⟩

end Drawing

end Whiteboard

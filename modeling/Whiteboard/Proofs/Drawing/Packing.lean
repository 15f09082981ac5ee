import Mathlib
import Whiteboard.Proofs.Document.Regrouping
import Whiteboard.Proofs.Drawing.Source
import Whiteboard.Proofs.Graph.Rows

/-!
# Packed layers

A drawing packs each layer again, with the widths that the texts ask for. The ids of different
layers differ, so that what is packed stays as it is, and in a vertical direction each layer becomes
a row of boxes with equal gaps, in the middle of the page and at the height of its rank
(`Drawing.packed_layers`).
-/

namespace Whiteboard

namespace Layout

open Whiteboard.Graph

variable {α : Type} [Scalar α] {g : Graph}

/-- Where ids are unique, the rows of some nodes hold no id twice. -/
theorem nodup_rows {nodes : List Node} (h : (nodes.map (·.id)).Nodup) :
    ((levels nodes).map (idsAt nodes)).flatten.Nodup := by
  rw [List.nodup_flatten]
  constructor
  · intro row hrow
    obtain ⟨level, -, rfl⟩ := List.mem_map.mp hrow
    exact h.sublist (List.filter_sublist.map _)
  · rw [List.pairwise_map]
    refine (nodup_levels nodes).imp fun {level level'} hne id hid hid' => hne ?_
    obtain ⟨n, hn, rfl, rfl⟩ := mem_idsAt.mp hid
    obtain ⟨n', hn', rfl, heq⟩ := mem_idsAt.mp hid'
    rw [List.inj_on_of_nodup_map h hn hn' heq.symm]

/-- No node is in two layers. -/
theorem nodup_layers (hg : g.WellFormed) (hne : g.nodes ≠ []) {spacing : Spacing α} {l : Layout α}
    (h : choose g spacing = .ok l) : l.layers.flatten.Nodup := by
  unfold choose at h
  split at h
  · obtain ⟨places, -, rfl⟩ := exists_of_outline h
    exact nodup_rows (hg.nodup.sublist (List.filter_sublist.map _))
  · obtain ⟨l', hl', hlayers, -⟩ := exists_layered hg hne spacing
    cases hl'.symm.trans h
    rw [hlayers]
    exact ((layered_layers hg hne).of_sameLayers (sameLayers_reduceCrossings g _ _)).nodup

/-- A graph without nodes has a layout without layers. -/
theorem exists_choose_empty (hnodes : g.nodes = []) (spacing : Spacing α) :
    ∃ l, choose g spacing = .ok l ∧ l.layers = [] := by
  have houtline : g.isOutline = false := by simp [Graph.isOutline, hnodes]
  have hlayers : g.layers = [] := if_pos (by rw [hnodes]; rfl)
  have hordered : g.orderedLayers = [] := by
    have hsame : SameLayers g.layers g.orderedLayers := sameLayers_reduceCrossings g _ _
    rw [hlayers] at hsame
    exact List.forall₂_nil_left_iff.mp hsame
  refine ⟨⟨[], []⟩, ?_, rfl⟩
  rw [choose, houtline, if_neg Bool.false_ne_true, layered, hordered]
  rfl

end Layout

namespace Drawing

/-! ## What is packed -/

section Entries

variable {α : Type} [Scalar α] {drawn packed : Entries (Element α)} {layer : List String}

/-- The shapes of a layer are put at its centers, and nothing else happens. -/
theorem exists_packLayer (hkeys : ∀ id ∈ layer, id ∈ drawn.keys) (hnodup : layer.Nodup)
    (style : DrawingStyle α) (origin : Point α) (horizontal : Bool) (rank : Int) :
    ∃ es packed, packLayer style origin horizontal rank layer drawn = .ok packed ∧
      List.Forall₂ (fun id e => Entries.get? id drawn = some e) layer es ∧
      List.Forall₂ (fun id e => Entries.get? id packed = some e) layer
        (List.zipWith (centerAt origin)
          (Layout.centers (es.map Element.width) rank horizontal style.spacing) es) ∧
      ∀ id, id ∉ layer → Entries.get? id packed = Entries.get? id drawn := by
  obtain ⟨es, hes, hget⟩ := exists_layerElements hkeys
  let centers := Layout.centers (es.map Element.width) rank horizontal style.spacing
  let located : Entries (Element α) := (layer.zip (es.zip centers)).map fun m =>
    (m.1, centerAt origin m.2.2 m.2.1)
  have hcenters : centers.length = es.length := by
    rw [Layout.length_centers, List.length_map]
  have hlength : layer.length = (es.zip centers).length := by
    rw [List.length_zip, hcenters, min_self, hget.length_eq]
  have hlocated : located.keys = layer := by
    have hmap : located.keys = (layer.zip (es.zip centers)).map (·.1) := List.map_map
    rw [hmap, List.map_fst_zip hlength.le]
  have hvalues : located.map (·.2) = List.zipWith (centerAt origin) centers es := by
    have hmap : located.map (·.2) = ((layer.zip (es.zip centers)).map (·.2)).map
        fun m => centerAt origin m.2 m.1 := by
      rw [List.map_map, List.map_map]
      rfl
    rw [hmap, List.map_snd_zip hlength.ge, List.zipWith_comm]
    exact List.map_zip_eq_zipWith
  refine ⟨es, drawn.merge located, ?_, hget, ?_, fun id hid => ?_⟩
  · rw [packLayer, hes, Entries.merge, List.foldl_map]
    rfl
  · have hput := Entries.forall₂_get? (hlocated ▸ hnodup)
    rw [hlocated, hvalues] at hput
    refine hput.imp fun id e he => ?_
    rw [Entries.get?_merge_of_nodup (hlocated ▸ hnodup), he]
    rfl
  · refine Entries.get?_merge_of_eq_none (Entries.get?_eq_none_of_forall fun m hm heq => ?_)
    exact hid (hlocated ▸ heq ▸ List.mem_map_of_mem hm)

end Entries

/-! ## Rows -/

variable {α : Type} [Field α] [LinearOrder α] [FloorRing α] [Trigonometry α]

/-- Boxes at one height, from an edge on, each a gap behind the one before it, up to where the next
one would begin. -/
inductive Abreast (gap y : α) : α → List (Box α) → α → Prop where
  | nil (left : α) : Abreast gap y left [] left
  | cons {b : Box α} {rest : List (Box α)} {left next : α} (hx : b.x = left)
    (hy : b.center.y = y) (h : Abreast gap y (b.right + gap) rest next) :
    Abreast gap y left (b :: rest) next

section Abreast

variable {gap y left next : α} {row : List (Box α)}

theorem Abreast.level (h : Abreast gap y left row next) : ∀ b ∈ row, b.center.y = y := by
  induction h with
  | nil => nofun
  | cons _ hy _ ih => exact List.forall_mem_cons.mpr ⟨hy, ih⟩

theorem Abreast.head (h : Abreast gap y left row next) : ∀ first ∈ row.head?, first.x = left := by
  cases h with
  | nil => nofun
  | cons hx => simpa using hx

theorem Abreast.last (h : Abreast gap y left row next) :
    ∀ last ∈ row.getLast?, last.right + gap = next := by
  induction h with
  | nil => nofun
  | @cons b rest left next hx hy h ih =>
    cases h with
    | nil => simp
    | cons => simpa using ih

theorem Abreast.isChain (h : Abreast gap y left row next) :
    row.IsChain fun b b' => b'.x = b.right + gap := by
  induction h with
  | nil => exact .nil
  | cons _ _ h ih => exact ih.cons h.head

variable [IsStrictOrderedRing α]

/-- Unless a gap takes back more than a box, the boxes ascend. -/
theorem Abreast.bounds (h : Abreast gap y left row next) (hgap : ∀ b ∈ row, 0 ≤ b.width + gap) :
    left ≤ next ∧ ∀ b ∈ row, left ≤ b.x ∧ b.right + gap ≤ next := by
  induction h with
  | nil left => exact ⟨le_refl left, nofun⟩
  | @cons b rest left next hx hy h ih =>
    rw [List.forall_mem_cons] at hgap
    obtain ⟨hnext, hrest⟩ := ih hgap.2
    have hstep : left ≤ b.right + gap := by
      have hsum : b.right + gap = b.x + (b.width + gap) := add_assoc b.x b.width gap
      rw [hsum, hx]
      exact le_add_of_nonneg_right hgap.1
    refine ⟨hstep.trans hnext, List.forall_mem_cons.mpr ⟨⟨hx.ge, hnext⟩, fun b' hb' => ?_⟩⟩
    exact ⟨hstep.trans (hrest b' hb').1, (hrest b' hb').2⟩

theorem Abreast.pairwise (h : Abreast gap y left row next)
    (hgap : ∀ b ∈ row, 0 ≤ b.width + gap) :
    row.Pairwise fun b b' => b.right + gap ≤ b'.x := by
  induction h with
  | nil => exact .nil
  | cons _ _ h ih =>
    rw [List.forall_mem_cons] at hgap
    exact .cons (fun b' hb' => ((h.bounds hgap.2).2 b' hb').1) (ih hgap.2)

end Abreast

/-- A row of boxes around a point: with a gap between neighbors, as a whole in the middle, and at
one height. -/
structure Packed (gap : α) (middle : Point α) (row : List (Box α)) : Prop where
  gaps : row.IsChain fun b b' => b'.x = b.right + gap
  centered : ∀ first ∈ row.head?, ∀ last ∈ row.getLast?, (first.x + last.right) / 2 = middle.x
  level : ∀ b ∈ row, b.center.y = middle.y
  width_nonneg : ∀ b ∈ row, 0 ≤ b.width
  /-- Unless a negative gap takes back a whole box, the first and the last box span the row. -/
  spanned : (∀ b ∈ row, 0 ≤ b.width + gap) → ∀ b ∈ row, ∀ first ∈ row.head?,
    ∀ last ∈ row.getLast?, first.x ≤ b.x ∧ b.right ≤ last.right
  /-- Nor is a box closer to a further one than to its neighbor. -/
  apart : (∀ b ∈ row, 0 ≤ b.width + gap) → row.Pairwise fun b b' => b.right + gap ≤ b'.x

/-- Boxes abreast are packed around the middle between their outer edges. -/
theorem Abreast.packed {gap left next : α} {middle : Point α} {row : List (Box α)}
    [IsStrictOrderedRing α] (h : Abreast gap middle.y left row next)
    (hmiddle : row ≠ [] → (left + (next - gap)) / 2 = middle.x)
    (hwidth : ∀ b ∈ row, 0 ≤ b.width) : Packed gap middle row where
  gaps := h.isChain
  centered first hfirst last hlast := by
    have hlast : last.right = next - gap := eq_sub_of_add_eq (h.last last hlast)
    rw [h.head first hfirst, hlast]
    exact hmiddle fun hnil => by simp [hnil] at hfirst
  level := h.level
  width_nonneg := hwidth
  spanned hgap b hb first hfirst last hlast := by
    obtain ⟨hleft, hright⟩ := (h.bounds hgap).2 b hb
    rw [← h.head first hfirst] at hleft
    rw [← h.last last hlast] at hright
    exact ⟨hleft, le_of_add_le_add_right hright⟩
  apart := h.pairwise

/-! ## Packing a layer -/

section Layer

variable {gap y : α}

/-- The box of an element whose middle was put at a place. -/
theorem box_centerAt (origin : Point α) (center : α × α) (e : Element α) :
    (centerAt origin center e).frame.box =
      ⟨origin.x + center.1 - e.width / 2, origin.y + center.2 - e.height / 2, e.width,
        e.height⟩ := by
  rw [centerAt, Element.moveTo, Element.frame_mapFrame]
  rfl

/-- What is packed from an offset on stands abreast. -/
theorem abreast_packFrom (origin : Point α) (offset : α) (es : List (Element α)) :
    Abreast gap (origin.y + y) (origin.x + offset)
      ((List.zipWith (centerAt origin) (Layout.packFrom gap y offset (es.map Element.width)) es).map
        fun e => e.frame.box)
      (origin.x + offset + ((es.map Element.width).sum + es.length * gap)) := by
  -- The offset is where the next box begins: it goes on by a box and a gap.
  induction es generalizing offset with
  | nil =>
    have hnil : Abreast gap (origin.y + y) (origin.x + offset) [] (origin.x + offset) := .nil _
    simpa using hnil
  | cons e rest ih =>
    rw [List.map_cons, Layout.packFrom, List.zipWith_cons_cons, List.map_cons, box_centerAt]
    have hx (o c half : α) : o + (c + half) - half = o + c := by ring
    have hy (o c half : α) : o + c - half + half = o + c := by ring
    have hright (o c half w : α) : o + (c + half) - half + w + gap = o + (c + (w + gap)) := by
      ring
    have hnext (o c w total n : α) : o + c + (w + total + (n + 1) * gap)
        = o + (c + (w + gap)) + (total + n * gap) := by ring
    refine .cons (hx ..) (hy ..) ?_
    rw [List.sum_cons, List.length_cons, Nat.cast_succ, hnext]
    exact (hright ..).symm ▸ ih (offset + (e.width + gap))

/-- The centers of a row: packed around zero. -/
theorem centers_row (widths : List α) (rank : Int) (spacing : Spacing α) :
    Layout.centers widths rank false spacing = Layout.packFrom spacing.node
      (Scalar.ofInt rank * spacing.layer.step)
      (-(widths.sum + ((widths.length - 1 : Nat) : α) * spacing.node) / 2) widths := by
  rw [Layout.centers, Scalar.sum_ofField, Scalar.ofNat_ofField]
  rfl

variable [IsStrictOrderedRing α]

/-- A layer is packed around the origin. -/
theorem packed_centers (origin : Point α) (rank : Int) (spacing : Spacing α) {es : List (Element α)}
    (hwidth : ∀ e ∈ es, 0 ≤ e.width) :
    Packed spacing.node ⟨origin.x, origin.y + Scalar.ofInt rank * spacing.layer.step⟩
      ((List.zipWith (centerAt origin) (Layout.centers (es.map Element.width) rank false spacing)
        es).map fun e => e.frame.box) := by
  rw [centers_row, List.length_map]
  refine (abreast_packFrom origin _ es).packed (fun hne => ?_) fun b hb => ?_
  · have hpos : 0 < es.length := by
      rw [List.length_pos_iff]
      rintro rfl
      simp at hne
    have hcount : ((es.length - 1 : Nat) : α) * spacing.node
        = (es.length : α) * spacing.node - spacing.node := by
      rw [Nat.cast_pred hpos, sub_mul, one_mul]
    have hmiddle (o sum gaps gap : α) : (o + -(sum + (gaps - gap)) / 2
        + (o + -(sum + (gaps - gap)) / 2 + (sum + gaps) - gap)) / 2 = o := by
      simp only [Scalar.instOfNat_eq, Nat.cast_ofNat]
      ring
    rw [hcount]
    exact hmiddle ..
  · obtain ⟨i, hi, rfl⟩ := List.getElem_of_mem hb
    rw [List.getElem_map, List.getElem_zipWith, box_centerAt]
    exact hwidth _ (List.getElem_mem _)

end Layer

/-! ## Packing all layers -/

section Layers

variable {drawn packed : Entries (Element α)}

/-- A layer stands as a row around a point. -/
def StandsAround (middle : Point α) (gap : α) (packed : Entries (Element α)) (layer : List String) :
    Prop :=
  ∃ row, List.Forall₂ (fun id e => Entries.get? id packed = some e) layer row ∧
    Packed gap middle (row.map fun e => e.frame.box)

theorem StandsAround.congr {middle : Point α} {gap : α} {layer : List String}
    (h : StandsAround middle gap drawn layer)
    (hget : ∀ id ∈ layer, Entries.get? id packed = Entries.get? id drawn) :
    StandsAround middle gap packed layer := by
  obtain ⟨row, hrow, hpacked⟩ := h
  refine ⟨row, ?_, hpacked⟩
  rw [List.forall₂_iff_zip] at hrow ⊢
  exact ⟨hrow.1, fun hmem => (hget _ (List.of_mem_zip hmem).1).trans (hrow.2 hmem)⟩

/-- The point around which the `i`-th of `count` layers stands. -/
def middleOf (style : DrawingStyle α) (origin : Point α) (direction : Direction) (count i : Nat) :
    Point α :=
  ⟨origin.x, origin.y + Scalar.ofInt (Layout.rankOf direction count i) * style.spacing.layer.step⟩

variable [IsStrictOrderedRing α]

/-- Packing a layer does not touch the layers that are packed already. -/
theorem standsAround_of_packLayers {style : DrawingStyle α} {origin : Point α}
    {direction : Direction} {layers : List (List String)} {count i : Nat}
    (hdirection : direction.isHorizontal = false) (hnodup : layers.flatten.Nodup)
    (hdrawn : ∀ id ∈ layers.flatten, ∃ e, Entries.get? id drawn = some e ∧ 0 ≤ e.width)
    (h : packLayers style origin direction count i layers drawn = .ok packed) :
    (∀ id, id ∉ layers.flatten → Entries.get? id packed = Entries.get? id drawn) ∧
      ∀ (j : Nat) (layer : List String), layers[j]? = some layer →
        StandsAround (middleOf style origin direction count (i + j)) style.spacing.node packed
          layer := by
  induction layers generalizing drawn i with
  | nil =>
    cases h
    exact ⟨fun _ _ => rfl, nofun⟩
  | cons layer rest ih =>
    rw [List.flatten_cons, List.forall_mem_append] at hdrawn
    rw [List.flatten_cons, List.nodup_append] at hnodup
    obtain ⟨hlayer, hrest, hdisjoint⟩ := hnodup
    have hkeys : ∀ id ∈ layer, id ∈ drawn.keys := fun id hid =>
      have ⟨_, he, _⟩ := hdrawn.1 id hid
      Entries.mem_keys_of_get? he
    obtain ⟨es, between, hpack, hget, hput, hother⟩ := exists_packLayer hkeys hlayer style origin
      direction.isHorizontal (Layout.rankOf direction count i)
    have hwidth : ∀ e ∈ es, 0 ≤ e.width := by
      intro e he
      obtain ⟨id, hid, hfound⟩ := exists_of_mem_right hget he
      obtain ⟨e', he', hnonneg⟩ := hdrawn.1 id hid
      rw [hfound, Option.some_inj] at he'
      exact he' ▸ hnonneg
    have hbetween : ∀ id ∈ rest.flatten, Entries.get? id between = Entries.get? id drawn :=
      fun id hid => hother id fun hmem => hdisjoint id hmem id hid rfl
    rw [packLayers, hpack] at h
    obtain ⟨hsame, hrows⟩ := ih hrest (fun id hid => hbetween id hid ▸ hdrawn.2 id hid) h
    refine ⟨fun id hid => ?_, fun j layer' hj => ?_⟩
    · rw [List.flatten_cons, List.mem_append, not_or] at hid
      exact (hsame id hid.2).trans (hother id hid.1)
    · cases j with
      | zero =>
        -- The layers behind this one have other ids, so that it stays as it was packed.
        cases hj
        rw [hdirection] at hput
        have hrow : StandsAround (middleOf style origin direction count i) style.spacing.node
            between layer := ⟨_, hput, packed_centers origin _ _ hwidth⟩
        exact hrow.congr fun id hid => hsame id fun hmem => hdisjoint id hid id hmem rfl
      | succ j =>
        have hindex : i + 1 + j = i + (j + 1) := by omega
        exact hindex ▸ hrows j layer' hj

end Layers

/-! ## The drawing -/

/-- Nothing is drawn of edges alone. -/
theorem ofLayout_of_nodes_eq_nil {g : Graph} {l : Layout α} (hnodes : g.nodes = [])
    (hlayers : l.layers = []) (ids : IdSupply) (origin : Point α) (style : DrawingStyle α) :
    (ofLayout ids g l origin style).1 = .ok [] := by
  have harrows (before edges : List Edge) (ids : IdSupply) :
      arrowsAfter style g [] before edges ids = (.ok [], ids) := by
    induction edges generalizing before with
    | nil => rfl
    | cons edge rest ih => exact ih (before ++ [edge])
  have houtline : g.isOutline = false := by simp [Graph.isOutline, hnodes]
  rw [ofLayout, hnodes, hlayers]
  simp [nodeElements, Drafting.andThen, packLayers, harrows, scaffolding, houtline,
    Element.renumbered]

variable [IsStrictOrderedRing α]

/-- In a vertical direction the layers of a valid graph whose colors can be read are drawn as rows,
whatever the sizes of its texts: with the gap that is asked for between the shapes, in the middle of
the page, and each as far down as its rank tells. -/
theorem packed_layers {g : Graph} (hvalid : ∀ f ∈ g.findings, f.severity ≠ .error)
    (hfill : ∀ n ∈ g.nodes, HexOrAbsent n)
    (hdirection : g.direction = .tb ∨ g.direction = .td ∨ g.direction = .bt) (ids : IdSupply)
    (origin : Point α) (style : DrawingStyle α) :
    ∃ (l : Layout α) (p : Parts α), Layout.choose g style.spacing = .ok l ∧
      (ofLayout ids g l origin style).1 = .ok p.all ∧
      List.Forall₂ (fun m e => Draws m.1 m.2 e)
        (g.nodes.zip (ids.shortIds g.nodes.length)) p.nodes ∧
      ∀ (i : Nat) (layer : List String), l.layers[i]? = some layer →
        let rank : Int := if g.direction = .bt then (l.layers.length : Int) - 1 - i else i
        ∃ row, List.Forall₂ (p.StandsFor g) layer row ∧
          Packed style.spacing.node
            ⟨origin.x, origin.y + Scalar.ofInt rank * style.spacing.layer.step⟩
            (row.map fun e => e.frame.box) := by
  by_cases hne : g.nodes = []
  · obtain ⟨l, hl, hlayers⟩ := Layout.exists_choose_empty hne style.spacing
    refine ⟨l, ⟨[], [], [], []⟩, hl, ofLayout_of_nodes_eq_nil hne hlayers ids origin style, ?_, ?_⟩
    · rw [hne]
      exact .nil
    · rw [hlayers]
      nofun
  · have hg : g.WellFormed := (Graph.wellFormed_iff_findings hne).mpr hvalid
    have hα : UnboundedScalar α := Scalar.unboundedScalar_ofField
    obtain ⟨l, hl⟩ := Layout.exists_choose hα.holdsInt hg hne style.spacing
    have hcovers : l.Covers g := Layout.covers_of_choose hg hne hl
    obtain ⟨es, hes, drawn, packed, p, hp, rfl⟩ := (meets_drawnParts (keeps_valid hα style g)
      hcovers hg hfill ids origin).exists_ok hα
    have hdrawn : ∀ id ∈ l.layers.flatten, ∃ e, Entries.get? id drawn = some e ∧ 0 ≤ e.width := by
      intro id hid
      obtain ⟨e, he⟩ := Entries.exists_get?_of_mem_keys (hp.before.keys ▸ hcovers.layer id hid)
      obtain ⟨-, -, -, hvalid⟩ := exists_of_mem_right hp.before.nodes (Entries.mem_of_get? he)
      exact ⟨e, he, hvalid.sides_nonneg.1⟩
    have hhorizontal : g.direction.isHorizontal = false := by
      rcases hdirection with h | h | h <;> rw [h] <;> rfl
    obtain ⟨-, hrows⟩ := standsAround_of_packLayers hhorizontal (Layout.nodup_layers hg hne hl)
      hdrawn hp.pack
    refine ⟨l, p.numbered, hl, ?_, hp.complete.numbered.nodes, fun i layer hi => ?_⟩
    · rw [hes, p.all_numbered]
    · obtain ⟨row, hrow, hpacked⟩ := hrows i layer hi
      obtain ⟨row', hrow', hboxes⟩ := Parts.exists_row_numbered
        (hrow.imp fun id e he => hp.after.standsFor hp.nodes he)
      have hrank : Layout.rankOf g.direction l.layers.length (0 + i)
          = if g.direction = .bt then (l.layers.length : Int) - 1 - i else i := by
        rw [Nat.zero_add]
        rcases hdirection with h | h | h <;> rw [h] <;> rfl
      rw [middleOf, hrank, ← hboxes] at hpacked
      exact ⟨row', hrow', hpacked⟩

/-- Three layers from the bottom up, the middle one with a wide text beside a diamond, and a gap
that is not whole. -/
theorem packed_layers_upward :
    let g : Graph :=
      { nodes := [.bare "a",
          { Node.bare "b" with label := "a text that is wider than its place", shape := .circle },
          { Node.bare "c" with fill := some "#FB7185", shape := .diamond }, .bare "d"]
        edges := [⟨"a", "b", "", .arrow⟩, ⟨"a", "c", "", .dotted⟩, ⟨"b", "d", "", .thick⟩]
        direction := .bt }
    let style : DrawingStyle ℝ := { (DrawingStyle.initial : DrawingStyle ℝ) with
      spacing := ⟨0.5, .whole 220⟩ }
    (∀ f ∈ g.findings, f.severity ≠ .error) ∧ (∀ n ∈ g.nodes, HexOrAbsent n) ∧
      ∃ (l : Layout ℝ) (p : Parts ℝ), Layout.choose g style.spacing = .ok l ∧
        (ofLayout .counting g l ⟨100, 100⟩ style).1 = .ok p.all ∧
        List.Forall₂ (fun m e => Draws m.1 m.2 e)
          (g.nodes.zip (IdSupply.counting.shortIds g.nodes.length)) p.nodes ∧
        ∀ (i : Nat) (layer : List String), l.layers[i]? = some layer →
          let rank : Int := if g.direction = .bt then (l.layers.length : Int) - 1 - i else i
          ∃ row, List.Forall₂ (p.StandsFor g) layer row ∧
            Packed style.spacing.node
              ⟨100, 100 + Scalar.ofInt rank * style.spacing.layer.step⟩
              (row.map fun e => e.frame.box) := by
  intro g style
  have hvalid : ∀ f ∈ g.findings, f.severity ≠ .error := by decide
  have hfill : ∀ n ∈ g.nodes, HexOrAbsent n := by decide
  exact ⟨hvalid, hfill, packed_layers hvalid hfill (.inr (.inr rfl)) .counting ⟨100, 100⟩ style⟩

end Drawing

end Whiteboard

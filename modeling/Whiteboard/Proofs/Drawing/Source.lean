import Whiteboard.Proofs.Board.Range
import Whiteboard.Proofs.Diagram.Fill
import Whiteboard.Proofs.Drawing.Division
import Whiteboard.Proofs.Drawing.Graph
import Whiteboard.Proofs.Graph.Crossing

/-!
# Drawn sources

With exact numbers a diagram source is refused by its reader, or it is drawn: no node is without a
place, no color without digits, no check is failed, and nothing that is drawn comes of a division by
zero, whatever the graph (`Drawing.inRange_of_source`).
-/

namespace Whiteboard

namespace Diagram

/-- A graph that was read is well formed, has nodes, and has colors that can be read. -/
structure Drawable (g : Graph) : Prop where
  wellFormed : g.WellFormed
  ne_nil : g.nodes ≠ []
  fill : ∀ n ∈ g.nodes, Drawing.HexOrAbsent n

theorem drawable_of_parseAs {format : Format} {source : Option String} {g : Graph}
    (h : parseAs format source = .ok g) : Drawable g := by
  rcases wellFormed_of_source format source with ⟨-, herror⟩ | ⟨lines, -, hg, hread⟩
  · rw [herror] at h
    cases h
  · rcases hread with ⟨-, herror⟩ | ⟨hne, hok⟩
    · rw [herror] at h
      cases h
    · rw [hok] at h
      cases h
      exact ⟨hg, hne, fun n hn fill hfill => .inr (isHex_fill_readAs format lines n hn fill hfill)⟩

theorem drawable_of_parse {source format : Option String} {g : Graph}
    (h : parse source format = .ok g) : Drawable g := by
  unfold parse at h
  split at h
  · exact drawable_of_parseAs h
  · split at h
    · exact drawable_of_parseAs h
    · cases h

end Diagram

namespace Drawing

variable {α : Type}

/-- Whatever is drawn with unbounded numbers is valid. -/
theorem keeps_valid [Scalar α] (hα : UnboundedScalar α) (style : DrawingStyle α) (g : Graph) :
    Keeps Element.Valid style g := by
  have := hα.toLawfulScalar
  refine ⟨fun hplace => valid_of_nodeElement hplace,
    fun h => valid_of_edgeElement (curve_mem hα _ _ _ _) h, valid_of_line, ?_⟩
  rintro e _ he ⟨x, y, rfl⟩
  exact he.moveTo x y

theorem exists_ofGraph [Scalar α] (hα : UnboundedScalar α) {g : Graph} (hg : Diagram.Drawable g)
    (ids : IdSupply) (origin : Point α) (style : DrawingStyle α) :
    ∃ es, (ofGraph ids g origin style).1 = .ok es ∧ ∀ e ∈ es, e.Valid := by
  obtain ⟨l, hl⟩ := Layout.exists_choose hα.holdsInt hg.wellFormed hg.ne_nil style.spacing
  have hcovers : l.Covers g := Layout.covers_of_choose hg.wellFormed hg.ne_nil hl
  obtain ⟨es, hes, p, rfl, -, hvalid⟩ := (meets_ofLayout (keeps_valid hα style g) hcovers
    hg.wellFormed hg.fill ids origin).exists_ok hα
  refine ⟨_, ?_, Element.Valid.renumbered hvalid⟩
  rw [ofGraph, hl]
  exact hes

/-- No division by zero takes part in the drawing of a graph: whatever such divisions yielded, the
same would be drawn. Besides constants, divisors are the lengths of the rows of a trunk, offsets
between centers, the numbers of colors in a palette, and in the order of layers the numbers of
positions of which a mean is taken. None of them is zero. -/
structure DividesSafely [Scalar α] (ids : IdSupply) (g : Graph) (origin : Point α)
    (style : DrawingStyle α) : Prop where
  unaffected : ∀ quotient : α → α,
    @ofGraph α (Scalar.dividing quotient) ids g origin style = ofGraph ids g origin style
  row : ∀ level ∈ Layout.levels (g.nodes.filter (!·.isOffTrunk)),
    (Scalar.ofNat (Layout.idsAt (g.nodes.filter (!·.isOffTrunk)) level).length : α) ≠ 0
  offset : ∀ offset : α, Scalar.orElse offset Connector.epsilon ≠ 0
  palette : ∀ colors ∈ [style.palette.fills, style.palette.borders], colors.length ≠ 0 ∧
    ∀ id, id ≠ "" → ∃ i : Nat, Color.hashIndex? id colors.length = some (i : Int) ∧
      colors[i]? = some (Color.pick colors id)
  /-- Means are compared, and one is divided out only where there are positions. -/
  mean : ∀ a b : Graph.Barycenter,
    (a.lt b = true ↔ a.value < b.value) ∧ (a.value ≠ ⊤ → (a.count : ℚ) ≠ 0)

variable [Field α] [LinearOrder α] [FloorRing α] [Trigonometry α]

theorem dividesSafely (ids : IdSupply) (g : Graph) (origin : Point α) (style : DrawingStyle α) :
    DividesSafely ids g origin style where
  unaffected quotient := ofGraph_dividing quotient ids g origin style
  row level hlevel := by
    obtain ⟨n, hn, rfl⟩ := Layout.mem_levels.mp hlevel
    have hpos := List.length_pos_of_mem (Layout.mem_idsAt.mpr ⟨n, hn, rfl, rfl⟩)
    simp only [Scalar.instOfNat_eq, Nat.cast_zero]
    exact Int.cast_ne_zero.mpr (Int.natCast_ne_zero.mpr hpos.ne')
  offset offset := by
    rw [Scalar.instOfNat_eq, Nat.cast_zero]
    exact Connector.orElse_epsilon_ne_zero offset
  palette colors hcolors := by
    have hlength : ∀ colors ∈ [style.palette.fills, style.palette.borders],
        colors.length ≠ 0 := by cases style.palette <;> decide
    exact ⟨hlength colors hcolors, fun _ => Color.exists_hashIndex? (hlength colors hcolors)⟩
  mean a b := ⟨a.lt_iff b, fun hvalue hcount => hvalue (if_pos (Nat.cast_eq_zero.mp hcount))⟩

variable [IsStrictOrderedRing α]

/-- A source that is read is drawn, by elements in range and without a division by zero. -/
theorem inRange_of_source (ids : IdSupply) (source format : Option String) (origin : Point α)
    (style : DrawingStyle α) :
    (∃ e, Diagram.parse source format = .error e ∧
        (ofSource ids source format origin style).1 = .error (.source e)) ∨
      ∃ g es, Diagram.parse source format = .ok g ∧
        (ofSource ids source format origin style).1 = .ok es ∧
        (∀ e ∈ es, e.Valid ∧ e.InRange) ∧ DividesSafely ids g origin style := by
  cases hparse : Diagram.parse source format with
  | error e =>
    refine .inl ⟨e, rfl, ?_⟩
    rw [ofSource, hparse]
  | ok g =>
    obtain ⟨es, hes, hvalid⟩ := exists_ofGraph Scalar.unboundedScalar_ofField
      (Diagram.drawable_of_parse hparse) ids origin style
    refine .inr ⟨g, es, rfl, ?_, fun e he => ⟨hvalid e he, (hvalid e he).inRange⟩,
      dividesSafely ids g origin style⟩
    rw [ofSource, hparse]
    exact hes

/-- Two nodes and an arrow between them are drawn. -/
theorem inRange_of_source_arrow :
    let style : DrawingStyle ℝ := ⟨true, .colorful, 1, Layout.defaultSpacing⟩
    ∃ g es, Diagram.parse (some "A --> B") none = .ok g ∧
      (ofSource .counting (some "A --> B") none ⟨0, 0⟩ style).1 = .ok es ∧
      (∀ e ∈ es, e.Valid ∧ e.InRange) ∧ DividesSafely .counting g ⟨0, 0⟩ style := by
  intro style
  refine (inRange_of_source .counting (some "A --> B") none ⟨0, 0⟩ style).resolve_left ?_
  rintro ⟨e, he, -⟩
  have hread : (Diagram.parse (some "A --> B") none).toBool = true := by decide +kernel
  rw [he] at hread
  contradiction

end Drawing

end Whiteboard

import Whiteboard.Drawing
import Whiteboard.Proofs.Scalar.Exact

/-!
# Divisions in drawings

With exact numbers, no drawing depends on what a division by zero would yield
(`Drawing.ofGraph_dividing`): the same definitions are read with other quotients by zero, from those
that divide up to the whole drawing.
-/

namespace Whiteboard

namespace Scalar

/-- The same numbers with other quotients and remainders where something is divided by zero. -/
@[reducible]
def dividing {α : Type} [Scalar α] (quotient : α → α) : Scalar α :=
  { (inferInstance : Scalar α) with
    div := fun x y => if isZero y then quotient x else x / y
    modulo := fun x y => if isZero y then quotient x else modulo x y }

variable {α : Type} [Field α] [LinearOrder α] [FloorRing α] [Trigonometry α] (quotient : α → α)

theorem div_dividing {y : α} (hy : y ≠ 0) (x : α) :
    @HDiv.hDiv α α α (@instHDiv α (dividing quotient).toDiv) x y
      = @HDiv.hDiv α α α (@instHDiv α ofField.toDiv) x y := by
  refine if_neg fun hzero => hy ?_
  have hzero := of_decide_eq_true hzero
  rwa [instOfNat_eq, Nat.cast_zero] at hzero

theorem div_count_dividing {n : Nat} (hn : n ≠ 0) (x : α) :
    @HDiv.hDiv α α α (@instHDiv α (dividing quotient).toDiv) x (@ofNat α (dividing quotient) n)
      = @HDiv.hDiv α α α (@instHDiv α ofField.toDiv) x (ofNat n) := by
  refine div_dividing quotient ?_ x
  change (ofInt n : α) ≠ 0
  exact Int.cast_ne_zero.mpr (Int.natCast_ne_zero.mpr hn)

/-- Numerals are counts. -/
theorem div_ofNat_dividing (n : Nat) (hn : n ≠ 0) (x : α) :
    @HDiv.hDiv α α α (@instHDiv α (dividing quotient).toDiv) x
        (@OfNat.ofNat α n (@instOfNat α (dividing quotient) n))
      = @HDiv.hDiv α α α (@instHDiv α ofField.toDiv) x (@OfNat.ofNat α n (instOfNat n)) :=
  div_count_dividing quotient hn x

theorem div_two_dividing (x : α) :
    @HDiv.hDiv α α α (@instHDiv α (dividing quotient).toDiv) x
        (@OfNat.ofNat α 2 (@instOfNat α (dividing quotient) 2))
      = @HDiv.hDiv α α α (@instHDiv α ofField.toDiv) x (@OfNat.ofNat α 2 (instOfNat 2)) :=
  div_ofNat_dividing quotient 2 (by decide) x

end Scalar

variable {α : Type} [Field α] [LinearOrder α] [FloorRing α] [Trigonometry α] (quotient : α → α)

open Scalar

namespace Layout

theorem packFrom_dividing (gap y offset : α) (widths : List α) :
    @packFrom α (dividing quotient) gap y offset widths = packFrom gap y offset widths := by
  induction widths generalizing offset with
  | nil => rfl
  | cons w rest ih =>
    unfold packFrom
    rw [ih, div_two_dividing]

theorem centers_dividing (widths : List α) (rank : Int) (horizontal : Bool) (spacing : Spacing α) :
    @centers α (dividing quotient) widths rank horizontal spacing
      = centers widths rank horizontal spacing := by
  unfold centers
  simp only [packFrom_dividing, div_two_dividing]
  rfl

theorem placeLayer_dividing (g : Graph) (spacing : Spacing α) (count i : Nat) (layer : List String)
    (places : Entries (Place α)) :
    @placeLayer α (dividing quotient) g spacing count i layer places
      = placeLayer g spacing count i layer places := by
  unfold placeLayer
  simp only [centers_dividing]
  rfl

theorem placeLayers_dividing (g : Graph) (spacing : Spacing α) (count i : Nat)
    (layers : List (List String)) (places : Entries (Place α)) :
    @placeLayers α (dividing quotient) g spacing count i layers places
      = placeLayers g spacing count i layers places := by
  induction layers generalizing i places with
  | nil => rfl
  | cons layer rest ih =>
    unfold placeLayers
    rw [placeLayer_dividing]
    exact congrArg _ (funext fun places => ih (i + 1) places)

theorem layered_dividing (g : Graph) (spacing : Spacing α) :
    @layered α (dividing quotient) g spacing = layered g spacing := by
  unfold layered
  simp only [placeLayers_dividing]

theorem placeTrunk_dividing (g : Graph) (y : α) (row : List String) (places : Entries (Place α)) :
    @placeTrunk α (dividing quotient) g y row places = placeTrunk g y row places := by
  cases row with
  | nil => rfl
  | cons id rest =>
    have hlength : (id :: rest).length ≠ 0 := Nat.succ_ne_zero _
    unfold placeTrunk
    simp only [div_two_dividing, div_count_dividing quotient hlength]
    rfl

theorem placeDecisions_dividing (g : Graph) (y : α) (row : List String)
    (places : Entries (Place α)) :
    @placeDecisions α (dividing quotient) g y row places = placeDecisions g y row places := by
  unfold placeDecisions
  simp only [div_two_dividing]
  rfl

theorem placeLevels_dividing (g : Graph) (pitch : Pitch α) (decisions : List Node)
    (levels : List Int) (places : Entries (Place α)) :
    @placeLevels α (dividing quotient) g pitch decisions levels places
      = placeLevels g pitch decisions levels places := by
  induction levels generalizing places with
  | nil => rfl
  | cons level rest ih =>
    unfold placeLevels
    simp only [placeDecisions_dividing, ih]
    rfl

theorem outline_dividing (g : Graph) (pitch : Pitch α) :
    @outline α (dividing quotient) g pitch = outline g pitch := by
  unfold outline
  simp only [placeTrunk_dividing, placeLevels_dividing]
  rfl

theorem choose_dividing (g : Graph) (spacing : Spacing α) :
    @choose α (dividing quotient) g spacing = choose g spacing := by
  unfold choose
  rw [outline_dividing, layered_dividing]

end Layout

namespace Color

theorem share_dividing (n : Int) (shift : Nat) :
    @share α (dividing quotient) n shift = share n shift :=
  div_ofNat_dividing quotient 255 (by decide) _

theorem readable_dividing (background : String) :
    @readable α (dividing quotient) background = readable α background := by
  unfold readable luminance
  simp only [share_dividing]

/-- An id has an index among colors, and the color there is the one that it picks. -/
theorem exists_hashIndex? {colors : List String} (hcolors : colors.length ≠ 0) {id : String}
    (hid : id ≠ "") :
    ∃ i : Nat, hashIndex? id colors.length = some (i : Int) ∧ colors[i]? = some (pick colors id) := by
  have hlt : hash id % colors.length < colors.length := Nat.mod_lt _ (Nat.pos_of_ne_zero hcolors)
  have hempty : id.isEmpty = false := by simpa using hid
  refine ⟨hash id % colors.length, ?_, ?_⟩
  · rw [hashIndex?, if_neg (Int.natCast_ne_zero.mpr hcolors),
      Int.fmod_eq_emod_of_nonneg _ (Int.natCast_nonneg _), Int.natCast_mod]
  · rw [pick, hempty, if_neg Bool.false_ne_true, List.getElem?_eq_getElem hlt]
    rfl

end Color

theorem Frame.center_dividing (f : Frame α) :
    @Frame.center α (dividing quotient) f = f.center := by
  unfold Frame.center
  simp only [div_two_dividing]

namespace Connector

theorem epsilon_dividing : @epsilon α (dividing quotient) = epsilon :=
  div_ofNat_dividing quotient 4503599627370496 (by decide) _

theorem epsilon_ne_zero : (epsilon : α) ≠ 0 := by
  unfold epsilon
  simp only [instOfNat_eq]
  exact div_ne_zero (Nat.cast_ne_zero.mpr (by decide)) (Nat.cast_ne_zero.mpr (by decide))

theorem orElse_epsilon_ne_zero (offset : α) : orElse offset epsilon ≠ 0 := by
  unfold orElse
  split
  · exact epsilon_ne_zero
  · next h =>
    intro hzero
    refine h (decide_eq_true (hzero.trans ?_))
    rw [instOfNat_eq, Nat.cast_zero]

theorem reach_dividing (side offset : α) :
    @reach α (dividing quotient) side offset = reach side offset := by
  unfold reach
  rw [epsilon_dividing, div_two_dividing]
  exact congrArg (@Scalar.abs α ofField) (div_dividing quotient (orElse_epsilon_ne_zero offset) _)

theorem exit_dividing (center : Point α) (width height : α) (target : Point α) :
    @exit α (dividing quotient) center width height target = exit center width height target := by
  unfold exit
  simp only [reach_dividing]
  rfl

theorem curve_dividing (bend : Bool) (strength : α) (index total : Int) :
    @curve α (dividing quotient) bend strength index total = curve bend strength index total := by
  unfold curve
  simp only [div_two_dividing]
  rfl

end Connector

namespace Drawing

theorem nodeElement_dividing (style : DrawingStyle α) (origin : Point α) (isOutline : Bool)
    (place : Place α) (n : Node) (mark : String) :
    @nodeElement α (dividing quotient) style origin isOutline place n mark
      = nodeElement style origin isOutline place n mark := by
  unfold nodeElement textColor
  simp only [div_two_dividing, Color.readable_dividing]
  rfl

theorem nodeElements_dividing (style : DrawingStyle α) (origin : Point α) (isOutline : Bool)
    (places : Entries (Place α)) (nodes : List Node) (drawn : Entries (Element α))
    (ids : IdSupply) :
    @nodeElements α (dividing quotient) style origin isOutline places nodes drawn ids
      = nodeElements style origin isOutline places nodes drawn ids := by
  induction nodes generalizing drawn ids with
  | nil => rfl
  | cons n rest ih =>
    unfold nodeElements
    simp only [nodeElement_dividing, ih]

theorem centerAt_dividing (origin : Point α) (center : α × α) (e : Element α) :
    @centerAt α (dividing quotient) origin center e = centerAt origin center e := by
  unfold centerAt
  simp only [div_two_dividing]

theorem packLayer_dividing (style : DrawingStyle α) (origin : Point α) (horizontal : Bool)
    (rank : Int) (layer : List String) (drawn : Entries (Element α)) :
    @packLayer α (dividing quotient) style origin horizontal rank layer drawn
      = packLayer style origin horizontal rank layer drawn := by
  unfold packLayer
  simp only [Layout.centers_dividing, centerAt_dividing]

theorem packLayers_dividing (style : DrawingStyle α) (origin : Point α) (direction : Direction)
    (count i : Nat) (layers : List (List String)) (drawn : Entries (Element α)) :
    @packLayers α (dividing quotient) style origin direction count i layers drawn
      = packLayers style origin direction count i layers drawn := by
  induction layers generalizing i drawn with
  | nil => rfl
  | cons layer rest ih =>
    unfold packLayers
    rw [packLayer_dividing]
    exact congrArg _ (funext fun drawn => ih (i + 1) drawn)

theorem edgeElement_dividing (edge : Edge) (source target : Element α) (curve : α)
    (mark : String) :
    @edgeElement α (dividing quotient) edge source target curve mark
      = edgeElement edge source target curve mark := by
  unfold edgeElement Element.center
  simp only [Frame.center_dividing, Connector.exit_dividing]
  rfl

theorem arrowsAfter_dividing (style : DrawingStyle α) (g : Graph) (drawn : Entries (Element α))
    (before edges : List Edge) (ids : IdSupply) :
    @arrowsAfter α (dividing quotient) style g drawn before edges ids
      = arrowsAfter style g drawn before edges ids := by
  induction edges generalizing before ids with
  | nil => rfl
  | cons edge rest ih =>
    unfold arrowsAfter curveOf
    simp only [edgeElement_dividing, Connector.curve_dividing, ih]

theorem stub_dividing (left right middle : α) :
    @stub α (dividing quotient) left right middle = stub left right middle := by
  unfold stub Element.center
  simp only [Frame.center_dividing]
  rfl

theorem rails_dividing (trunk : List (Element α)) (ids : IdSupply) :
    @rails α (dividing quotient) trunk ids = rails trunk ids := by
  unfold rails
  simp only [stub_dividing, div_two_dividing]
  rfl

theorem ofLayout_dividing (ids : IdSupply) (g : Graph) (layout : Layout α) (origin : Point α)
    (style : DrawingStyle α) :
    @ofLayout α (dividing quotient) ids g layout origin style
      = ofLayout ids g layout origin style := by
  unfold ofLayout scaffolding
  simp only [nodeElements_dividing, packLayers_dividing, arrowsAfter_dividing, rails_dividing]

/-- No drawing depends on what a division by zero yields. -/
theorem ofGraph_dividing (ids : IdSupply) (g : Graph) (origin : Point α) (style : DrawingStyle α) :
    @ofGraph α (dividing quotient) ids g origin style = ofGraph ids g origin style := by
  unfold ofGraph
  simp only [Layout.choose_dividing, ofLayout_dividing]

end Drawing

end Whiteboard

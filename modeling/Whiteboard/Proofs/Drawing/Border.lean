import Mathlib
import Whiteboard.Proofs.Board.Creation
import Whiteboard.Proofs.Document.Hit
import Whiteboard.Proofs.Drawing.Fan

/-!
# Arrows from border to border

A box is left at the first side that the way from its middle to a target crosses. Where one of the
offsets of the target is zero, a small number stands in for it, so that the way ends too early if
the other offset is smaller still; for all other targets the point is the only one of the border on
the way (`Connector.leftAt_exit_iff`). So with exact numbers the arrows of a drawing run from border
to border (`Drawing.borders_of_ofLayout`).
-/

namespace Whiteboard

/-! ## Halves -/

section Halves

variable {K : Type} [Field K] [LinearOrder K] [IsStrictOrderedRing K] {x y w : K}

theorem within_iff : |y - (x + w / 2)| ≤ w / 2 ↔ x ≤ y ∧ y ≤ x + w := by
  rw [abs_le]
  constructor <;> rintro ⟨hlow, hhigh⟩ <;> constructor <;> linarith

theorem atEnd_iff (hw : 0 < w) : |y - (x + w / 2)| = w / 2 ↔ y = x ∨ y = x + w := by
  rw [abs_eq (half_pos hw).le, or_comm]
  constructor <;> refine Or.imp ?_ ?_ <;> intro h <;> linarith

theorem half_mul_le_iff {c d : K} : x / 2 * c ≤ y / 2 * d ↔ c * x ≤ d * y := by
  constructor <;> intro h <;> linarith

end Halves

variable {α : Type} [Field α] [LinearOrder α] [FloorRing α] [Trigonometry α]

/-! ## Borders and ways -/

/-- A point on one of the sides of a box. -/
structure Box.OnBorder (b : Box α) (p : Point α) : Prop where
  holds : b.Holds p
  side : (p.x = b.x ∨ p.x = b.right) ∨ p.y = b.y ∨ p.y = b.bottom

/-- The point after `t` times the way from `a` to `b`. -/
def Point.toward (a b : Point α) (t : α) : Point α := ⟨a.x + (b.x - a.x) * t, a.y + (b.y - a.y) * t⟩

/-- A point on the ray from `a` to `b`. -/
def Point.OnRay (a b p : Point α) : Prop := ∃ t, 0 ≤ t ∧ p = a.toward b t

/-- The only point of the border on the ray from the middle of a box to a target. -/
structure Box.LeftAt (b : Box α) (target p : Point α) : Prop where
  onBorder : b.OnBorder p
  onRay : b.center.OnRay target p
  unique : ∀ q, b.OnBorder q → b.center.OnRay target q → q = p

/-- A target in a direction that can be told: if it is straight above, below or beside the middle of
a box, it is not so close that what stands in for the zero offset counts for more than the other
one. -/
def Connector.Aims (b : Box α) (target : Point α) : Prop :=
  let dx := target.x - b.center.x
  let dy := target.y - b.center.y
  dx = 0 ∧ epsilon * b.height / b.width ≤ |dy| ∨ dy = 0 ∧ epsilon * b.width / b.height ≤ |dx| ∨
    dx ≠ 0 ∧ dy ≠ 0

instance (b : Box α) (target : Point α) : Decidable (Connector.Aims b target) :=
  inferInstanceAs (Decidable (_ ∨ _ ∨ _))

theorem Box.onBorder_iff [IsStrictOrderedRing α] {b : Box α} {p : Point α} (hw : 0 < b.width)
    (hh : 0 < b.height) : b.OnBorder p ↔
    (|p.x - b.center.x| ≤ b.width / 2 ∧ |p.y - b.center.y| ≤ b.height / 2) ∧
      (|p.x - b.center.x| = b.width / 2 ∨ |p.y - b.center.y| = b.height / 2) := by
  simp only [center, Scalar.instOfNat_eq, Nat.cast_two, within_iff, atEnd_iff hw, atEnd_iff hh]
  exact ⟨fun ⟨h, hside⟩ => ⟨⟨⟨h.left, h.right⟩, h.top, h.bottom⟩, hside⟩,
    fun ⟨⟨⟨hleft, hright⟩, htop, hbottom⟩, hside⟩ => ⟨⟨hleft, hright, htop, hbottom⟩, hside⟩⟩

namespace Connector

/-! ## How far offsets reach -/

section Reach

variable [IsStrictOrderedRing α] {side offset t : α}

theorem epsilon_pos : 0 < (epsilon : α) := by
  simp only [epsilon, Scalar.instOfNat_eq]
  positivity

theorem halfSide_pos (hside : 0 < side) : 0 < side / 2 := by
  rw [Scalar.instOfNat_eq, Nat.cast_two]
  exact half_pos hside

theorem reach_nonneg (side offset : α) : 0 ≤ reach side offset := by
  rw [reach, Scalar.abs_eq_abs]
  exact abs_nonneg _

theorem reach_of_ne_zero (hside : 0 < side) (h : offset ≠ 0) :
    reach side offset = side / 2 / |offset| := by
  have horElse : Scalar.orElse offset epsilon = offset :=
    if_neg fun hzero => h (Element.isZero_iff.mp hzero)
  rw [reach, horElse, Scalar.abs_eq_abs, abs_div, abs_of_pos (halfSide_pos hside)]

theorem reach_zero (hside : 0 < side) : reach side 0 = side / 2 / epsilon := by
  have horElse : Scalar.orElse (0 : α) epsilon = epsilon := if_pos (Element.isZero_iff.mpr rfl)
  rw [reach, horElse, Scalar.abs_eq_abs, abs_of_pos (div_pos (halfSide_pos hside) epsilon_pos)]

theorem abs_mul_le_iff (hside : 0 < side) (h : offset ≠ 0) (ht : 0 ≤ t) :
    |offset * t| ≤ side / 2 ↔ t ≤ reach side offset := by
  rw [reach_of_ne_zero hside h, le_div_iff₀ (abs_pos.mpr h), abs_mul, abs_of_nonneg ht, mul_comm]

theorem abs_mul_eq_iff (hside : 0 < side) (h : offset ≠ 0) (ht : 0 ≤ t) :
    |offset * t| = side / 2 ↔ t = reach side offset := by
  rw [reach_of_ne_zero hside h, eq_div_iff (abs_ne_zero.mpr h), abs_mul, abs_of_nonneg ht, mul_comm]

/-- An offset comes to its side before what stands in for a zero comes to the other one, unless it
is too small. -/
theorem reach_le_reach_zero_iff {side' : α} (hside : 0 < side) (hside' : 0 < side')
    (h : offset ≠ 0) :
    reach side' offset ≤ reach side 0 ↔ epsilon * side' / side ≤ |offset| := by
  rw [reach_of_ne_zero hside' h, reach_zero hside, div_le_div_iff₀ (abs_pos.mpr h) epsilon_pos,
    div_le_iff₀ hside, Scalar.instOfNat_eq, Nat.cast_two, half_mul_le_iff]

end Reach

section Reaches

/-- Offsets that are taken `t` times lead from the middle of a box to its border. -/
def Reaches (width height dx dy t : α) : Prop :=
  (|dx * t| ≤ width / 2 ∧ |dy * t| ≤ height / 2) ∧ (|dx * t| = width / 2 ∨ |dy * t| = height / 2)

variable {width height dx dy t : α}

theorem reaches_comm : Reaches width height dx dy t ↔ Reaches height width dy dx t :=
  and_congr and_comm or_comm

variable [IsStrictOrderedRing α] (hw : 0 < width) (hh : 0 < height)

include hw hh

theorem reaches_iff_of_ne_zero (hdx : dx ≠ 0) (hdy : dy ≠ 0) (ht : 0 ≤ t) :
    Reaches width height dx dy t ↔ t = min (reach width dx) (reach height dy) := by
  rw [Reaches, abs_mul_le_iff hw hdx ht, abs_mul_le_iff hh hdy ht, abs_mul_eq_iff hw hdx ht,
    abs_mul_eq_iff hh hdy ht]
  constructor
  · rintro ⟨⟨hx, hy⟩, rfl | rfl⟩
    · exact (min_eq_left hy).symm
    · exact (min_eq_right hx).symm
  · rintro rfl
    exact ⟨⟨min_le_left _ _, min_le_right _ _⟩, min_choice _ _⟩

/-- Straight above or below the middle only one side is reached. -/
theorem reaches_zero_iff (hfar : epsilon * height / width ≤ |dy|) (ht : 0 ≤ t) :
    Reaches width height 0 dy t ↔ t = min (reach width 0) (reach height dy) := by
  have hdy : dy ≠ 0 := abs_pos.mp ((div_pos (mul_pos epsilon_pos hh) hw).trans_le hfar)
  have hle := (reach_le_reach_zero_iff hw hh hdy).mpr hfar
  have hhalf := halfSide_pos hw
  rw [Reaches, min_eq_right hle, zero_mul, abs_zero, abs_mul_le_iff hh hdy ht,
    abs_mul_eq_iff hh hdy ht]
  exact ⟨fun ⟨_, hside⟩ => hside.resolve_left hhalf.ne, fun h => ⟨⟨hhalf.le, h.le⟩, .inr h⟩⟩

/-- Too close to the middle, what stands in for the zero ends the way before the border. -/
theorem not_reaches_zero (hdy : dy ≠ 0) (hnear : |dy| < epsilon * height / width) :
    ¬ Reaches width height 0 dy (min (reach width 0) (reach height dy)) := by
  have hlt : reach width 0 < reach height dy :=
    lt_of_not_ge fun hle => hnear.not_ge ((reach_le_reach_zero_iff hw hh hdy).mp hle)
  rw [Reaches, min_eq_left hlt.le, zero_mul, abs_zero, abs_mul_eq_iff hh hdy (reach_nonneg _ _)]
  rintro ⟨-, hzero | heq⟩
  · exact (halfSide_pos hw).ne hzero
  · exact hlt.ne heq

end Reaches

/-! ## The way out of a box -/

section Exit

theorem exit_eq {center target : Point α} (hne : target ≠ center) (width height : α) :
    exit center width height target = center.toward target
      (min (reach width (target.x - center.x)) (reach height (target.y - center.y))) := by
  rw [exit, if_neg, Scalar.lesser_eq_min]
  · rfl
  · rw [Bool.and_eq_true, Element.isZero_iff, Element.isZero_iff]
    rintro ⟨hx, hy⟩
    exact hne (congrArg₂ Point.mk (sub_eq_zero.mp hx) (sub_eq_zero.mp hy))

variable [IsStrictOrderedRing α] {b : Box α} {target : Point α} (hw : 0 < b.width)
  (hh : 0 < b.height)

include hw hh

theorem onBorder_toward_iff {t : α} : b.OnBorder (b.center.toward target t) ↔
    Reaches b.width b.height (target.x - b.center.x) (target.y - b.center.y) t := by
  rw [Box.onBorder_iff hw hh, Point.toward, add_sub_cancel_left, add_sub_cancel_left, Reaches]

/-- In a direction that can be told the border is reached once. -/
theorem reaches_iff_of_aims (haims : Aims b target) {t : α} (ht : 0 ≤ t) :
    Reaches b.width b.height (target.x - b.center.x) (target.y - b.center.y) t ↔
      t = min (reach b.width (target.x - b.center.x)) (reach b.height (target.y - b.center.y)) := by
  obtain ⟨hdx, hfar⟩ | ⟨hdy, hfar⟩ | ⟨hdx, hdy⟩ := haims
  · rw [hdx, reaches_zero_iff hw hh hfar ht]
  · rw [hdy, reaches_comm, reaches_zero_iff hh hw hfar ht, min_comm]
  · exact reaches_iff_of_ne_zero hw hh hdx hdy ht

theorem Aims.ne_center (haims : Aims b target) : target ≠ b.center := by
  rintro rfl
  rw [Aims, sub_self, sub_self, abs_zero] at haims
  obtain ⟨-, hfar⟩ | ⟨-, hfar⟩ | ⟨hne, -⟩ := haims
  · exact (div_pos (mul_pos epsilon_pos hh) hw).not_ge hfar
  · exact (div_pos (mul_pos epsilon_pos hw) hh).not_ge hfar
  · exact hne rfl

theorem leftAt_exit (haims : Aims b target) :
    b.LeftAt target (exit b.center b.width b.height target) := by
  rw [exit_eq (haims.ne_center hw hh)]
  have hreach := le_min (reach_nonneg b.width (target.x - b.center.x))
    (reach_nonneg b.height (target.y - b.center.y))
  constructor
  case onBorder =>
    rw [onBorder_toward_iff hw hh, reaches_iff_of_aims hw hh haims hreach]
  case onRay => exact ⟨_, hreach, rfl⟩
  case unique =>
    rintro q hq ⟨t, ht, rfl⟩
    rw [onBorder_toward_iff hw hh, reaches_iff_of_aims hw hh haims ht] at hq
    rw [hq]

/-- In any other direction the target lies straight above, below or beside the middle, and close to
it. -/
theorem not_onBorder_exit (hne : target ≠ b.center) (haims : ¬ Aims b target) :
    ¬ b.OnBorder (exit b.center b.width b.height target) := by
  have hoffset : target.x - b.center.x = 0 → target.y - b.center.y ≠ 0 := fun hx hy =>
    hne (congrArg₂ Point.mk (sub_eq_zero.mp hx) (sub_eq_zero.mp hy))
  rw [Aims, not_or, not_or, not_and, not_and, not_and] at haims
  obtain ⟨habove, hbeside, hboth⟩ := haims
  rw [exit_eq hne, onBorder_toward_iff hw hh]
  by_cases hdx : target.x - b.center.x = 0
  · rw [hdx]
    exact not_reaches_zero hw hh (hoffset hdx) (not_le.mp (habove hdx))
  · have hdy : target.y - b.center.y = 0 := not_not.mp (hboth hdx)
    rw [hdy, reaches_comm, min_comm]
    exact not_reaches_zero hh hw hdx (not_le.mp (hbeside hdy))

/-- A box is left where the ray to a target crosses its border, for each target in a direction that
can be told and for no other one. -/
theorem leftAt_exit_iff (hne : target ≠ b.center) :
    b.LeftAt target (exit b.center b.width b.height target) ↔ Aims b target :=
  ⟨fun h => not_not.mp fun haims => not_onBorder_exit hw hh hne haims h.onBorder,
    leftAt_exit hw hh⟩

end Exit

end Connector

namespace Drawing

/-! ## Shapes -/

section Shapes

theorem textWidth_pos (label : List Char) : 0 < textWidth label := by
  unfold textWidth
  omega

theorem textHeight_pos (label : List Char) : 0 < textHeight label := by
  unfold textHeight
  omega

theorem size_of_nodeElement {β : Type} [Scalar β] {style : DrawingStyle β} {origin : Point β}
    {isOutline : Bool} {place : Place β} {n : Node} {mark : String} {e : Element β}
    (h : nodeElement style origin isOutline place n mark = .ok e) :
    let label := Label.wrap Label.width n.label.toList
    e.width = Scalar.greater place.width (Scalar.ofNat (textWidth label)) ∧
      e.height = Scalar.greater place.height (Scalar.ofNat (textHeight label)) := by
  obtain ⟨stroke, -, h⟩ := exists_of_bind h
  obtain ⟨color, -, h⟩ := exists_of_bind h
  obtain ⟨size, -, h⟩ := exists_of_bind h
  cases h
  exact ⟨rfl, rfl⟩

/-- An element of some width and height. -/
def HasArea (e : Element α) : Prop := 0 < e.width ∧ 0 < e.height

theorem HasArea.moved {e e' : Element α} (h : HasArea e) (he : Moved e e') : HasArea e' := by
  obtain ⟨x, y, rfl⟩ := he
  rw [HasArea, Element.width, Element.height, Element.moveTo, Element.frame_mapFrame]
  exact h

/-- However small the place of a node is, its label takes some room. -/
theorem hasArea_of_nodeElement [IsStrictOrderedRing α] {style : DrawingStyle α} {origin : Point α}
    {isOutline : Bool} {place : Place α} {n : Node} {mark : String} {e : Element α}
    (h : nodeElement style origin isOutline place n mark = .ok e) : HasArea e := by
  have hpos {k : Nat} (hk : 0 < k) (a : α) : 0 < Scalar.greater a (Scalar.ofNat k) := by
    rw [Scalar.greater_eq_max, Scalar.ofNat_ofField]
    exact (Nat.cast_pos.mpr hk).trans_le (le_max_right _ _)
  obtain ⟨hwidth, hheight⟩ := size_of_nodeElement h
  rw [HasArea, hwidth, hheight]
  exact ⟨hpos (textWidth_pos _) _, hpos (textHeight_pos _) _⟩

end Shapes

/-! ## Arrows -/

section Arrows

/-- An arrow both ends of which lie where the line between the middles of two elements crosses
their borders, as far as the direction of this line can be told. -/
structure RunsBetween (source target arrow : Element α) : Prop where
  start : Connector.Aims source.frame.box target.center →
    ∃ p, arrow.tip? .start = some p ∧ source.frame.box.LeftAt target.center p
  finish : Connector.Aims target.frame.box source.center →
    ∃ p, arrow.tip? .finish = some p ∧ target.frame.box.LeftAt source.center p

theorem tips_of_edgeElement {edge : Edge} {source target e : Element α} {curve : α} {mark : String}
    (h : edgeElement edge source target curve mark = .ok e) :
    e.tip? .start = some (Connector.exit source.center source.width source.height target.center) ∧
      e.tip? .finish
        = some (Connector.exit target.center target.width target.height source.center) := by
  obtain ⟨frame, -, h⟩ := exists_of_bind h
  cases h
  have hback (p : Point α) :
      (⟨frame.x + (p.x - frame.x), frame.y + (p.y - frame.y)⟩ : Point α) = p :=
    congrArg₂ Point.mk (add_sub_cancel _ _) (add_sub_cancel _ _)
  exact ⟨congrArg some (hback _), congrArg some (hback _)⟩

theorem runsBetween_of_edgeElement [IsStrictOrderedRing α] {edge : Edge}
    {source target e : Element α} {curve : α} {mark : String} (hsource : HasArea source)
    (htarget : HasArea target) (h : edgeElement edge source target curve mark = .ok e) :
    RunsBetween source target e := by
  obtain ⟨hstart, hfinish⟩ := tips_of_edgeElement h
  exact ⟨fun haims => ⟨_, hstart, Connector.leftAt_exit hsource.1 hsource.2 haims⟩,
    fun haims => ⟨_, hfinish, Connector.leftAt_exit htarget.1 htarget.2 haims⟩⟩

theorem Restacked.tip?_eq {e e' : Element α} (h : Restacked e e') (side : ArrowEnd) :
    e'.tip? side = e.tip? side := by
  obtain ⟨z, rfl⟩ := h
  cases e with
  | shape f k s => cases k <;> rfl
  | _ => rfl

theorem RunsBetween.restacked {source source' target target' arrow arrow' : Element α}
    (hs : Restacked source source') (ht : Restacked target target') (he : Restacked arrow arrow')
    (h : RunsBetween source target arrow) : RunsBetween source' target' arrow' := by
  have hcenter {e e' : Element α} (h : Restacked e e') : e'.center = e.center :=
    congrArg Box.center h.box_eq
  constructor
  · rw [hs.box_eq, hcenter ht, he.tip?_eq]
    exact h.start
  · rw [ht.box_eq, hcenter hs, he.tip?_eq]
    exact h.finish

theorem describes_borders [IsStrictOrderedRing α] (style : DrawingStyle α) : Describes HasArea
    (fun m source target arrow => (∃ mark, Joins m.1 mark source.id target.id arrow) ∧
      RunsBetween source target arrow) style where
  node := hasArea_of_nodeElement
  moved := HasArea.moved
  edge hs ht h := ⟨⟨_, (joins_of_edgeElement h).1⟩, runsBetween_of_edgeElement hs ht h⟩
  restacked hs ht he h := by
    obtain ⟨⟨mark, hjoins⟩, hruns⟩ := h
    exact ⟨⟨mark, hs.id_eq ▸ ht.id_eq ▸ hjoins.restacked he⟩, hruns.restacked hs ht he⟩

end Arrows

/-! ## Drawings -/

section Drawings

/-- The arrows of a drawing join the shapes of its nodes from border to border, each as an edge
asks. -/
def Parts.Bordered (p : Parts α) (g : Graph) : Prop :=
  ∃ shapes, Shows g.nodes shapes ∧ p.nodes = shapes.map (·.2) ∧
    List.Forall₂ (fun edge arrow => ∃ mark source target,
      Entries.get? edge.source shapes = some source ∧
      Entries.get? edge.target shapes = some target ∧
      Joins edge mark source.id target.id arrow ∧ RunsBetween source target arrow)
      g.innerEdges p.arrows

/-- An arrow that is bound to two elements in directions that can be told. -/
def BoundApart (source target arrow : Element α) : Prop :=
  (arrow.bindingAt .start).map (·.element) = some source.id →
    (arrow.bindingAt .finish).map (·.element) = some target.id →
      Connector.Aims source.frame.box target.center ∧ Connector.Aims target.frame.box source.center

instance (source target arrow : Element α) : Decidable (BoundApart source target arrow) :=
  inferInstanceAs (Decidable (_ → _ → _ ∧ _))

/-- Where the nodes are told apart, the arrow of an edge has both ends on borders. -/
theorem Parts.Bordered.exists_ends {p : Parts α} {g : Graph} (h : p.Bordered g) {edge : Edge}
    (hedge : edge ∈ g.innerEdges)
    (hapart : ∀ source ∈ p.all, ∀ target ∈ p.all, ∀ arrow ∈ p.all, BoundApart source target arrow) :
    ∃ source ∈ p.nodes, ∃ target ∈ p.nodes, ∃ arrow ∈ p.arrows, ∃ start finish,
      arrow.tip? .start = some start ∧ source.frame.box.LeftAt target.center start ∧
      arrow.tip? .finish = some finish ∧ target.frame.box.LeftAt source.center finish := by
  obtain ⟨shapes, -, hnodes, harrows⟩ := h
  obtain ⟨arrow, harrow, mark, source, target, hsource, htarget, hjoins, hruns⟩ :=
    exists_of_mem_right (List.Forall₂.flip harrows) hedge
  have hshape {id : String} {e : Element α} (h : Entries.get? id shapes = some e) : e ∈ p.nodes :=
    hnodes ▸ List.mem_map_of_mem (f := (·.2)) (Entries.mem_of_get? h)
  obtain ⟨s, hs, -, hstart, hfinish⟩ := hjoins.arrow
  have hbound (side : ArrowEnd) : arrow.bindingAt side = s.bindingAt side := by
    rw [Element.bindingAt, Option.mem_def.mp hs]
    rfl
  obtain ⟨haims, haims'⟩ := hapart source (by simp [all, hshape hsource]) target
    (by simp [all, hshape htarget]) arrow (by simp [all, harrow])
    ((congrArg _ (hbound .start)).trans hstart) ((congrArg _ (hbound .finish)).trans hfinish)
  obtain ⟨start, htip, hleft⟩ := hruns.start haims
  obtain ⟨finish, htip', hleft'⟩ := hruns.finish haims'
  exact ⟨source, hshape hsource, target, hshape htarget, arrow, harrow, start, finish, htip, hleft,
    htip', hleft'⟩

/-- With exact numbers a box of some width and height is left at the only point of its border on the
ray to a target, as long as the direction of the target can be told. A valid graph whose colors can
be read is drawn, and whatever is drawn, its arrows run from border to border. -/
theorem borders_of_ofLayout [IsStrictOrderedRing α] :
    (∀ (b : Box α) (target : Point α), 0 < b.width → 0 < b.height → target ≠ b.center →
      (b.LeftAt target (Connector.exit b.center b.width b.height target) ↔
        Connector.Aims b target)) ∧
    ∀ (g : Graph) (ids : IdSupply) (origin : Point α) (style : DrawingStyle α),
      ((∀ f ∈ g.findings, f.severity ≠ .error) → (∀ n ∈ g.nodes, HexOrAbsent n) →
        ∃ l es, Layout.choose g style.spacing = .ok l ∧
          (ofLayout ids g l origin style).1 = .ok es) ∧
      ∀ l es, (ofLayout ids g l origin style).1 = .ok es →
        ∃ p : Parts α, es = p.all ∧ p.Bordered g := by
  constructor
  · exact fun b target hw hh hne => Connector.leftAt_exit_iff hw hh hne
  · intro g ids origin style
    refine ⟨fun hvalid hfill => exists_ofLayout_of_valid hvalid hfill ids origin style, ?_⟩
    intro l es hes
    obtain ⟨p, shapes, hall, hshows, hnodes, harrows⟩ :=
      exists_between_of_ofLayout (describes_borders style) hes
    refine ⟨p, hall, shapes, hshows, hnodes, ?_⟩
    rw [← map_fst_curvesWithin style hshows, List.forall₂_map_left_iff]
    refine harrows.imp fun m arrow ⟨source, target, hsource, htarget, ⟨mark, hjoins⟩, hruns⟩ => ?_
    exact ⟨mark, source, target, hsource, htarget, hjoins, hruns⟩

/-- The border is left straight upwards towards a target that is as close to the middle as it may
be, and an arrow leads from the border of a node straight down to that of another one. -/
theorem borders_of_ofLayout_straight :
    let _ : Trigonometry ℚ := ⟨fun _ => 1, fun _ => 0, fun _ _ => 0⟩
    let b : Box ℚ := ⟨-50, -25, 100, 50⟩
    let target : Point ℚ := ⟨0, -(1 / 9007199254740992)⟩
    let g : Graph :=
      { nodes := [.bare "a", { Node.bare "b" with shape := .circle }]
        edges := [⟨"a", "b", "", .arrow⟩, ⟨"b", "a", "back", .dotted⟩] }
    (0 < b.width ∧ 0 < b.height ∧ target ≠ b.center ∧ Connector.Aims b target ∧
      b.LeftAt target ⟨0, -25⟩) ∧
    ∃ l es, Layout.choose g (DrawingStyle.initial : DrawingStyle ℚ).spacing = .ok l ∧
      (ofLayout .counting g l ⟨100, 100⟩ (DrawingStyle.initial : DrawingStyle ℚ)).1 = .ok es ∧
      ∃ p : Parts ℚ, es = p.all ∧ p.Bordered g ∧
        ∃ source ∈ p.nodes, ∃ target ∈ p.nodes, ∃ arrow ∈ p.arrows, ∃ start finish,
          arrow.tip? .start = some start ∧ source.frame.box.LeftAt target.center start ∧
          arrow.tip? .finish = some finish ∧ target.frame.box.LeftAt source.center finish := by
  intro _ b target g
  obtain ⟨hexit, hdrawn⟩ := borders_of_ofLayout (α := ℚ)
  constructor
  · have hw : 0 < b.width := by decide +kernel
    have hh : 0 < b.height := by decide +kernel
    have hne : target ≠ b.center := fun h => absurd (congrArg Point.y h) (by decide +kernel)
    have haims : Connector.Aims b target := by decide +kernel
    have hleft := (hexit b target hw hh hne).mpr haims
    have hplace : Connector.exit b.center b.width b.height target = ⟨0, -25⟩ :=
      congrArg₂ Point.mk (by decide +kernel) (by decide +kernel)
    exact ⟨hw, hh, hne, haims, hplace ▸ hleft⟩
  · obtain ⟨hvalid, hborders⟩ := hdrawn g .counting ⟨100, 100⟩ .initial
    obtain ⟨l, es, hl, hes⟩ := hvalid (by decide) (by decide)
    obtain ⟨p, hall, hbordered⟩ := hborders l es hes
    have hapart : (ofGraph .counting g ⟨100, 100⟩ (.initial : DrawingStyle ℚ)).1.toOption.all
        fun es => decide (∀ source ∈ es, ∀ target ∈ es, ∀ arrow ∈ es,
          BoundApart source target arrow) := by
      decide +kernel
    have hgraph : (ofGraph .counting g ⟨100, 100⟩ (.initial : DrawingStyle ℚ)).1 = .ok es := by
      rw [ofGraph, hl]
      exact hes
    rw [hgraph, hall] at hapart
    have hedge : (⟨"a", "b", "", .arrow⟩ : Edge) ∈ g.innerEdges := by decide
    exact ⟨l, es, hl, hes, p, hall, hbordered,
      hbordered.exists_ends hedge (of_decide_eq_true hapart)⟩

end Drawings

end Drawing

end Whiteboard

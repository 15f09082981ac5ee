import Whiteboard.Drawing
import Whiteboard.Proofs.Document.Made
import Whiteboard.Proofs.Document.Proper
import Whiteboard.Proofs.Drawing.Color
import Whiteboard.Proofs.Graph.Layout
import Whiteboard.Proofs.Scalar.Exact

/-!
# Drawn nodes

Each node of a graph that a layout covers is drawn as one shape, in the order of nodes, unless a
number is out of range (`Drawing.meets_nodeElements`). Packing the layers only moves the shapes.
-/

namespace Whiteboard

namespace IdSupply

/-- The marks of the next elements that are drawn. -/
def shortIds (s : IdSupply) : Nat → List String
  | 0 => []
  | n + 1 => s.shortId :: s.next.shortIds n

theorem length_shortIds (s : IdSupply) (n : Nat) : (s.shortIds n).length = n := by
  induction n generalizing s with
  | zero => rfl
  | succ n ih => exact congrArg (· + 1) (ih _)

theorem shortIds_add (s : IdSupply) (m n : Nat) :
    s.shortIds (m + n) = s.shortIds m ++ (s.advance m).shortIds n := by
  induction m generalizing s with
  | zero => rw [Nat.zero_add]; rfl
  | succ m ih => rw [Nat.succ_add, shortIds, shortIds, ih, next_advance, List.cons_append]

end IdSupply

/-- Layouts and measures fail for this reason where a number is out of range. -/
inductive DrawingError.IsNumeric : DrawingError → Prop where
  | outOfRange : IsNumeric (.layout .outOfRange)
  | invalid (issues : List Issue) : IsNumeric (.layout (.invalid issues))

namespace Drawing

/-! ## Outcomes -/

section Outcomes

variable {β γ : Type} {P Q : β → Prop}

/-- The outcome of a drawing: a result, or a number of `α` is out of range. -/
def Meets (α : Type) [Scalar α] (P : β → Prop) : Except DrawingError β → Prop
  | .ok v => P v
  | .error e => e.IsNumeric ∧ ¬ UnboundedScalar α

/-- The outcome of a drawing together with the ids that are left. -/
def MeetsDraft (α : Type) [Scalar α] (P : β → IdSupply → Prop) (d : Drafting β) : Prop :=
  Meets α (fun v => P v d.2) d.1

variable {α : Type} [Scalar α]

theorem Meets.mono {d : Except DrawingError β} (h : Meets α P d) (hPQ : ∀ v, P v → Q v) :
    Meets α Q d := by
  cases d with
  | ok v => exact hPQ v h
  | error e => exact h

theorem Meets.and {d : Except DrawingError β} (h : Meets α P d) (hQ : ∀ v, d = .ok v → Q v) :
    Meets α (fun v => P v ∧ Q v) d := by
  cases d with
  | ok v => exact ⟨h, hQ v rfl⟩
  | error e => exact h

theorem Meets.bind {R : γ → Prop} {d : Except DrawingError β} {f : β → Except DrawingError γ}
    (h : Meets α P d) (hf : ∀ v, P v → Meets α R (f v)) : Meets α R (d.bind f) := by
  cases d with
  | ok v => exact hf v h
  | error e => exact h

/-- A result of steps is one of the last step. -/
theorem exists_of_bind {d : Except DrawingError β} {f : β → Except DrawingError γ} {w : γ}
    (h : d.bind f = .ok w) : ∃ v, d = .ok v ∧ f v = .ok w := by
  cases d with
  | ok v => exact ⟨v, rfl, h⟩
  | error e => cases h

theorem exists_of_andThen {d : Drafting β} {f : β → IdSupply → Drafting γ} {w : γ}
    (h : (d.andThen f).1 = .ok w) : ∃ v, d.1 = .ok v ∧ (f v d.2).1 = .ok w := by
  obtain ⟨d, ids⟩ := d
  cases d with
  | ok v => exact ⟨v, rfl, h⟩
  | error e => cases h

theorem MeetsDraft.andThen {P : β → IdSupply → Prop} {R : γ → IdSupply → Prop} {d : Drafting β}
    {f : β → IdSupply → Drafting γ} (h : MeetsDraft α P d)
    (hf : ∀ v ids, P v ids → MeetsDraft α R (f v ids)) : MeetsDraft α R (d.andThen f) := by
  obtain ⟨d, ids⟩ := d
  cases d with
  | ok v => exact hf v ids h
  | error e => exact h

/-- Where numbers have no bounds, nothing breaks off. -/
theorem Meets.exists_ok {d : Except DrawingError β} (h : Meets α P d) (hα : UnboundedScalar α) :
    ∃ v, d = .ok v ∧ P v := by
  cases d with
  | ok v => exact ⟨v, rfl, h⟩
  | error e => exact absurd hα h.2

end Outcomes

variable {α : Type} [Scalar α]

/-! ## Shapes -/

theorem meets_borderWidth (depth : Int) :
    Meets α (fun _ => True) (borderWidth depth : Except DrawingError α) := by
  unfold borderWidth
  split
  · trivial
  · next h => exact ⟨.outOfRange, fun hα => h (hα.holdsInt depth)⟩

theorem meets_textSize (depth : Int) :
    Meets α (fun _ => True) (textSize depth : Except DrawingError α) := by
  unfold textSize
  dsimp only
  split
  · trivial
  · next h => exact ⟨.invalid _, fun hα => h (hα.holdsInt _)⟩

/-- The shape of a node, told apart by a mark. -/
structure Draws (n : Node) (mark : String) (e : Element α) : Prop where
  id : e.id = "node-" ++ n.id ++ "-" ++ mark
  kind : e.kind = .shape (shapeKind n.shape)
  content : ∃ s ∈ e.shape?, s.content = some (String.ofList (Label.wrap Label.width n.label.toList))

/-- The background of a node is a color whose digits can be read. -/
def HexOrAbsent (n : Node) : Prop := ∀ fill ∈ n.fill, fill = "" ∨ Color.isHex fill = true

instance (n : Node) : Decidable (HexOrAbsent n) :=
  inferInstanceAs (Decidable (∀ fill ∈ n.fill, fill = "" ∨ Color.isHex fill = true))

theorem isHex_given {n : Node} (h : HexOrAbsent n) (p : Palette) :
    Color.isHex (given n.fill (Color.ofNode n.id p)) = true := by
  unfold given
  split
  · exact Color.isHex_ofNode n.id p
  · exact Color.isHex_ofNode n.id p
  · next fill hne hfill => exact (h fill hfill).resolve_left fun hempty => hne (hempty ▸ rfl)

theorem meets_nodeElement (style : DrawingStyle α) (origin : Point α) (isOutline : Bool)
    (place : Place α) {n : Node} (h : HexOrAbsent n) (mark : String) :
    Meets α (Draws n mark) (nodeElement style origin isOutline place n mark) := by
  obtain ⟨color, hcolor⟩ := Color.exists_readable α (isHex_given h style.palette)
  have htext : Meets α (fun _ => True)
      (textColor α (given n.fill (Color.ofNode n.id style.palette))) := by
    rw [textColor, hcolor]
    trivial
  refine (meets_borderWidth n.depth).bind fun stroke _ => ?_
  refine htext.bind fun color _ => ?_
  refine (meets_textSize n.depth).bind fun size _ => ?_
  exact ⟨rfl, rfl, _, rfl, rfl⟩

theorem draws_of_nodeElement {style : DrawingStyle α} {origin : Point α} {isOutline : Bool}
    {place : Place α} {n : Node} {mark : String} {e : Element α}
    (h : nodeElement style origin isOutline place n mark = .ok e) : Draws n mark e := by
  obtain ⟨stroke, -, h⟩ := exists_of_bind h
  obtain ⟨color, -, h⟩ := exists_of_bind h
  obtain ⟨size, -, h⟩ := exists_of_bind h
  cases h
  exact ⟨rfl, rfl, _, rfl, rfl⟩

/-- A node on a level beyond all numbers has no border. -/
theorem nodeElement_of_outOfRange {n : Node} (h : Scalar.holdsInt α n.depth = false)
    (style : DrawingStyle α) (origin : Point α) (isOutline : Bool) (place : Place α)
    (mark : String) :
    nodeElement style origin isOutline place n mark = .error (.layout .outOfRange) := by
  have hborder : (borderWidth n.depth : Except DrawingError α) = .error (.layout .outOfRange) :=
    if_neg (by simp [h])
  rw [nodeElement, hborder]
  rfl

theorem sized_nonneg [LawfulScalar α] {place : Place α} (h : place.Sized) :
    0 ≤ place.width ∧ 0 ≤ place.height := by
  obtain ⟨shape, hshape⟩ := h
  rw [Prod.mk.injEq] at hshape
  rw [hshape.1, hshape.2]
  cases shape <;>
    exact ⟨Scalar.ofNat_nonneg (by decide), Scalar.ofNat_nonneg (by decide)⟩

theorem greater_nonneg [LawfulScalar α] {a : α} (h : 0 ≤ a) (b : α) : 0 ≤ Scalar.greater a b := by
  unfold Scalar.greater
  split
  · next hlt => exact LawfulScalar.le_trans h (Scalar.le_of_lt hlt)
  · exact h

/-- The shape of a node is at least as large as its place. -/
theorem valid_of_nodeElement [LawfulScalar α] {style : DrawingStyle α} {origin : Point α}
    {isOutline : Bool} {place : Place α} (hplace : place.Sized) {n : Node} {mark : String}
    {e : Element α} (h : nodeElement style origin isOutline place n mark = .ok e) : e.Valid := by
  obtain ⟨hwidth, hheight⟩ := sized_nonneg hplace
  obtain ⟨stroke, -, h⟩ := exists_of_bind h
  obtain ⟨color, -, h⟩ := exists_of_bind h
  obtain ⟨size, -, h⟩ := exists_of_bind h
  cases h
  refine .shape ⟨greater_nonneg hwidth _, greater_nonneg hheight _, ?_⟩ ?_
  · exact Scalar.normalizeAngle_zero
  · exact Shape.valid_of_curve_eq_none rfl

/-! ## All nodes -/

/-- The nodes are drawn one by one, under their ids. -/
theorem meets_nodeElements {P : Node → String → Element α → Prop} {style : DrawingStyle α}
    {origin : Point α} {isOutline : Bool} {places : Entries (Place α)} {nodes : List Node}
    {drawn : Entries (Element α)} (ids : IdSupply)
    (hplaces : ∀ n ∈ nodes, n.id ∈ places.keys)
    (hnodup : (drawn.keys ++ nodes.map (·.id)).Nodup)
    (hnode : ∀ n ∈ nodes, ∀ place, Entries.get? n.id places = some place → ∀ mark,
      Meets α (P n mark) (nodeElement style origin isOutline place n mark)) :
    MeetsDraft α (fun drawn' ids' => ids' = ids.advance nodes.length ∧
      ∃ made : Entries (Element α), drawn' = drawn ++ made ∧ made.keys = nodes.map (·.id) ∧
        List.Forall₂ (fun m entry => P m.1 m.2 entry.2)
          (nodes.zip (ids.shortIds nodes.length)) made)
      (nodeElements style origin isOutline places nodes drawn ids) := by
  induction nodes generalizing drawn ids with
  | nil => exact ⟨rfl, [], (List.append_nil _).symm, rfl, .nil⟩
  | cons n rest ih =>
    rw [List.forall_mem_cons] at hplaces hnode
    obtain ⟨place, hplace⟩ := Entries.exists_get?_of_mem_keys hplaces.1
    have hnew : n.id ∉ drawn.keys := fun hmem =>
      (List.nodup_append.mp hnodup).2.2 _ hmem _ List.mem_cons_self rfl
    rw [nodeElements, hplace]
    refine MeetsDraft.andThen (P := fun e ids' => ids' = ids.next ∧ P n ids.shortId e) ?_ ?_
    · exact (hnode.1 place hplace ids.shortId).mono fun e he => ⟨rfl, he⟩
    · rintro e _ ⟨rfl, he⟩
      have hset : Entries.set n.id e drawn = drawn ++ [(n.id, e)] := Entries.set_of_not_mem hnew
      rw [hset]
      have hnodup' : ((drawn ++ [(n.id, e)]).keys ++ rest.map (·.id)).Nodup := by
        rw [Entries.keys_append, List.append_assoc]
        exact hnodup
      refine (ih ids.next hplaces.2 hnodup' hnode.2).mono ?_
      · rintro drawn' ⟨hids, made, hdrawn, hkeys, hmade⟩
        refine ⟨hids.trans (ids.next_advance _), (n.id, e) :: made, ?_,
          congrArg (n.id :: ·) hkeys, .cons he hmade⟩
        rw [hdrawn, List.append_assoc, List.singleton_append]

/-! ## Layers -/

section Moved

variable {α : Type}

/-- An element at another place. -/
def Moved (e e' : Element α) : Prop := ∃ x y, e' = e.moveTo x y

theorem Moved.refl (e : Element α) : Moved e e := ⟨_, _, e.moveTo_self.symm⟩

theorem Moved.trans {e e' e'' : Element α} (h : Moved e e') (h' : Moved e' e'') : Moved e e'' := by
  obtain ⟨x, y, rfl⟩ := h
  obtain ⟨x', y', rfl⟩ := h'
  exact ⟨x', y', e.moveTo_moveTo x y x' y'⟩

theorem Draws.moved {n : Node} {mark : String} {e e' : Element α} (h : Draws n mark e)
    (he : Moved e e') : Draws n mark e' := by
  obtain ⟨x, y, rfl⟩ := he
  have hid := h.id
  have hkind := h.kind
  have hcontent := h.content
  constructor <;> cases e <;> assumption

theorem exists_layerElements {drawn : Entries (Element α)} {layer : List String}
    (h : ∀ id ∈ layer, id ∈ drawn.keys) :
    ∃ elements, layerElements drawn layer = .ok elements ∧
      List.Forall₂ (fun id e => Entries.get? id drawn = some e) layer elements := by
  induction layer with
  | nil => exact ⟨[], rfl, .nil⟩
  | cons id rest ih =>
    rw [List.forall_mem_cons] at h
    obtain ⟨e, he⟩ := Entries.exists_get?_of_mem_keys h.1
    obtain ⟨elements, helements, hget⟩ := ih h.2
    refine ⟨e :: elements, ?_, .cons he hget⟩
    rw [layerElements, he, helements]
    rfl

theorem mem_keys_of_layerElements {drawn : Entries (Element α)} {layer : List String}
    {es : List (Element α)}
    (h : layerElements drawn layer = .ok es) : ∀ id ∈ layer, id ∈ drawn.keys := by
  induction layer generalizing es with
  | nil => nofun
  | cons id rest ih =>
    rw [layerElements] at h
    split at h
    · cases h
    · next e he =>
      cases hrest : layerElements drawn rest with
      | error error =>
        rw [hrest] at h
        cases h
      | ok es' => exact List.forall_mem_cons.mpr ⟨Entries.mem_keys_of_get? he, ih hrest⟩

theorem forall_mem_zip {layer : List String} {elements : List (Element α)}
    {R : String → Element α → Prop} (h : List.Forall₂ R layer elements) {γ : Type}
    (centers : List γ) : ∀ m ∈ layer.zip (elements.zip centers), R m.1 m.2.1 := by
  induction h generalizing centers with
  | nil => simp
  | cons hR _ ih =>
    cases centers with
    | nil => simp
    | cons center centers =>
      rw [List.zip_cons_cons, List.zip_cons_cons, List.forall_mem_cons]
      exact ⟨hR, ih centers⟩

/-- Elements of a map are moved one after the other. -/
theorem alike_foldl_set {γ : Type} {drawn drawn' : Entries (Element α)}
    {ms : List (String × Element α × γ)} (move : Element α → γ → Element α)
    (hmove : ∀ e c, Moved e (move e c)) (h : ∀ m ∈ ms, Entries.get? m.1 drawn = some m.2.1)
    (hdrawn' : Entries.Alike Moved drawn drawn') :
    Entries.Alike Moved drawn
      (ms.foldl (fun es m => Entries.set m.1 (move m.2.1 m.2.2) es) drawn') := by
  induction ms generalizing drawn' with
  | nil => exact hdrawn'
  | cons m ms ih =>
    rw [List.forall_mem_cons] at h
    exact ih h.2 (hdrawn'.set h.1 (hmove _ _))

end Moved

/-- The shapes of a layer are moved, whatever was moved before. -/
theorem alike_packLayer {drawn : Entries (Element α)} {layer : List String}
    (h : ∀ id ∈ layer, id ∈ drawn.keys) (style : DrawingStyle α) (origin : Point α)
    (horizontal : Bool) (rank : Int) :
    ∃ drawn', packLayer style origin horizontal rank layer drawn = .ok drawn' ∧
      Entries.Alike Moved drawn drawn' := by
  obtain ⟨elements, helements, hget⟩ := exists_layerElements h
  rw [packLayer, helements]
  exact ⟨_, rfl, alike_foldl_set (fun e center => centerAt origin center e)
    (fun e center => ⟨_, _, rfl⟩) (forall_mem_zip hget _) (.refl Moved.refl drawn)⟩

theorem alike_packLayers {drawn : Entries (Element α)} {layers : List (List String)}
    (h : ∀ id ∈ layers.flatten, id ∈ drawn.keys) (style : DrawingStyle α) (origin : Point α)
    (direction : Direction) (count i : Nat) :
    ∃ drawn', packLayers style origin direction count i layers drawn = .ok drawn' ∧
      Entries.Alike Moved drawn drawn' := by
  induction layers generalizing drawn i with
  | nil => exact ⟨drawn, rfl, .refl Moved.refl drawn⟩
  | cons layer rest ih =>
    rw [List.flatten_cons, List.forall_mem_append] at h
    obtain ⟨packed, hpacked, hlayer⟩ := alike_packLayer h.1 style origin direction.isHorizontal
      (Layout.rankOf direction count i)
    have hkeys : ∀ id ∈ rest.flatten, id ∈ packed.keys := fun id hid =>
      hlayer.keys_eq ▸ h.2 id hid
    obtain ⟨drawn', hdrawn', hrest⟩ := ih hkeys (i + 1)
    refine ⟨drawn', ?_, hlayer.trans (fun _ _ _ h h' => h.trans h') hrest⟩
    rw [packLayers, hpacked]
    exact hdrawn'

section Packed

variable {style : DrawingStyle α} {origin : Point α} {drawn packed : Entries (Element α)}

theorem mem_keys_of_packLayer {horizontal : Bool} {rank : Int} {layer : List String}
    (h : packLayer style origin horizontal rank layer drawn = .ok packed) :
    ∀ id ∈ layer, id ∈ drawn.keys := by
  unfold packLayer at h
  cases hes : layerElements drawn layer with
  | error e =>
    rw [hes] at h
    cases h
  | ok es => exact mem_keys_of_layerElements hes

/-- Packing that does not fail has found all ids. -/
theorem alike_of_packLayers {direction : Direction} {count i : Nat} {layers : List (List String)}
    (h : packLayers style origin direction count i layers drawn = .ok packed) :
    Entries.Alike Moved drawn packed := by
  induction layers generalizing drawn i with
  | nil =>
    cases h
    exact .refl Moved.refl _
  | cons layer rest ih =>
    obtain ⟨between, hlayer, hrest⟩ := exists_of_bind h
    obtain ⟨between', hbetween, halike⟩ := alike_packLayer (mem_keys_of_packLayer hlayer) style
      origin direction.isHorizontal (Layout.rankOf direction count i)
    cases hlayer.symm.trans hbetween
    exact halike.trans (fun _ _ _ h h' => h.trans h') (ih hrest)

end Packed

end Drawing

end Whiteboard

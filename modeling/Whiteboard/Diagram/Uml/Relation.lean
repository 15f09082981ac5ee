import Whiteboard.Graph
import Whiteboard.Text.Scan
import Whiteboard.Text.Word

/-!
# Relations between classes

A relation stands between two words: the left word, a symbol, the right word, and for some symbols
a label behind a colon. `Relation.find?` looks for the symbols in the order of `relations`, each
anywhere in a line, so that the first symbol with a match decides.
-/

namespace Whiteboard.Diagram.Uml

inductive RelationKind where
  | inheritance
  | composition
  | aggregation
  | association
  | dependency
  deriving DecidableEq, Repr

instance : Named RelationKind where
  title := "RelationKind"
  values := [.inheritance, .composition, .aggregation, .association, .dependency]
  name
    | .inheritance => "inheritance"
    | .composition => "composition"
    | .aggregation => "aggregation"
    | .association => "association"
    | .dependency => "dependency"

/-- The kind of edge that draws a relation. -/
def RelationKind.edgeKind : RelationKind → EdgeKind
  | dependency => .dotted
  | inheritance => .thick
  | _ => .arrow

/-- The kind of edge for the name of a relation; any other text means an arrow. -/
def edgeKindOf (name : String) : EdgeKind :=
  match Named.ofName? name with
  | some kind => RelationKind.edgeKind kind
  | none => .arrow

/-- A part of a symbol. -/
inductive Stroke where
  | one (c : Char)
  | many (c : Char)
  | maybe (c : Char)
  deriving DecidableEq, Repr

/-- The text behind a stroke. -/
def Stroke.drop? : Stroke → List Char → Option (List Char)
  | one c, cs => Text.dropWord? [c] cs
  | many c, cs =>
    match Text.span (· == c) cs with
    | ([], _) => none
    | (_, rest) => some rest
  | maybe c, cs => some ((Text.dropWord? [c] cs).getD cs)

/-- The text behind a symbol. -/
def dropStrokes? : List Stroke → List Char → Option (List Char)
  | [], cs => some cs
  | s :: more, cs => (s.drop? cs).bind (dropStrokes? more)

/-- How a relation is written. `reversed` symbols point to the left word. -/
structure RelationForm where
  strokes : List Stroke
  kind : RelationKind
  reversed : Bool
  labelled : Bool

/-- All symbols, in the order in which they are looked for. -/
def relationForms : List RelationForm :=
  [⟨[.one '<', .one '|', .many '-'], .inheritance, true, false⟩,
    ⟨[.many '-', .one '|', .one '>'], .inheritance, false, false⟩,
    ⟨[.one '*', .many '-'], .composition, true, false⟩,
    ⟨[.many '-', .one '*'], .composition, false, false⟩,
    ⟨[.one 'o', .many '-'], .aggregation, true, false⟩,
    ⟨[.many '-', .one 'o'], .aggregation, false, false⟩,
    ⟨[.many '-', .one '>'], .association, false, true⟩,
    ⟨[.one '<', .many '-'], .association, true, true⟩,
    ⟨[.many '.', .maybe '|', .one '>'], .dependency, false, true⟩,
    ⟨[.many '-'], .association, false, true⟩]

/-- A label behind a colon, up to the end of the line. -/
def labelBehind? (cs : List Char) : Option (List Char) :=
  match Text.trimLeft cs with
  | ':' :: rest =>
    match Text.trimLeft rest with
    | [] => none
    | label => some label
  | _ => none

/-- A relation as an edge between two words. -/
def RelationForm.edge (f : RelationForm) (left right label : List Char) : Edge :=
  let source := if f.reversed then right else left
  let target := if f.reversed then left else right
  ⟨String.ofList source, String.ofList target, String.ofList (Text.trim label), f.kind.edgeKind⟩

/-- What stands behind the left word: the symbol, the right word and the label. -/
def RelationForm.behind? (f : RelationForm) (left rest : List Char) : Option Edge :=
  match dropStrokes? f.strokes (Text.trimLeft rest) with
  | none => none
  | some after =>
    match Text.span Text.isWord (Text.trimLeft after) with
    | ([], _) => none
    | (right, tail) =>
      some (f.edge left right (if f.labelled then (labelBehind? tail).getD [] else []))

/-- A relation whose left word has `n` characters or, failing that, fewer. -/
def RelationForm.withLeft? (f : RelationForm) (cs : List Char) : Nat → Option Edge
  | 0 => none
  | n + 1 => (f.behind? (cs.take (n + 1)) (cs.drop (n + 1))).or (f.withLeft? cs n)

/-- A relation at the front of a text. -/
def RelationForm.atFront? (f : RelationForm) (cs : List Char) : Option Edge :=
  f.withLeft? cs (Text.span Text.isWord cs).1.length

/-- The leftmost relation in a text. -/
def RelationForm.find? (f : RelationForm) : List Char → Option Edge
  | [] => none
  | c :: rest => (f.atFront? (c :: rest)).or (f.find? rest)

/-- The relation in a line, by the first symbol that has a match. -/
def relation? (line : List Char) : Option Edge :=
  relationForms.findSome? fun f => f.find? line

end Whiteboard.Diagram.Uml

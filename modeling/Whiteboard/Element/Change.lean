import Whiteboard.Element.Codec

/-!
# Changes to elements

Changes arrive as members of a JSON object. They are put over the members of the element as it is
written, and the whole is read again, so that a changed element passes the same checks as a new
one. An id never changes. When an arrow is given another size, its ends follow.
-/

namespace Whiteboard

/-- New values for fields, by name. -/
abbrev Changes (α : Type) := Entries (Json α)

/-- Changes by the id of the element. -/
abbrev Batch (α : Type) := Entries (Changes α)

/-- Why an edit was refused. -/
inductive EditError where
  /-- A value did not pass the checks. -/
  | invalid (issues : List Issue)
  /-- A name means nothing. -/
  | unknownName (name : UnknownName)
  /-- There are two ends of an arrow, and this is neither. -/
  | unknownEnd (name : String)
  /-- Elements of this kind are not made from scratch. -/
  | notCreatable (kind : ElementKind)
  /-- A style is no record. -/
  | styleExpected
  /-- An integer is out of the range of numbers. -/
  | outOfRange
  /-- A box without width keeps no ratio of its sides. -/
  | noRatio
  /-- Nothing turns by an angle without bound. -/
  | unboundedAngle
  /-- Groups are nested too deep to be copied. -/
  | tooDeep
  deriving DecidableEq, Repr

namespace EditError

/-- What is said about an error; some are told by their kind alone. -/
def message? : EditError → Option String
  | invalid issues => some (Issue.report issues)
  | unknownName name => some name.message
  | unknownEnd name => some ("Unknown arrow point: " ++ name)
  | notCreatable kind => some ("Cannot create element of type " ++ Named.name kind)
  | unboundedAngle => some "math domain error"
  | styleExpected | outOfRange | noRatio | tooDeep => none

end EditError

/-- The value of a check as the value of an edit. -/
def Checked.toEdit {β : Type} : Checked β → Except EditError β
  | .ok v => .ok v
  | .bad issues => .error (.invalid issues)

namespace Changes

variable {α : Type} [Scalar α]

/-- How many times the old size a new one is. It is 1 when no new size is given as a number, and
when the old one is zero. -/
def growth (key : String) (old : α) (changes : Changes α) : Except EditError α :=
  if Scalar.isZero old then .ok 1
  else
    match Entries.get? key changes with
    | some (.num x) => .ok (x / old)
    | some (.bool b) => .ok ((if b then 1 else 0) / old)
    | some (.int i) =>
      if Scalar.holdsInt α i then .ok (Scalar.ofInt i / old) else .error .outOfRange
    | _ => .ok 1

/-- Puts in a scaled end of an arrow, unless there is none or the changes tell it. -/
def putEnd (key : String) (p : Option (Point α)) (sx sy : α) (changes : Changes α) : Changes α :=
  match p with
  | some p =>
    if Entries.has key changes then changes
    else Entries.set key (Point.mk (p.x * sx) (p.y * sy)).toJson changes
  | none => changes

/-- Puts in the ends of an arrow, scaled with its size. -/
def putEnds (f : Frame α) (s : Shape α) (changes : Changes α) : Except EditError (Changes α) := do
  let sx ← growth "width" f.width changes
  let sy ← growth "height" f.height changes
  return putEnd "arrow_end" s.finish sx sy (putEnd "arrow_start" s.start sx sy changes)

/-- Completes a new style of a text by what the old style says. -/
def putStyle (t : TextBlock α) (changes : Changes α) : Except EditError (Changes α) :=
  match Entries.get? "style" changes with
  | none | some .null => .ok changes
  | some (.obj ms) => .ok (Entries.set "style" (.obj (Entries.merge t.style.toMembers ms)) changes)
  | some _ => .error .styleExpected

/-- The changes that follow from given ones for an element. -/
def completed (e : Element α) (changes : Changes α) : Except EditError (Changes α) :=
  match e with
  | .shape f .arrow s => putEnds f s changes
  | .text _ t => putStyle t changes
  | _ => .ok changes

end Changes

namespace Element

variable {α : Type} [Scalar α]

/-- The members of an element as it is written. -/
def toMembers (e : Element α) : Entries (Json α) :=
  match e.toJson with
  | .obj ms => ms
  | _ => []

/-- An element with changes. Children that come with the changes may lack ids. -/
def apply (ids : IdSupply) (e : Element α) (changes : Changes α) :
    Except EditError (Element α) × IdSupply :=
  match Changes.completed e (Entries.erase "id" changes) with
  | .error err => (.error err, ids)
  | .ok changes =>
    let (read, ids) := Element.read ids (.obj (Entries.merge e.toMembers changes))
    (read.toEdit, ids)

end Element

end Whiteboard

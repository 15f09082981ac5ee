import Whiteboard.Entries

/-!
# JSON values

The tree of values in which documents are written and updates arrive. Integers are exact; other
numbers are scalars. The members of an object keep their order.
-/

namespace Whiteboard

inductive Json (α : Type) where
  | null
  | bool (value : Bool)
  | int (value : Int)
  | num (value : α)
  | str (value : String)
  | arr (items : List (Json α))
  | obj (members : List (String × Json α))
  deriving Inhabited

namespace Json

variable {α : Type}

/-- The value of a member; `none` for what is no object. -/
def get? (key : String) : Json α → Option (Json α)
  | obj members => Entries.get? key members
  | _ => none

def isNull : Json α → Bool
  | null => true
  | _ => false

def ofNat (n : Nat) : Json α := int n

def ofStrings (xs : List String) : Json α := arr (xs.map str)

/-- A value that may be missing. -/
def ofOption {β : Type} (f : β → Json α) : Option β → Json α
  | some x => f x
  | none => null

mutual

/-- A value with another kind of numbers. -/
def mapNumbers {β : Type} (f : α → β) : Json α → Json β
  | null => null
  | bool b => bool b
  | int i => int i
  | num x => num (f x)
  | str s => str s
  | arr items => arr (mapItemNumbers f items)
  | obj members => obj (mapMemberNumbers f members)

def mapItemNumbers {β : Type} (f : α → β) : List (Json α) → List (Json β)
  | [] => []
  | v :: rest => mapNumbers f v :: mapItemNumbers f rest

def mapMemberNumbers {β : Type} (f : α → β) : List (String × Json α) → List (String × Json β)
  | [] => []
  | (k, v) :: rest => (k, mapNumbers f v) :: mapMemberNumbers f rest

end

mutual

/-- The numbers that are no integers, in order. -/
def numbers : Json α → List α
  | num x => [x]
  | arr items => itemNumbers items
  | obj members => memberNumbers members
  | _ => []

def itemNumbers : List (Json α) → List α
  | [] => []
  | v :: rest => numbers v ++ itemNumbers rest

def memberNumbers : List (String × Json α) → List α
  | [] => []
  | (_, v) :: rest => numbers v ++ memberNumbers rest

end

mutual

/-- A value without the members of its objects that are null, at any depth. -/
def compact : Json α → Json α
  | arr items => arr (compactItems items)
  | obj members => obj (compactMembers members)
  | v => v

def compactItems : List (Json α) → List (Json α)
  | [] => []
  | v :: rest => compact v :: compactItems rest

def compactMembers : List (String × Json α) → List (String × Json α)
  | [] => []
  | (_, null) :: rest => compactMembers rest
  | (k, v) :: rest => (k, compact v) :: compactMembers rest

end

end Json

end Whiteboard

/-!
# Named values

Enumerations whose values have a name in documents and requests.
-/

namespace Whiteboard

/-- A finite type with a title and a name for each value. -/
class Named (β : Type) where
  title : String
  values : List β
  name : β → String

namespace Named

variable {β : Type} [Named β]

/-- The value of a name. -/
def ofName? (s : String) : Option β := values.find? fun v => name v == s

/-- A value that is found by a name has that name. -/
theorem name_of_ofName? {s : String} {v : β} (h : ofName? s = some v) : name v = s := by
  simpa using List.find?_some h

end Named

/-- A name that no value of an enumeration has, as it is shown in a message. -/
structure UnknownName where
  shown : String
  title : String
  deriving DecidableEq, Repr

def UnknownName.message (e : UnknownName) : String := s!"{e.shown} is not a valid {e.title}"

end Whiteboard

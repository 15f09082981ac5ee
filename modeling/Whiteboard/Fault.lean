import Whiteboard.Json.Writer

/-!
# Faults

Errors that carry a message and name what they are about.
-/

namespace Whiteboard

/-- A message and the values it is about, by name. -/
structure Fault (α : Type) where
  message : String
  context : Entries (Json α)

namespace Fault

variable {α : Type} [NumberText α]

/-- The message, followed by the context in brackets if there is any. -/
def text (f : Fault α) : String :=
  if f.context.isEmpty then f.message
  else
    let parts := f.context.map fun (k, v) => k ++ "=" ++ v.shown
    f.message ++ " (" ++ ", ".intercalate parts ++ ")"

end Fault

end Whiteboard

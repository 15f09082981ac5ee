import Whiteboard.Board

/-!
# The stack

Which elements cover which. Commands take the elements in the order of the stack, move some of them,
and number all of them anew.
-/

namespace Whiteboard

variable {α : Type}

namespace Element

/-- The elements from the lowest to the highest. -/
def stacked (elements : List (Element α)) : List (Element α) :=
  elements.mergeSort fun a b => a.zIndex ≤ b.zIndex

/-- Moves chosen elements past the next one that is not chosen. -/
def stepUp (chosen : Element α → Bool) : List (Element α) → List (Element α)
  | [] => []
  | e :: rest =>
    match stepUp chosen rest with
    | above :: others =>
      if chosen e && !chosen above then above :: e :: others else e :: above :: others
    | [] => [e]

/-- Moves chosen elements before the one before them that is not chosen. -/
def stepDown (chosen : Element α → Bool) (elements : List (Element α)) : List (Element α) :=
  (stepUp chosen elements.reverse).reverse

end Element

namespace Board

variable [Scalar α]

/-- Stacks the elements in another order. Without ids this is no step. -/
def restack (ids : List String)
    (order : (Element α → Bool) → List (Element α) → List (Element α)) (b : Board α) : Board α :=
  if ids.isEmpty then b
  else
    let ordered := order (fun e => ids.contains e.id) (Element.stacked b.elements)
    (b.withElements (Element.renumbered ordered)).changed

def bringToFront (ids : List String) (b : Board α) : Board α :=
  b.restack ids fun chosen es => es.filter (!chosen ·) ++ es.filter chosen

def sendToBack (ids : List String) (b : Board α) : Board α :=
  b.restack ids fun chosen es => es.filter chosen ++ es.filter (!chosen ·)

def bringForward (ids : List String) (b : Board α) : Board α := b.restack ids Element.stepUp

def sendBackward (ids : List String) (b : Board α) : Board α := b.restack ids Element.stepDown

end Board

end Whiteboard

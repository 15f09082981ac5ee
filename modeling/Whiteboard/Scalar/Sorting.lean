import Whiteboard.Scalar

/-!
# Sorting numbers

The numbers of a list in ascending order. A run at its front is taken as it stands, or reversed if
it descends; the others are inserted one by one at a place found by halving. Where something among
them is no number there is no order, and what comes out is told by these steps alone.
-/

namespace Whiteboard.Sorting

variable {α : Type} [Scalar α]

/-- Splits a list behind the front part in which each value and the next one are related. -/
def run (related : α → α → Bool) (a : α) : List α → List α × List α
  | [] => ([a], [])
  | b :: rest =>
    if related a b then
      let (front, left) := run related b rest
      (a :: front, left)
    else ([a], b :: rest)

/-- The run at the front of a list, in ascending order, and what follows it. -/
def frontRun : List α → List α × List α
  | a :: b :: rest =>
    if b < a then
      let (front, left) := run (fun a b => (b < a : Bool)) a (b :: rest)
      (front.reverse, left)
    else run (fun a b => !(b < a : Bool)) a (b :: rest)
  | xs => (xs, [])

/-- The place of a value in the part of a list from `low` to `high`, behind its equals. -/
def place (xs : Array α) (x : α) (low high : Nat) : Nat :=
  if low < high then
    let middle := (low + high) / 2
    match xs[middle]? with
    | some y => if x < y then place xs x low middle else place xs x (middle + 1) high
    | none => low
  else low
  termination_by high - low

/-- A list with a value at its place. -/
def insert (xs : List α) (x : α) : List α :=
  let i := place xs.toArray x 0 xs.length
  xs.take i ++ x :: xs.drop i

/-- The numbers of a list in ascending order. -/
def sort (xs : List α) : List α :=
  let (front, rest) := frontRun xs
  rest.foldl insert front

end Whiteboard.Sorting

/-!
# Linear history

A line of states with a cursor. A commit cuts off what lies after the cursor and adds a state at the
end; when the line grows over its limit, the oldest state is dropped. Undoing and redoing move the
cursor and leave the line as it is.
-/

namespace Whiteboard

/-- The states before the cursor, the latest first; the state at the cursor; and those after it, the
next first. -/
structure History (σ : Type) where
  limit : Int
  past : List σ
  current : σ
  future : List σ

namespace History

variable {σ : Type}

/-- How many states are kept if nothing else is said. -/
def defaultLimit : Int := 50

/-- A history of one state; a limit of zero means the default. -/
def start (limit : Int) (s : σ) : History σ :=
  ⟨if limit = 0 then defaultLimit else limit, [], s, []⟩

/-- Forgets everything but a new state. -/
def reset (h : History σ) (s : σ) : History σ := { h with past := [], current := s, future := [] }

/-- The number of states up to the cursor. -/
def depth (h : History σ) : Nat := h.past.length + 1

/-- All states, the oldest first. -/
def timeline (h : History σ) : List σ := h.past.reverse ++ h.current :: h.future

def canUndo (h : History σ) : Bool := !h.past.isEmpty

def canRedo (h : History σ) : Bool := !h.future.isEmpty

/-- Adds a state after the one at the cursor. -/
def push (h : History σ) (s : σ) : History σ :=
  let past := h.current :: h.past
  { h with
    past := if h.limit < (past.length + 1 : Nat) then past.dropLast else past
    current := s
    future := [] }

/-- Records a state. One that equals the state at the cursor is not added again, but still cuts off
what comes after. -/
def commit [BEq σ] (h : History σ) (s : σ) : History σ :=
  if h.current == s then { h with future := [] } else h.push s

/-- One step back. -/
def undo? (h : History σ) : Option (History σ) :=
  match h.past with
  | [] => none
  | s :: rest => some { h with past := rest, current := s, future := h.current :: h.future }

/-- One step forth. -/
def redo? (h : History σ) : Option (History σ) :=
  match h.future with
  | [] => none
  | s :: rest => some { h with past := h.current :: h.past, current := s, future := rest }

theorem timeline_of_undo? {h h' : History σ} (hu : h.undo? = some h') :
    h'.timeline = h.timeline := by
  unfold undo? at hu
  split at hu
  · contradiction
  next s rest hp =>
    cases hu
    simp [timeline, hp]

theorem timeline_of_redo? {h h' : History σ} (hr : h.redo? = some h') :
    h'.timeline = h.timeline := by
  unfold redo? at hr
  split at hr
  · contradiction
  next s rest hf =>
    cases hr
    simp [timeline, hf]

/-- A step back is undone by a step forth. -/
theorem redo?_of_undo? {h h' : History σ} (hu : h.undo? = some h') : h'.redo? = some h := by
  unfold undo? at hu
  split at hu
  · contradiction
  next s rest hp =>
    cases hu
    cases h
    simp_all [redo?]

end History

end Whiteboard

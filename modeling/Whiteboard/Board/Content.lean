import Whiteboard.Arrow
import Whiteboard.Board

/-!
# The elements of a board

Adding, changing and removing elements. When changed elements move, arrows bound to them can be made
to follow in the same step of the history.
-/

namespace Whiteboard

variable {α : Type} [Scalar α]

namespace Element

/-- Changes elements one after the other, up to the first that refuses; those after it stay. -/
def applyEach (changesOf : Element α → Option (Changes α)) (ids : IdSupply) :
    List (Element α) → Option EditError × List (Element α) × IdSupply
  | [] => (none, [], ids)
  | e :: rest =>
    match changesOf e with
    | none =>
      let (failure, rest, ids) := applyEach changesOf ids rest
      (failure, e :: rest, ids)
    | some changes =>
      match e.apply ids changes with
      | (.error failure, ids) => (some failure, e :: rest, ids)
      | (.ok e, ids) =>
        let (failure, rest, ids) := applyEach changesOf ids rest
        (failure, e :: rest, ids)

end Element

namespace Batch

/-- The changes for an element. -/
def changesOf (batch : Batch α) (e : Element α) : Option (Changes α) := Entries.get? e.id batch

/-- The fields that move the anchors of an element. -/
def geometryFields : List String := ["x", "y", "width", "height", "rotation"]

/-- The ids whose changes move anchors. -/
def movedIds (batch : Batch α) : List String :=
  Entries.keys (batch.filter fun (_, changes) =>
    changes.any fun (k, _) => geometryFields.contains k)

end Batch

namespace Board

/-- Applies a batch to all elements, or to none. -/
def applyBatch (batch : Batch α) (b : Board α) : Outcome α Unit :=
  match Element.applyEach batch.changesOf b.ids b.elements with
  | (none, elements, ids) => (.ok (), { b.withElements elements with ids })
  | (some e, _, ids) => (.error e, { b with ids })

/-- Lets arrows follow elements that moved. -/
def refreshBindings (moved : List String) (b : Board α) : Outcome α Unit :=
  b.applyBatch (Element.rebindings moved b.elements)

/-- Lets arrows follow the elements that a batch moved, except those that the batch names. -/
def followBatch (batch : Batch α) (b : Board α) : Outcome α Unit :=
  let arrows := Element.rebindings batch.movedIds b.elements false
  b.applyBatch (arrows.filter fun (id, _) => !Entries.has id batch)

/-- Adds elements at the end. -/
def add (elements : List (Element α)) (b : Board α) : Board α :=
  (b.withElements (b.elements ++ elements)).changed

/-- Adds elements at the end and selects them. -/
def insert (elements : List (Element α)) (b : Board α) : Board α :=
  ((b.withElements (b.elements ++ elements)).withSelected (elements.map Element.id)).changed

/-- Changes the elements with an id, one after the other. The result is the last of them, before
arrows follow; there is none if the id is unknown. -/
def update (id : String) (changes : Changes α) (rebind : Bool) (b : Board α) :
    Outcome α (Option (Element α)) :=
  match Element.applyEach (Batch.changesOf [(id, changes)]) b.ids b.elements with
  | (some e, elements, ids) => (.error e, { b.withElements elements with ids })
  | (none, elements, ids) =>
    let b := { b.withElements elements with ids }
    match b.elements.reverse.find? (·.id == id) with
    | none => (.ok none, b)
    | some result =>
      let followed := if rebind then b.followBatch [(id, changes)] else (.ok (), b)
      followed.andThen fun _ b => (.ok (some result), b.changed)

/-- Applies a batch as one step. An empty batch is no step. -/
def updateAll (batch : Batch α) (rebind : Bool) (b : Board α) : Outcome α Unit :=
  if batch.isEmpty then (.ok (), b)
  else
    (b.applyBatch batch).andThen fun _ b =>
      (if rebind then b.followBatch batch else (.ok (), b)).andThen fun _ b => (.ok (), b.changed)

/-- Removes elements, also from the selection. -/
def delete (ids : List String) (b : Board α) : Board α :=
  ((b.withElements (without ids b.elements)).withSelected
    (b.selected.filter fun id => !ids.contains id)).changed

end Board

end Whiteboard

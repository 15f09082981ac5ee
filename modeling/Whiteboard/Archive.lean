import Whiteboard.Disk
import Whiteboard.Element.Codec
import Whiteboard.Json.Reader
import Whiteboard.Json.Writer
import Whiteboard.Text.Blank

/-!
# Keeping documents

A document is kept in a file of its own. No file and a blank file mean that nothing is kept; a file
that holds no document is removed, and then nothing is kept either. A file beyond the limits of the
reader is refused and stays.
-/

namespace Whiteboard.Archive

variable {α : Type} [Scalar α]

/-- The text of the file of a document. -/
def write [NumberText α] (d : Document α) : String := String.ofList (Json.writeIndented d.toJson)

/-- Saves a document, with the folders that are needed. -/
def save [NumberText α] (d : Document α) (p : DiskPath) (disk : Disk) :
    Except DiskError Unit × Disk :=
  match disk.makeFolders p.parent with
  | (.error e, disk) => (.error e, disk)
  | (.ok (), disk) =>
    match disk.write p (write d) with
    | .error e => (.error e, disk)
    | .ok disk => (.ok (), disk)

/-- Whether a value has a list of elements. -/
def hasElements (v : Json α) : Bool :=
  match v.get? "elements" with
  | some (.arr _) => true
  | _ => false

/-- Why nothing is loaded. -/
inductive LoadError where
  | disk (error : DiskError)
  | beyondLimits (fault : Json.Fault)
  deriving DecidableEq, Repr

/-- The document that a value holds, if it does. -/
def documentOf? (ids : IdSupply) (v : Json α) : Option (Document α) × IdSupply :=
  if !hasElements v then (none, ids)
  else
    match Document.read ids v with
    | (.ok d, ids) => (some d, ids)
    | (.bad _, ids) => (none, ids)

/-- The document that a text holds, if it does. -/
def parse (ids : IdSupply) (text : String) :
    Except LoadError (Option (Document α)) × IdSupply :=
  match Json.read text.toList with
  | .ok v =>
    let (d, ids) := documentOf? ids v
    (.ok d, ids)
  | .error (.malformed _) => (.ok none, ids)
  | .error fault => (.error (.beyondLimits fault), ids)

/-- Loads a document, if one is kept. -/
def load (ids : IdSupply) (p : DiskPath) (disk : Disk) :
    Except LoadError (Option (Document α)) × Disk × IdSupply :=
  match disk.has p, disk.read p with
  | .error e, _ => (.error (.disk e), disk, ids)
  | .ok false, _ => (.ok none, disk, ids)
  | .ok true, .error e => (.error (.disk e), disk, ids)
  | .ok true, .ok text =>
    if (Text.trim text.toList).isEmpty then (.ok none, disk, ids)
    else
      match parse ids text with
      | (.error e, ids) => (.error e, disk, ids)
      | (.ok (some d), ids) => (.ok (some d), disk, ids)
      | (.ok none, ids) => (.ok none, (disk.remove p).toOption.getD disk, ids)

/-- Removes what is kept; false if there was nothing. -/
def clear (p : DiskPath) (disk : Disk) : Except DiskError Bool × Disk :=
  match disk.has p, disk.remove p with
  | .error e, _ => (.error e, disk)
  | .ok false, _ => (.ok false, disk)
  | .ok true, .error e => (.error e, disk)
  | .ok true, .ok disk => (.ok true, disk)

end Whiteboard.Archive

/-!
# Disks

A file system as far as documents are kept in it: files with a text, and folders. Paths are read
without regard to repeated separators and to steps that stay where they are.
-/

namespace Whiteboard

/-- Names to follow from a root, or from the working folder if the root is empty. -/
structure DiskPath where
  root : String
  names : List String
  deriving DecidableEq, Repr

namespace DiskPath

/-- The path that a text writes. Two leading separators are a root of their own. -/
def ofText (text : String) : DiskPath :=
  let cs := text.toList
  let slashes := (cs.takeWhile (· == '/')).length
  let root := if slashes = 0 then "" else if slashes = 2 then "//" else "/"
  let names := ((cs.splitOn '/').map String.ofList).filter fun n => n != "" && n != "."
  ⟨root, names⟩

/-- The path that a text writes, step by step: steps that stay where they are count, and a separator
at the end is such a step. -/
def ofSteps (text : String) : DiskPath :=
  let names := ((text.toList.splitOn '/').map String.ofList).filter (· != "")
  ⟨(ofText text).root, if text.endsWith "/" then names ++ ["."] else names⟩

def text (p : DiskPath) : String :=
  if p.root.isEmpty && p.names.isEmpty then "." else p.root ++ "/".intercalate p.names

/-- The folder that a path lies in. -/
def parent (p : DiskPath) : DiskPath := { p with names := p.names.dropLast }

/-- Whether a path begins with the sign of a home folder. -/
def beginsAtHome (p : DiskPath) : Bool :=
  p.root.isEmpty && (p.names.head?.any fun name => name.startsWith "~")

/-- The path with the sign of a home folder replaced by that folder. There is none for the homes of
others, nor where the home is itself told by such a sign. -/
def expandHome (p home : DiskPath) : Option DiskPath :=
  if !p.beginsAtHome then some p
  else if p.names.head? == some "~" && !home.beginsAtHome then
    some { home with names := home.names ++ p.names.tail }
  else none

/-- The place that paths of the same root start from. -/
def start (p : DiskPath) : DiskPath := ⟨if p.root.isEmpty then "" else "/", []⟩

/-- The place that a name leads to from another place: `..` leads back. -/
def step (place : DiskPath) : String → DiskPath
  | "." => place
  | ".." =>
    match place.names.getLast? with
    | none => if place.root.isEmpty then { place with names := [".."] } else place
    | some ".." => { place with names := place.names ++ [".."] }
    | some _ => place.parent
  | name => { place with names := place.names ++ [name] }

/-- The place that a path leads to, if it leads through folders. -/
def resolve (p : DiskPath) : DiskPath := p.names.foldl step p.start

/-- The paths to the folders on the way, and the path itself. -/
def stages (p : DiskPath) : List DiskPath :=
  (List.range p.names.length).map fun i => { p with names := p.names.take (i + 1) }

end DiskPath

/-- Why a disk refuses. -/
inductive DiskError where
  | notFound
  | isFolder
  | notFolder
  | exists
  /-- A name or a path has more bytes than a disk takes. -/
  | tooLong
  /-- A path holds the character that ends a path. -/
  | cutShort
  /-- The home folder of a path is unknown. -/
  | homeless
  deriving DecidableEq, Repr

/-- What is said of a path that holds the character that ends a path. -/
def DiskError.cutShortText : String := "embedded null byte"

/-- The most bytes of a name. -/
def DiskPath.maxNameSize : Nat := 255

/-- The most bytes of a path. -/
def DiskPath.maxSize : Nat := 4095

/-- Refuses a path that no disk takes. -/
def DiskPath.check (p : DiskPath) : Except DiskError Unit :=
  if p.text.toList.contains '\x00' then .error .cutShort
  else if p.text.utf8ByteSize > maxSize then .error .tooLong
  else .ok ()

/-- Files and folders by their places. -/
structure Disk where
  files : List (DiskPath × String)
  folders : List DiskPath

namespace Disk

/-- A disk with files, in the folders that they need. -/
def ofFiles (files : List (String × String)) : Disk :=
  let files := files.map fun (name, text) => (DiskPath.ofText name, text)
  ⟨files.map fun (p, text) => (p.resolve, text),
    files.flatMap fun (p, _) => p.parent.stages.map DiskPath.resolve⟩

/-- The text at a place. -/
def text? (d : Disk) (place : DiskPath) : Option String := d.files.lookup place

/-- Whether a place is a folder. Where paths start there is one, and so there is on the way back. -/
def hasFolder (d : Disk) (place : DiskPath) : Bool :=
  place.names.all (· == "..") || d.folders.contains place

/-- Whether something is at a place. -/
def holds (d : Disk) (place : DiskPath) : Bool := (d.text? place).isSome || d.hasFolder place

/-- Where names lead from a place. There is a folder at each place on the way. -/
def follow (d : Disk) (place : DiskPath) : List String → Except DiskError DiskPath
  | [] => .ok place
  | name :: rest =>
    if !d.hasFolder place then .error (if d.holds place then .notFolder else .notFound)
    else if name.utf8ByteSize > DiskPath.maxNameSize then .error .tooLong
    else d.follow (place.step name) rest

/-- The place that a path leads to. -/
def locate (d : Disk) (p : DiskPath) : Except DiskError DiskPath := do
  p.check
  d.follow p.start p.names

/-- Whether a path leads to something. One beyond the limits is refused. -/
def has (d : Disk) (p : DiskPath) : Except DiskError Bool :=
  match d.locate p with
  | .ok place => .ok (d.holds place)
  | .error .tooLong => .error .tooLong
  | .error _ => .ok false

/-- The text of a file. -/
def read (d : Disk) (p : DiskPath) : Except DiskError String := do
  let place ← d.locate p
  match d.text? place with
  | some text => return text
  | none => throw (if d.hasFolder place then .isFolder else .notFound)

/-- Makes the folders that names lead through from a place; those made before a refusal stay. A file
in the way is no folder to walk through, but once a folder is `made` it is one that cannot be
made. -/
def makeFrom (d : Disk) (place : DiskPath) (made : Bool) :
    List String → Except DiskError Unit × Disk
  | [] => (if d.hasFolder place then .ok () else .error .exists, d)
  | name :: rest =>
    if !d.hasFolder place then (.error (if made then .exists else .notFolder), d)
    else if name.utf8ByteSize > DiskPath.maxNameSize then (.error .tooLong, d)
    else
      let next := place.step name
      if d.holds next then d.makeFrom next made rest
      else makeFrom { d with folders := next :: d.folders } next true rest

/-- Makes a folder and those on the way to it. -/
def makeFolders (d : Disk) (p : DiskPath) : Except DiskError Unit × Disk :=
  match p.check with
  | .error e => (.error e, d)
  | .ok () => d.makeFrom p.start false p.names

/-- Writes a file in a folder that exists. -/
def write (d : Disk) (p : DiskPath) (text : String) : Except DiskError Disk := do
  let place ← d.locate p
  if d.hasFolder place then throw .isFolder
  return { d with files := (place, text) :: d.files.filter (·.1 != place) }

/-- Removes a file. -/
def remove (d : Disk) (p : DiskPath) : Except DiskError Disk := do
  let place ← d.locate p
  if d.hasFolder place then throw .isFolder
  if (d.text? place).isNone then throw .notFound
  return { d with files := d.files.filter (·.1 != place) }

/-- The files in the working folder and below, in order. -/
def names (d : Disk) : List String :=
  let here := d.files.filter fun (p, _) => p.root.isEmpty && p.names.head? != some ".."
  (here.map fun (p, _) => p.text).mergeSort (· ≤ ·)

end Disk

end Whiteboard

import LineBasic.Table

/-!
# Files and folders

A disk is a map from paths to files and folders; the path of an entry has the names of the folders
around it, from the root.  Host paths are walked name by name: `..` leads to the folder around, a
single point and an empty name stay where they are, and every name but the last has to be that of a
folder.

* `Disk.find` — the walk.
* `Disk.read?`, `Disk.list?`, `Disk.write` — whole files and folders by host path.
-/

set_option autoImplicit false
namespace LineBasic

/-- The names on the way from the root to an entry. -/
abbrev Place : Type := List String

/-- What stands at a place. -/
inductive Entry where
  | file (text : String)
  | folder
deriving DecidableEq, Repr

/-- Why the host refuses an access. -/
inductive FileError where
  | missing
  | isFolder
  | alreadyThere
  | notFolder
  /-- The path has a null character. -/
  | badName
  /-- A name, or the whole path, is longer than the host allows. -/
  | longName
deriving DecidableEq, Repr

/-- The files and folders of a host.  The root folder is always there. -/
structure Disk where
  entries : Table Place Entry := {}

namespace Disk

/-- What stands at a place, if anything does. -/
def get? (d : Disk) (place : Place) : Option Entry :=
  if place = [] then some .folder else d.entries.get? place

/-- The disk with an entry put at a place. -/
def put (d : Disk) (place : Place) (e : Entry) : Disk :=
  ⟨d.entries.insert place e⟩

/-- Whether a name is too long for an entry. -/
def isLong (name : String) : Bool :=
  255 < name.utf8ByteSize

/-- Whether a host path is too long to be walked, whatever it leads to. -/
def isLongPath (names : List String) : Bool :=
  4096 ≤ ("/".intercalate names).utf8ByteSize

/-- Whether a name has a null character. -/
def isBad (name : String) : Bool :=
  name.toList.contains '\x00'

/-- Walks from a place along names: the place reached and what stands there. -/
def walk (d : Disk) (here : Place) : List String → Except FileError (Place × Entry)
  | [] => match d.get? here with
    | some e => .ok (here, e)
    | none => .error .missing
  | name :: names => match d.get? here with
    | none => .error .missing
    | some (.file _) => .error .notFolder
    | some .folder =>
      if name = ".." then walk d here.dropLast names
      else if name = "." ∨ name = "" then walk d here names
      else if isLong name then .error .longName
      else walk d (here ++ [name]) names

/-- What stands at a host path, walked from a starting place.  The names of a path from the root
folder begin with an empty one. -/
def find (d : Disk) (start : Place) (names : List String) : Except FileError (Place × Entry) :=
  if names.any isBad then .error .badName
  else if isLongPath names then .error .longName
  else d.walk start names

/-- What stands at a host path, or nothing if there is no such entry; names that are too long are an
error here as well. -/
def find? (d : Disk) (start : Place) (names : List String) :
    Except FileError (Option (Place × Entry)) :=
  match d.find start names with
  | .ok found => .ok (some found)
  | .error .longName => .error .longName
  | .error _ => .ok none

/-- The text of a file. -/
def read? (d : Disk) (start : Place) (names : List String) : Except FileError (Option String) :=
  return match ← d.find? start names with
    | some (_, .file text) => some text
    | _ => none

/-- The name of an entry in the listing of the folder it is in; folders end in a slash. -/
def listedName (place : Place) (e : Place × Entry) : Option String :=
  if e.1.dropLast = place then
    e.1.getLast?.map fun name ↦ match e.2 with
      | .folder => name ++ "/"
      | .file _ => name
  else none

/-- The entries of a folder, in alphabetical order. -/
def list? (d : Disk) (start : Place) (names : List String) :
    Except FileError (Option (List String)) :=
  return match ← d.find? start names with
    | some (place, .folder) =>
      some ((d.entries.entries.filterMap (listedName place)).mergeSort (· ≤ ·))
    | _ => none

/-! ## Writing -/

/-- Whether a host path leads to anything. -/
def isThere (d : Disk) (start : Place) (names : List String) : Bool :=
  (d.find start names).isOk

/-- Whether a host path leads to a folder. -/
def isFolder (d : Disk) (start : Place) (names : List String) : Bool :=
  match d.find start names with
  | .ok (_, .folder) => true
  | _ => false

/-- The place that the last name of a host path stands for, whether or not anything stands there.
`..`, an empty name and the empty path stand for no new place. -/
def lastPlace (d : Disk) (start : Place) (names : List String) :
    Except FileError (Option Place) :=
  match names.getLast? with
  | none => .ok none
  | some last =>
    if names.any isBad then .error .badName
    else if isLongPath names then .error .longName
    else match d.walk start names.dropLast with
      | .error e => .error e
      | .ok (_, .file _) => .error .notFolder
      | .ok (here, .folder) =>
        if last = ".." ∨ last = "" then .ok none
        else if isLong last then .error .longName
        else .ok (some (here ++ [last]))

/-- Makes one folder. -/
def makeFolder (d : Disk) (start : Place) (names : List String) : Except FileError Disk :=
  match d.lastPlace start names with
  | .error e => .error e
  | .ok none => .error .alreadyThere
  | .ok (some place) => match d.get? place with
    | some _ => .error .alreadyThere
    | none => .ok (d.put place .folder)

/-- Makes the folder at a host path with all folders on the way that are missing, and keeps those
that were made before one could not be.  The names are given from the last to the first. -/
def makeFolders (start : Place) : List String → Disk → Disk × Except FileError Unit
  | [], d => (d, .ok ())
  | last :: before, d =>
    let around := before.reverse
    let (d, made) :=
      if before.isEmpty || d.isThere start around then (d, .ok ()) else makeFolders start before d
    match made with
    | .error .alreadyThere | .ok () =>
      let names := around ++ [last]
      match d.makeFolder start names with
      | .ok d => (d, .ok ())
      | .error .badName => (d, .error .badName)
      | .error e => (d, if d.isFolder start names then .ok () else .error e)
    | .error e => (d, .error e)

/-- Replaces the text of a file in a folder that is there. -/
def writeFile (d : Disk) (start : Place) (names : List String) (text : String) :
    Except FileError Disk :=
  match d.lastPlace start names with
  | .error e => .error e
  | .ok none => .error .isFolder
  | .ok (some place) => match d.get? place with
    | some .folder => .error .isFolder
    | _ => .ok (d.put place (.file text))

/-- Replaces the text of a file, making the folders around it first. -/
def write (d : Disk) (start : Place) (names : List String) (text : String) :
    Disk × Except FileError Unit :=
  let (d, made) := makeFolders start (names.dropLast).reverse d
  match made with
  | .error e => (d, .error e)
  | .ok () => match d.writeFile start names text with
    | .ok d => (d, .ok ())
    | .error e => (d, .error e)

/-- The files below a place, by their paths from there, in order. -/
def filesBelow (d : Disk) (place : Place) : List (List String × String) :=
  d.entries.entries.filterMap fun e ↦ match e.2 with
    | .file text =>
      if place.isPrefixOf e.1 then some (e.1.drop place.length, text) else none
    | .folder => none

end Disk

end LineBasic

import LineBasic.FileStore.Disk
import LineBasic.Text.Lines

/-!
# File stores

Where programs are saved to and loaded from: a table of texts by path, or a folder of the host.

A path given to a folder has backslashes taken as slashes and slashes at its start dropped, so that
it is always taken from the folder; `..` in it is left for the host to follow.
-/

set_option autoImplicit false
namespace LineBasic

/-! ## Host paths -/

/-- A path with backslashes taken as slashes. -/
def forwardSlashes (path : String) : List Char :=
  path.toList.map fun c ↦ if c = '\\' then '/' else c

/-- Splits a text at slashes. -/
def splitSlashes : List Char → List (List Char)
  | [] => [[]]
  | c :: cs =>
    if c = '/' then [] :: splitSlashes cs
    else match splitSlashes cs with
      | [] => [[c]]
      | name :: names => (c :: name) :: names

/-- The names on a host path; empty ones and single points mean nothing. -/
def pathNames (cs : List Char) : List String :=
  ((splitSlashes cs).map String.ofList).filter fun name ↦ name != "" && name != "."

/-- Where the walk along a host path starts, given where relative paths start from. -/
def startOf (workplace : Place) (path : String) : Place :=
  if path.toList.head? = some '/' then [] else workplace

/-- Reads the file at a host path; there has to be one. -/
def Disk.readAt (d : Disk) (workplace : Place) (path : String) : Except FileError String := do
  let names := (splitSlashes path.toList).map String.ofList
  match ← d.find (startOf workplace path) names with
  | (_, .file text) => return Text.asRead text
  | (_, .folder) => throw .isFolder

/-- A folder of the host that programs are kept in. -/
structure Folder where
  disk : Disk := {}
  /-- The folder that relative paths start from. -/
  workplace : Place := []
  /-- The host path of the folder. -/
  root : String := "."

namespace Folder

/-- Where the walk to the entries of the folder starts. -/
def start (f : Folder) : Place :=
  startOf f.workplace f.root

/-- The names from the start of the walk to the entry that a path given to the folder means. -/
def resolve (f : Folder) (path : String) : List String :=
  let names := pathNames f.root.toList ++ pathNames ((forwardSlashes path).dropWhile (· == '/'))
  if f.root.toList.head? = some '/' then "" :: names else names

/-- The host path of what a path given to the folder means. -/
def hostPath (f : Folder) (path : String) : String :=
  match f.resolve path with
  | [] => "."
  | [""] => "/"
  | names => "/".intercalate names

/-- The text of a file. -/
def read (f : Folder) (path : String) : Except FileError (Option String) :=
  return (← f.disk.read? f.start (f.resolve path)).map Text.asRead

/-- Replaces the text of a file. -/
def write (f : Folder) (path text : String) : Folder × Except FileError Unit :=
  let (disk, done) := f.disk.write f.start (f.resolve path) text
  ({ f with disk }, done)

/-- The entries of a folder inside. -/
def list (f : Folder) (path : String) : Except FileError (Option (List String)) :=
  f.disk.list? f.start (f.resolve path)

end Folder

/-! ## Stores -/

/-- A store of program texts. -/
inductive FileStore where
  /-- Texts by path. -/
  | memory (files : Table String String)
  /-- The files of a folder. -/
  | folder (folder : Folder)

namespace FileStore

/-- The names in a table of texts that a path lists: all for an empty path, and otherwise those
below it, if there are any. -/
def namesBelow (files : Table String String) (path : String) : Option (List String) :=
  let isSlash (c : Char) : Bool := c == '/'
  let cs := forwardSlashes path
  let name := ((cs.dropWhile isSlash).reverse.dropWhile isSlash).reverse
  if name.isEmpty then some (files.keys.mergeSort (· ≤ ·))
  else
    let below := files.keys.filterMap fun key ↦
      if (name ++ ['/']).isPrefixOf key.toList then
        some (String.ofList (key.toList.drop (name.length + 1)))
      else none
    if below.isEmpty then none else some (below.mergeSort (· ≤ ·))

/-- The text at a path, if there is one. -/
def read (store : FileStore) (path : String) : Except FileError (Option String) :=
  match store with
  | memory files => .ok (files.get? path)
  | folder f => f.read path

/-- Replaces the text at a path. -/
def write (store : FileStore) (path text : String) : FileStore × Except FileError Unit :=
  match store with
  | memory files => (memory (files.insert path text), .ok ())
  | folder f =>
    let (f, done) := f.write path text
    (folder f, done)

/-- The names that a path lists, if it lists any. -/
def list (store : FileStore) (path : String) : Except FileError (Option (List String)) :=
  match store with
  | memory files => .ok (namesBelow files path)
  | folder f => f.list path

end FileStore

end LineBasic

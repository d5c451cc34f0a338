import TriforceScript.Path

/-!
# File trees

Files and folders under a root, with a working folder that relative names count
from.
-/

namespace TriforceScript

/-- A place in a file tree: the names of the folders from the root on, and its
own. -/
abbrev Location := List Bytes

namespace FileTree

/-- What a place holds. -/
inductive Entry where
  | file (content : Bytes)
  | folder
  /-- Something that is always empty and forgets what is written to it. -/
  | sink
  deriving DecidableEq, Repr

/-- Why a place cannot be used. -/
inductive Cause where
  /-- There is nothing. -/
  | missing
  /-- A file stands where a folder is needed. -/
  | notFolder
  /-- A folder stands where a file is needed. -/
  | isFolder
  /-- The name holds a byte that no name may hold. -/
  | invalidName
  /-- The name, or a part of it, is too long. -/
  | longName
  /-- It may not be used in this way. -/
  | denied
  deriving DecidableEq, Repr

def Cause.message : Cause → Bytes
  | .missing => utf8 "no such file or directory"
  | .notFolder => utf8 "not a directory"
  | .isFolder => utf8 "is a directory"
  | .invalidName => utf8 "invalid argument"
  | .longName => utf8 "file name too long"
  | .denied => utf8 "permission denied"

/-- What was tried with a file. -/
inductive Action where
  | opening
  | reading
  deriving DecidableEq, Repr

def Action.message : Action → Bytes
  | .opening => utf8 "open"
  | .reading => utf8 "read"

/-- Why a file cannot be used. -/
structure Fault where
  /-- What was tried. -/
  action : Action
  /-- The name of the file. -/
  name : Bytes
  /-- What stands in the way. -/
  cause : Cause
  deriving DecidableEq, Repr

def Fault.message (fault : Fault) : Bytes :=
  fault.action.message ++ utf8 " " ++ fault.name ++ utf8 ": " ++ fault.cause.message

end FileTree

/-- Files and folders.  The root is a folder that is always there. -/
structure FileTree where
  /-- The places below the root and what they hold. -/
  entries : List (Location × FileTree.Entry) := []
  /-- The folder that relative names count from. -/
  folder : Location := []
  deriving DecidableEq, Repr

namespace FileTree

/-- What a place holds, if there is anything. -/
def find? (tree : FileTree) (location : Location) : Option Entry :=
  if location = [] then some .folder else tree.entries.lookup location

/-- Puts a file or folder in a place. -/
def put (tree : FileTree) (location : Location) (entry : Entry) : FileTree :=
  { tree with
    entries := tree.entries.filter (·.1 != location) ++ [(location, entry)] }

/-! ## Names -/

/-- The number of bytes that a name has to stay below. -/
def nameLimit : Nat :=
  4096

/-- The greatest number of bytes in a part of a name. -/
def partLimit : Nat :=
  255

/-- What is wrong with a name, whatever files there are. -/
def nameFault? (name : Bytes) : Option Cause :=
  if 0 ∈ name then
    some .invalidName
  else if name = [] then
    some .missing
  else if nameLimit ≤ name.length then
    some .longName
  else
    none

/-- Follows the parts of a name from a place.  Every place on the way has to be a
folder, but not the one where the way ends. -/
def follow (tree : FileTree) : Location → List Bytes → Except Cause Location
  | location, [] => .ok location
  | location, part :: rest =>
      match tree.find? location with
      | none => .error .missing
      | some .folder =>
          if part = [] ∨ part = Path.here then
            follow tree location rest
          else if part = Path.above then
            follow tree location.dropLast rest
          else if partLimit < part.length then
            .error .longName
          else
            follow tree (location ++ [part]) rest
      | some _ => .error .notFolder

/-- The place that a name counts from. -/
def base (tree : FileTree) (name : Bytes) : Location :=
  if Path.isAbsolute name then [] else tree.folder

/-- The place that a name leads to, and what it holds. -/
def lookup (tree : FileTree) (name : Bytes) : Except Cause Entry :=
  match nameFault? name with
  | some cause => .error cause
  | none => do
      let location ← tree.follow (tree.base name) (Path.components name)
      match tree.find? location with
      | none => .error .missing
      | some entry => .ok entry

/-! ## Reading and writing -/

/-- The content of a file. -/
def read (tree : FileTree) (name : Bytes) : Except Fault Bytes :=
  match tree.lookup name with
  | .error cause => .error ⟨.opening, name, cause⟩
  | .ok .folder => .error ⟨.reading, name, .isFolder⟩
  | .ok (.file content) => .ok content
  | .ok .sink => .ok []

/-- The place of a file to be written.  Its folder has to be there, and a name
with a slash at its end is no name for a file. -/
def target (tree : FileTree) (name : Bytes) : Except Cause Location :=
  match nameFault? name, (Path.components name).reverse.dropWhile (· = []) with
  | some cause, _ => .error cause
  | none, [] => .error .isFolder
  | none, last :: parents => do
      let folder ← tree.follow (tree.base name) (parents.reverse ++ [[]])
      if name.getLast? = some Path.slash ∨ last = Path.here ∨ last = Path.above then
        .error .isFolder
      else if partLimit < last.length then
        .error .longName
      else if tree.find? (folder ++ [last]) = some .folder then
        .error .isFolder
      else
        .ok (folder ++ [last])

/-- Gives a file new content, and makes the file if there is none. -/
def write (tree : FileTree) (name content : Bytes) : Except Fault FileTree :=
  match tree.target name with
  | .error cause => .error ⟨.opening, name, cause⟩
  | .ok location =>
      if tree.find? location = some .sink then
        .ok tree
      else
        .ok (tree.put location (.file content))

/-- Why the entry under a name cannot be run as a program.  No file, folder or sink
can. -/
def refusal (tree : FileTree) (name : Bytes) : Cause :=
  match tree.lookup name with
  | .error cause => cause
  | .ok _ => .denied

/-! ## Laying out and comparing trees -/

/-- Makes the folders on the way from `location` down the parts of a path. -/
def makeFolders (tree : FileTree) (location : Location) : List Bytes → FileTree
  | [] => tree
  | part :: rest =>
      let location := location ++ [part]
      let tree := if tree.find? location = none then tree.put location .folder else tree
      makeFolders tree location rest

/-- Lays out a file with the folders on the way to it.  A name with a slash at its
end is a folder. -/
def lay (tree : FileTree) (name content : Bytes) : FileTree :=
  let parts := ((Path.components name).foldl (Path.descend true) []).reverse
  if name.getLast? = some Path.slash then
    tree.makeFolders (tree.base name) parts
  else
    (tree.makeFolders (tree.base name) parts.dropLast).put (tree.base name ++ parts)
      (.file content)

/-- The folders that are always there. -/
def rootFolders : List Bytes :=
  ["bin", "dev", "etc", "home", "opt", "proc", "root", "run", "sbin", "sys", "tmp", "usr",
    "var"].map utf8

/-- A tree that holds no more than the folders that are always there, a sink and
its working folder. -/
def fresh (folder : Location) : FileTree :=
  let roots : FileTree := rootFolders.foldl (fun tree name => put tree [name] .folder) {}
  { makeFolders (put roots [utf8 "dev", utf8 "null"] .sink) [] folder with folder }

/-- The files below the working folder that are new or have other content than in
`before`, under their names relative to that folder. -/
def changes (before after : FileTree) : List (Bytes × Bytes) :=
  after.entries.filterMap fun (location, entry) =>
    match entry with
    | .file content =>
        if after.folder.isPrefixOf location ∧ before.find? location ≠ some entry then
          some (Path.join (location.drop after.folder.length), content)
        else
          none
    | _ => none

end FileTree

end TriforceScript

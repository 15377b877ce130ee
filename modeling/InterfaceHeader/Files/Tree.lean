import InterfaceHeader.Association
import InterfaceHeader.Files.Access
import InterfaceHeader.Files.Path

/-!
# File trees

A directory with everything below it, held in memory. A place in the tree is given by the names
that lead to it from the root, and `FileTree.content?` is the view of what the files hold. Paths
are seen from the root; those that leave it end in a directory around the tree, of which nothing
is known and in which nothing is found or written.
-/

namespace InterfaceHeader

/-- Files with their bytes, each at its place, and directories that may be empty. -/
structure FileTree where
  files : List (List String × ByteArray)
  directories : List (List String)

namespace FileTree

/-- The tree of an empty root. -/
def empty : FileTree := ⟨[], []⟩

/-- The bytes of the file at a place. -/
def content? (t : FileTree) (place : List String) : Option ByteArray :=
  t.files.lookup place

/-- There is a directory at a place: the root, or one that is listed or on the way to anything
    else. -/
def isDirectory (t : FileTree) (place : List String) : Bool :=
  place.isEmpty || t.directories.any place.isPrefixOf
    || t.files.any fun file => place.isPrefixOf file.1 && place != file.1

/-- The tree in which the file at a place holds the given bytes, whatever was there before. -/
def put (t : FileTree) (place : List String) (bytes : ByteArray) : FileTree :=
  { t with files := Association.insert t.files place bytes }

/-- Where a path leads. -/
inductive Place where
  /-- To a place in the tree, whether or not anything is there. -/
  | inside (names : List String)
  /-- To a directory around the tree. -/
  | outside
deriving DecidableEq

/-- Goes on by one name. Behind a place where no directory is, no name leads anywhere. -/
def step (t : FileTree) : Place → String → Except ReadFailure Place
  | .outside, name => if name ∈ ["", ".", ".."] then .ok .outside else .error .notFound
  | .inside place, name =>
    if (t.content? place).isSome then .error .notDirectory
    else if !t.isDirectory place then .error .notFound
    else if name = "" ∨ name = "." then .ok (.inside place)
    else if name = ".." then .ok (if place = [] then .outside else .inside place.dropLast)
    else .ok (.inside (place ++ [name]))

/-- Where names lead from the root, or from outside if the first one is empty. -/
def walk (t : FileTree) : List String → Except ReadFailure Place
  | "" :: names => names.foldlM t.step .outside
  | names => names.foldlM t.step (.inside [])

/-- Where a path leads. The empty path leads nowhere. -/
def locate (t : FileTree) (path : String) : Except ReadFailure Place :=
  if path = "" then .error .notFound else t.walk (Path.names path)

/-- The bytes of the file that a path leads to. -/
def read (t : FileTree) (path : String) : Except ReadFailure ByteArray :=
  match t.locate path with
  | .error failure => .error failure
  | .ok .outside => .error .isDirectory
  | .ok (.inside place) =>
    match t.content? place with
    | some bytes => .ok bytes
    | none => .error (if t.isDirectory place then .isDirectory else .notFound)

/-- A path leads to a file. -/
def isFile (t : FileTree) (path : String) : Bool :=
  match t.read path with
  | .ok _ => true
  | .error _ => false

/-- The place of a file that can be written under a path: a proper name in a directory of the
    tree, not the name of a directory. -/
def writable? (t : FileTree) (path : String) : Option (List String) :=
  let names := Path.names path
  match names.getLast?, t.walk names.dropLast with
  | some name, .ok (.inside directory) =>
    let place := directory ++ [name]
    if name ∈ ["", ".", ".."] || !t.isDirectory directory || (t.content? directory).isSome
        || t.isDirectory place then none
    else some place
  | _, _ => none

/-- The tree after writing a text under a path, if it can be written. -/
def write? (t : FileTree) (path contents : String) : Option FileTree :=
  (t.writable? path).map fun place => t.put place contents.toUTF8

/-- Access to the files of a tree, which changes as they are written. -/
def access : FileAccess (StateM FileTree) where
  isFile path := return (← get).isFile path
  read path := return (← get).read path
  replace path contents := do
    match (← get).write? path contents with
    | some t =>
      set t
      return true
    | none => return false

/-- The files of a tree that are new in it or hold something else than before. -/
def changesSince (before after : FileTree) : List (List String × ByteArray) :=
  after.files.filter fun file => before.content? file.1 != some file.2

/-- The tree with one more entry: a file with its bytes, or a directory if the path ends in a
    slash. -/
def insert (t : FileTree) (path : String) (bytes : ByteArray) : FileTree :=
  let place := (Path.names path).filter fun name => name != "" && name != "."
  if path.toList.getLast? = some '/' then { t with directories := place :: t.directories }
  else t.put place bytes

/-- The tree with the given entries. -/
def ofList (entries : List (String × ByteArray)) : FileTree :=
  entries.foldl (fun t entry => t.insert entry.1 entry.2) empty

end FileTree

end InterfaceHeader

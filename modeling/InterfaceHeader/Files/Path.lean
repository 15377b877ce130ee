import InterfaceHeader.Text.Pieces

/-!
# Paths

A path is a text in which slashes separate names. It is absolute if it starts with a slash, and
otherwise it is seen from some directory.
-/

namespace InterfaceHeader.Path

/-- The names on a path from its start. Doubled and final slashes give empty names, and an
    absolute path starts with one. -/
def names (path : String) : List String :=
  (Text.pieces '/' path.toList).map String.ofList

def isAbsolute (path : String) : Bool :=
  path.toList.head? == some '/'

/-- The path that leads from a directory where another path leads when seen from there. -/
def within (directory path : String) : String :=
  if isAbsolute path || directory.isEmpty then path
  else if directory.toList.getLast? = some '/' then directory ++ path
  else directory ++ "/" ++ path

end InterfaceHeader.Path

/-!
# Access to files

All that the program asks of the files around it: whether a path leads to a file, what the file
holds, and to replace what it holds in one step. The answers are given by whoever runs the
program, a file tree held in memory or the machine itself.
-/

namespace InterfaceHeader

/-- Why a file cannot be read as text. -/
inductive ReadFailure where
  /-- Nothing is there. -/
  | notFound
  /-- The path leads to a directory. -/
  | isDirectory
  /-- The path goes on behind something that is no directory. -/
  | notDirectory
  /-- The bytes of the file are no text. -/
  | notText
  /-- A failure of the machine, in its own words. -/
  | other (reason : String)
deriving DecidableEq

/-- The text of the failure. -/
def ReadFailure.message : ReadFailure → String
  | .notFound => "No such file or directory (os error 2)"
  | .isDirectory => "Is a directory (os error 21)"
  | .notDirectory => "Not a directory (os error 20)"
  | .notText => "stream did not contain valid UTF-8"
  | .other reason => reason

/-- What can be done with files, each by its path. -/
structure FileAccess (m : Type → Type) where
  isFile : String → m Bool
  read : String → m (Except ReadFailure ByteArray)
  /-- Gives a file new contents, or makes it; says whether that was done. If it was not, nothing
      has changed. -/
  replace : (path contents : String) → m Bool

end InterfaceHeader

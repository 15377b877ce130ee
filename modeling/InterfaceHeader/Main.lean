import InterfaceHeader.Command.Run

/-!
# The program

Access to the files of the machine, and the entry point that hands the command line to a run and
its outcome to the machine.
-/

namespace InterfaceHeader

/-- Why the machine could not read a file. -/
def failureOfMachine : IO.Error → ReadFailure
  | .noFileOrDirectory .. => .notFound
  | .inappropriateType _ code _ => if code = 21 then .isDirectory else .notDirectory
  | error => .other (toString error)

/-- The part of a path up to its last slash. -/
def directoryPart (path : String) : String :=
  String.ofList (path.toList.reverse.dropWhile (· != '/')).reverse

/-- Writes a fresh file and gives it another name; if that fails, the fresh file is removed. -/
def writeAndRename (file : IO.FS.Handle) (fresh path contents : String) : IO Bool := do
  try
    file.putStr contents
    file.flush
    IO.FS.rename fresh path
    return true
  catch _ =>
    IO.FS.removeFile fresh
    return false

/-- Gives a file new contents by way of a fresh one in the same directory, so that nothing is left
    half written. -/
def replaceByRename (path contents : String) : IO Bool := do
  let fresh := directoryPart path ++ ".header-" ++ toString (← IO.monoNanosNow)
  try
    let file ← IO.FS.Handle.mk fresh .writeNew
    writeAndRename file fresh path contents
  catch _ => return false

/-- Access to the files of the machine. -/
def machineFiles : FileAccess IO where
  isFile path := do
    try return (← (← IO.FS.realPath path).metadata).type == .file
    catch _ => return false
  read path := do
    try return .ok (← IO.FS.readBinFile path)
    catch error => return .error (failureOfMachine error)
  replace := replaceByRename

end InterfaceHeader

/-- Runs the command line against the files of the machine. -/
def main (arguments : List String) : IO UInt32 := do
  let outcome ← InterfaceHeader.Command.run InterfaceHeader.machineFiles arguments
  IO.print outcome.stdout
  IO.eprint outcome.stderr
  return outcome.status.code.toUInt32

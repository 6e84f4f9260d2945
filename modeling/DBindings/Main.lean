import DBindings.CommandLine.Parse

/-!
# The program

Carries out the command line on the files of the machine.
-/

namespace DBindings

def attemptIO (action : IO PUnit) : IO Bool := do
  try
    action
    return true
  catch _ => return false

/-- The operations on the files of the machine. -/
def machineFiles : FileSystem IO where
  read path := do
    try
      return some (← IO.FS.readFile path)
    catch _ => return none
  write path text := attemptIO (IO.FS.writeFile path text)
  makeParent path := do
    let parent := Path.parent path
    if parent = "" then return true
    attemptIO (IO.FS.createDirAll parent)
  isPresent path := do
    try
      discard (IO.FS.realPath path)
      return true
    catch _ => return false
  canonical path := do
    try
      let place ← IO.FS.realPath path
      return some (Path.components place.toString)
    catch _ => return none

end DBindings

def main (args : List String) : IO UInt32 := do
  let response ← DBindings.CommandLine.respond DBindings.machineFiles args
  IO.print response.output
  return response.status.toUInt32

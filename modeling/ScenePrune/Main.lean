import ScenePrune.CommandLine.Program

/-! # The command -/

namespace ScenePrune.CommandLine

abbrev Disk := StateT (Option IO.FS.Handle) IO

namespace Disk

def attempt {α : Type} (action : IO α) : Disk (Option α) := do
  return (← action.toBaseIO).toOption

def logName : String := programName ++ ".log"

def openLog (directory : String) : IO IO.FS.Handle := do
  if directory ≠ "" then IO.FS.createDirAll directory
  IO.FS.Handle.mk (if directory = "" then logName else directory ++ "/" ++ logName) .append

def log (entry : LogEntry) : Disk Unit := do
  let line := entry.level.label ++ " " ++ entry.written ++ "\n"
  IO.print line
  if let some handle ← get then
    handle.putStr line
    handle.flush

instance : Workspace Disk where
  read? path := attempt (IO.FS.readFile path)
  write path text := return (← attempt (IO.FS.writeFile path text)).isSome
  openLog directory := do
    let handle? ← attempt (openLog directory)
    set handle?
    return handle?.isSome
  log := log
  print text := IO.println text
  notify text := IO.eprintln text

end Disk

end ScenePrune.CommandLine

def main (words : List String) : IO UInt32 := do
  let (code, _) ← (ScenePrune.CommandLine.run (m := ScenePrune.CommandLine.Disk) words).run none
  return UInt32.ofNat code

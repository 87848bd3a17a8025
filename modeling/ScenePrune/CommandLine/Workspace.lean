import ScenePrune.Text.Hexadecimal

/-!
# Workspaces

A run of the program reads and writes files and keeps a log. `Workspace` is all it knows of them,
so that a run means the same on a disk and on a `FileTree`.
-/

namespace ScenePrune.CommandLine

inductive LogLevel where
  | info
  | warning
deriving DecidableEq, Repr

def LogLevel.label : LogLevel → String
  | info => "INFO"
  | warning => "WARN"

structure LogEntry where
  level : LogLevel
  text : String
deriving DecidableEq, Repr

namespace LogEntry

/-- The control characters that a terminal would act upon are spelled out. -/
def escape (c : Char) : String :=
  let n := c.toNat
  if n ∈ [0x07, 0x08, 0x0C, 0x1B, 0x7F] then "\\x" ++ Text.hexDigits 2 n
  else if 0x80 ≤ n && n < 0xA0 then "\\u\x7b" ++ Text.hexDigits 2 n ++ "\x7d"
  else c.toString

def written (e : LogEntry) : String := String.join (e.text.toList.map escape)

end LogEntry

class Workspace (m : Type → Type) where
  /-- The text of a file, unless there is none that can be read. -/
  read? : String → m (Option String)
  /-- Gives a file a text and says whether that was possible. -/
  write : String → String → m Bool
  /-- Has the log kept in a directory, which need not exist yet, and says whether it can be. -/
  openLog : String → m Bool
  log : LogEntry → m Unit
  /-- Prints what the user has asked for. -/
  print : String → m Unit
  /-- Shows the user something beside the output. -/
  notify : String → m Unit

end ScenePrune.CommandLine

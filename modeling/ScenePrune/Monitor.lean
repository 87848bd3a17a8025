/-!
# Watching a run

A monitor tells how far a run has come and what it is doing, and lets an observer ask it to stop.
-/

namespace ScenePrune

structure Monitor where
  progress : Nat := 0
  maxProgress : Nat := 0
  cancelled : Bool := false
  message? : Option String := none
deriving DecidableEq, Repr

namespace Monitor

def advance (m : Monitor) : Monitor := { m with progress := m.progress + 1 }

def expect (m : Monitor) (steps : Nat) : Monitor := { m with progress := 0, maxProgress := steps }

def say (m : Monitor) (text : String) : Monitor := { m with message? := some text }

def cancel (m : Monitor) : Monitor := { m with cancelled := true }

end Monitor

end ScenePrune

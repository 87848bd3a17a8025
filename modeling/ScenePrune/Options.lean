import ScenePrune.Text.Blank

/-!
# Options of a run

Options are given as words: a long form of two dashes and a name, or one dash and letters. A word
that says nothing known is pointed out and has no effect.
-/

namespace ScenePrune

structure Options where
  dryRun : Bool := false
  report : Bool := false
  printAfterAll : Bool := false
  printBeforeSweep : Bool := false
  exportDot : Bool := false
deriving DecidableEq, Repr

namespace Options

def merge (a b : Options) : Options where
  dryRun := a.dryRun || b.dryRun
  report := a.report || b.report
  printAfterAll := a.printAfterAll || b.printAfterAll
  printBeforeSweep := a.printBeforeSweep || b.printBeforeSweep
  exportDot := a.exportDot || b.exportDot

def ofName? : String → Option Options
  | "--dry-run" => some { dryRun := true }
  | "--report" => some { report := true }
  | "--print-after-all" => some { printAfterAll := true }
  | "--print-before-sweep" => some { printBeforeSweep := true }
  | "--export-dot" => some { exportDot := true }
  | _ => none

def ofLetter? (c : Char) : Option Options :=
  match c.toLower with
  | 'n' => some { dryRun := true }
  | 'r' => some { report := true }
  | 'd' => some { exportDot := true }
  | _ => none

def ofWord (word : String) : List (Except String Options) :=
  let known (text : String) (o? : Option Options) : Except String Options :=
    match o? with
    | some o => .ok o
    | none => .error text
  match word.toList with
  | '-' :: '-' :: _ => [known word (ofName? word)]
  | '-' :: letters => letters.map fun c => known ("-" ++ c.toString) (ofLetter? c)
  | _ => [.error word]

def parts (text : String) : List (Except String Options) := (Text.words text).flatMap ofWord

def parse (text : String) : Options :=
  (parts text).foldl (fun o part => match part with
    | .ok p => o.merge p
    | .error _ => o) {}

def unrecognized (text : String) : List String :=
  (parts text).filterMap fun
    | .ok _ => none
    | .error part => some part

end Options

end ScenePrune

import ScenePrune.Collector
import ScenePrune.CommandLine.Arguments
import ScenePrune.CommandLine.Workspace
import ScenePrune.Config
import ScenePrune.Format.Animation
import ScenePrune.Format.Binding
import ScenePrune.Format.Report
import ScenePrune.Format.Scene
import ScenePrune.Json.Printer
import ScenePrune.Json.Reader
import ScenePrune.Path
import ScenePrune.Plugin.Bundled

/-!
# The program

Reads a configuration, a scene and its animations, removes what is dead, and writes what it was
asked for. What was written before a failure stays.
-/

namespace ScenePrune.CommandLine

inductive Failure where
  | arguments (error : ArgumentError)
  | config (path : String) (error : ConfigError)
  | unreadable (path : String)
  /-- The file does not hold what it should. -/
  | malformed (path : String)
  | hierarchy (path : String) (error : SceneError)
  | unwritable (path : String)
  | noLog (directory : String)
  | run (error : RunError)
deriving DecidableEq, Repr

namespace Failure

def message : Failure → String
  | arguments error => error.message
  | config path .malformed => s!"could not parse {path}"
  | config path .invalid => s!"invalid config in {path}"
  | unreadable path => s!"could not open {path}"
  | malformed path => s!"could not read {path}"
  | hierarchy path error => s!"could not read {path}: {error.message}"
  | unwritable path => s!"could not write {path}"
  | noLog directory => s!"could not keep a log in {directory}"
  | run error => error.message

def exitCode : Failure → Nat
  | arguments _ => 2
  | noLog _ => 101
  | _ => 1

end Failure

def versionText : String := programName ++ " 0.3.0-dev"

def helpText : String :=
  "Remove nodes that can never be observed from a scene snapshot\n\n" ++
  "Usage: " ++ programName ++ " [OPTIONS] <SCENE>\n\n" ++
  "Arguments:\n" ++
  "  <SCENE>  Path to the scene snapshot (JSON)\n\n" ++
  "Options:\n" ++
  "  -o, --output <OUTPUT>          Where to write the pruned scene. " ++
    "Nothing is written without it\n" ++
  "  -f, --flags <FLAGS>            Collection flags, e.g. `--dry-run --report`. " ++
    "Overrides `gc_flags` from the config\n" ++
  "  -c, --config <CONFIG>          Path to the config file. " ++
    "Created with default values if missing [default: " ++ defaultConfig ++ "]\n" ++
  "  -a, --animations <ANIMATIONS>  Animated properties of the scene (JSON)\n" ++
  "  -b, --bindings <BINDINGS>      External references to update after pruning (JSON). " ++
    "The updated references are written next to it with a `.pruned.json` extension\n" ++
  "  -h, --help                     Print help\n" ++
  "  -V, --version                  Print version"

section

variable {m : Type → Type} [Monad m] [Workspace m]

def info (text : String) : ExceptT Failure m Unit := Workspace.log (m := m) ⟨.info, text⟩

def warn (text : String) : ExceptT Failure m Unit := Workspace.log (m := m) ⟨.warning, text⟩

def writeText (path text : String) : ExceptT Failure m Unit := do
  unless ← Workspace.write (m := m) path text do throw (.unwritable path)

def writeJson (path : String) (j : Json) : ExceptT Failure m Unit := writeText path j.pretty

def readJson {α : Type} (decode : Json → Option α) (path : String) : ExceptT Failure m α := do
  match ← Workspace.read? (m := m) path with
  | none => throw (.unreadable path)
  | some text =>
    match (Json.parse? text).bind decode with
    | none => throw (.malformed path)
    | some value => return value

def loadConfig (path : String) : ExceptT Failure m Config := do
  let text := (← Workspace.read? (m := m) path).getD ""
  let (config, completed) := Config.load text
  if completed ≠ text then writeText path completed
  match config with
  | .error e => throw (.config path e)
  | .ok config => return config

def loadScene (path : String) : ExceptT Failure m Scene := do
  match Scene.ofNodes (← readJson Scene.nodesOfJson? path) with
  | .error e => throw (.hierarchy path e)
  | .ok scene => return scene

def loadAnimations : Option String → ExceptT Failure m AnimationTable
  | none => return ∅
  | some path => readJson AnimationTable.ofJson? path

def collectorFor (config : Config) (animations : AnimationTable) : Collector where
  registry := Bundled.registry
  rules := { config.entrypointTypes.foldl EntrypointRules.addType Bundled.entrypoints with
    roots := config.keepRoots }
  animations

def collect (c : Collector) (options : Options) (scene : Scene) :
    ExceptT Failure m (Outcome Scene) := do
  c.registry.validate.forM fun e => warn s!"Plugin configuration error: {e.message}"
  let run := c.collect options scene {}
  run.warnings.forM warn
  run.printed.forM (Workspace.notify (m := m) ·)
  match run.result with
  | .error e => throw (.run e)
  | .ok outcome => return outcome

/-- Writes bindings, brought up to date, next to the file they are in, and warns of every lost
target. -/
def updateBindings (mapping : RemovalMap) (path : String) :
    ExceptT Failure m (List Diagnostic) := do
  let bindings ← readJson (Json.list? Binding.ofJson?) path
  bindings.forM fun b =>
    (mapping.lostTarget? b).forM fun target =>
      warn s!"Reference held by {b.holder} points to removed node {target}"
  let (updated, lost) := mapping.updateAll bindings
  writeJson (Path.withExtension path "pruned.json") (.ofList Binding.toJson updated)
  return lost

/-- Writes what a run has changed and returns what is wrong with the bindings. A dry run has
changed nothing. -/
def writeChanges (arguments : Arguments) (outcome : Outcome Scene) :
    ExceptT Failure m (List Diagnostic) := do
  match outcome.mapping? with
  | none =>
    let liveness := outcome.analysis.liveness
    info s!"Dry run: {liveness.deadNodes.length} of {liveness.size} nodes would be removed"
    return []
  | some mapping =>
    info s!"Removed {outcome.removedCount} of {mapping.size} nodes"
    arguments.output?.forM fun path => writeJson path outcome.scene.toJson
    match arguments.bindings? with
    | none => return []
    | some path => updateBindings mapping path

def writeReport (path : String) (report : Report) : ExceptT Failure m Unit := do
  writeJson path report.toJson
  info s!"Wrote report to {path}"

def prune (arguments : Arguments) : ExceptT Failure m Unit := do
  let config ← loadConfig arguments.config
  unless ← Workspace.openLog (m := m) config.logDir do throw (.noLog config.logDir)
  let flags := arguments.flags?.getD config.flags
  (Options.unrecognized flags).forM fun text => warn s!"Unrecognized option: {text}"
  let options := Options.parse flags
  let scene ← loadScene arguments.scene
  let animations ← loadAnimations arguments.animations?
  info s!"Loaded {scene.size} nodes and {animations.size} animated properties"
  let outcome ← collect (collectorFor config animations) options scene
  outcome.analysis.dot?.forM (writeText (Path.withExtension arguments.scene "dot"))
  let lost ← writeChanges arguments outcome
  if options.report then
    let report := outcome.analysis.report
    writeReport config.reportPath { report with diagnostics := report.diagnostics ++ lost }

def perform (words : List String) : ExceptT Failure m Unit := do
  match Request.parse words with
  | .error e => throw (.arguments e)
  | .ok .help => Workspace.print (m := m) helpText
  | .ok .version => Workspace.print (m := m) versionText
  | .ok (.prune arguments) => prune arguments

def run (words : List String) : m Nat := do
  match ← (perform words).run with
  | .ok () => return 0
  | .error e =>
    Workspace.notify e.message
    return e.exitCode

end

end ScenePrune.CommandLine

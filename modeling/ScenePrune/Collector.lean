import ScenePrune.Graph.Build
import ScenePrune.Graph.Dump
import ScenePrune.Monitor
import ScenePrune.Options
import ScenePrune.Report
import ScenePrune.Sweep

/-!
# Runs

A collector analyses a scene in passes and then removes what is dead. Between passes it looks at
its monitor; once cancelled it stops and leaves the scene as it was. An `Analysis` holds what the
passes found.
-/

namespace ScenePrune

inductive Pass where
  | dependencies
  | entrypoints
  | activeness
  | liveness
  | dot
deriving DecidableEq, Repr

namespace Pass

def all : List Pass := [dependencies, entrypoints, activeness, liveness, dot]

def isEnabled (options : Options) : Pass → Bool
  | dot => options.exportDot
  | _ => true

def status : Pass → String
  | dependencies => "Collecting dependencies"
  | entrypoints => "Marking entrypoints"
  | activeness => "Computing activeness"
  | liveness => "Marking live nodes"
  | dot => "Exporting graph"

end Pass

structure Collector where
  registry : PluginRegistry
  rules : EntrypointRules
  animations : AnimationTable := ∅

structure Progress where
  monitor : Monitor
  graph : Graph := ∅
  writers? : Option (Writers Nat) := none
  activeness? : Option ActivenessTable := none
  liveness? : Option Liveness := none
  dot? : Option String := none
  diagnostics : List Diagnostic := []
  /-- Texts for the operator, in the order in which they come up. -/
  warnings : List String := []
  /-- Dumps of the graph that the options ask for. -/
  printed : List String := []

namespace Progress

def dump (p : Progress) : String := p.graph.dump p.activeness? p.liveness?

/-- Classifies the nodes; without writers, none is taken to be switched. -/
def withActiveness (p : Progress) : Progress :=
  let writers := p.writers?.getD ∅
  let unsettled := (p.graph.unsettled writers).length
  { p with
    activeness? := some (p.graph.activeness writers)
    warnings := p.warnings ++
      if unsettled = 0 then []
      else [s!"{unsettled} nodes are not reachable from a hierarchy root, treating them as variable"] }

def withLiveness (p : Progress) : Progress :=
  { p with liveness? := some (p.graph.liveness (p.activeness?.getD ∅)) }

def withDot (p : Progress) : Progress := { p with dot? := some p.graph.dot }

end Progress

def Graph.withEntrypoints (g : Graph) (rules : EntrypointRules) (v : SceneView) : Graph :=
  let mark (n : GraphNode) : GraphNode :=
    match rules.classify ⟨v, n.id⟩ with
    | some cause => n.mark cause
    | none => n
  { g with slots := g.slots.map (·.map mark) }

namespace Collector

def withGraph (c : Collector) (v : SceneView) (p : Progress) : Progress :=
  let d := p.graph.draft v c.registry c.animations
  { p with
    monitor := if d.cancelled then p.monitor.cancel else p.monitor
    graph := d.graph
    writers? := some d.writers
    diagnostics := p.diagnostics ++ d.diagnostics
    warnings := p.warnings ++ d.warnings }

def withEntrypoints (c : Collector) (v : SceneView) (p : Progress) : Progress :=
  let cancelled := p.graph.nodes.any fun n => c.rules.cancels ⟨v, n.id⟩
  { p with
    monitor := if cancelled then p.monitor.cancel else p.monitor
    graph := p.graph.withEntrypoints c.rules v }

def perform (c : Collector) (v : SceneView) (p : Progress) : Pass → Progress
  | .dependencies => c.withGraph v p
  | .entrypoints => c.withEntrypoints v p
  | .activeness => p.withActiveness
  | .liveness => p.withLiveness
  | .dot => p.withDot

def announce (c : Collector) (options : Options) (v : SceneView) (p : Progress) (pass : Pass) :
    Progress :=
  let p := c.perform v { p with monitor := p.monitor.say pass.status } pass
  let p := { p with monitor := p.monitor.advance }
  if options.printAfterAll then { p with printed := p.printed ++ [p.dump] } else p

/-- Runs the enabled passes in turn and stops before the next one when cancelled. A pass that is
not enabled counts as done. -/
def performAll (c : Collector) (options : Options) (v : SceneView) :
    List Pass → Progress → Progress
  | [], p => p
  | pass :: rest, p =>
    if !pass.isEnabled options then
      c.performAll options v rest { p with monitor := p.monitor.advance }
    else if p.monitor.cancelled then p
    else c.performAll options v rest (c.announce options v p pass)

end Collector

inductive RunError where
  | cancelled
  | missingAnalysis (name : String)
  | scene (error : SceneError)
deriving DecidableEq, Repr

def RunError.message : RunError → String
  | cancelled => "collection was cancelled"
  | missingAnalysis name => s!"analysis did not produce {name}"
  | scene error => s!"could not read scene: {error.message}"

structure Analysis where
  graph : Graph
  activeness : ActivenessTable
  liveness : Liveness
  diagnostics : List Diagnostic
  dot? : Option String

namespace Analysis

def node? (a : Analysis) (id : NodeId) : Option GraphNode := (a.graph.indexOf? id).bind a.graph.node?

def activeness? (a : Analysis) (id : NodeId) : Option Activeness :=
  (a.graph.indexOf? id).map a.activeness.get

def report (a : Analysis) : Report :=
  .build a.graph a.activeness a.liveness a.diagnostics

def dump (a : Analysis) : String := a.graph.dump (some a.activeness) (some a.liveness)

end Analysis

def Progress.analysis (p : Progress) : Except RunError Analysis := do
  if p.monitor.cancelled then throw .cancelled
  let some activeness := p.activeness? | throw (.missingAnalysis "activeness")
  let some liveness := p.liveness? | throw (.missingAnalysis "liveness")
  return { graph := p.graph, activeness, liveness, diagnostics := p.diagnostics, dot? := p.dot? }

structure Run (α : Type) where
  result : Except RunError α
  monitor : Monitor
  warnings : List String := []
  printed : List String := []

structure Outcome (σ : Type) where
  analysis : Analysis
  scene : σ
  /-- Absent on a dry run. -/
  mapping? : Option RemovalMap

/-- A run over a scene, with the scene that it leaves behind, be it successful or not. -/
structure Collection (σ : Type) extends Run (Outcome σ) where
  scene : σ

def Outcome.removedCount {σ : Type} (o : Outcome σ) : Nat :=
  (o.mapping?.map fun m => m.removed.length).getD 0

namespace Collector

def untyped? (v : SceneView) : Option NodeId := v.ids.find? fun id => (v.type? id).isNone

def stepCount : Nat := Pass.all.length + 1

def analyze (c : Collector) (options : Options) (v : SceneView) (monitor : Monitor) :
    Run Analysis :=
  match untyped? v with
  | some id => { result := .error (.scene (.nodeNotFound id)), monitor }
  | none =>
    let p := c.performAll options v Pass.all { monitor := monitor.expect stepCount }
    { result := p.analysis
      monitor := p.monitor
      warnings := p.warnings
      printed := p.printed }

def removalWarnings (diagnostics : List Diagnostic) : List String :=
  diagnostics.filterMap fun
    | .removalFailed node error => some s!"Could not remove dead node {node}: {error}"
    | _ => none

/-- Sweeps the scene by an analysis of it, unless the run was cancelled by now or is a dry one. -/
def conclude {σ : Type} [Host σ] (options : Options) (scene : σ) (run : Run Analysis)
    (analysis : Analysis) : Collection σ :=
  let printed := run.printed ++ if options.printBeforeSweep then [analysis.dump] else []
  if run.monitor.cancelled then
    { run with result := .error .cancelled, printed, scene }
  else if options.dryRun then
    { run with
      result := .ok { analysis, scene, mapping? := none }
      monitor := run.monitor.advance
      printed
      scene }
  else
    let s := Sweep.run scene analysis.liveness
    { result := .ok
        { analysis := { analysis with diagnostics := analysis.diagnostics ++ s.diagnostics }
          scene := s.scene
          mapping? := some s.mapping }
      monitor := (run.monitor.say "Removing dead nodes").advance
      warnings := run.warnings ++ removalWarnings s.diagnostics
      printed
      scene := s.scene }

def collect {σ : Type} [Host σ] (c : Collector) (options : Options) (scene : σ)
    (monitor : Monitor) : Collection σ :=
  let run := c.analyze options (Host.view scene) monitor
  match run.result with
  | .error e => { run with result := .error e, scene }
  | .ok analysis => conclude options scene run analysis

end Collector

end ScenePrune

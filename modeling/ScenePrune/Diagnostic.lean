import ScenePrune.Node

/-!
# Diagnostics

A diagnostic reports a problem that a run recovered from. None of them ends the run.
-/

namespace ScenePrune

inductive Diagnostic where
  /-- No plugin handles the type; the node was kept. -/
  | unregisteredType (node : NodeId) (type : TypeName)
  /-- Several plugins are equally near to the type; the node was kept. -/
  | ambiguousPluginResolution (node : NodeId) (type : TypeName) (candidates : List TypeName)
  /-- The plugin failed; the node was kept. -/
  | pluginCallbackFailure (node : NodeId) (type : TypeName) (error : String)
  /-- A plugin declared something about a node that is not in the scene. -/
  | danglingDeclaration (node target : NodeId)
  /-- The parent of a node is not in the scene. -/
  | unresolvedParent (node parent : NodeId)
  /-- The scene refused to remove a dead node. -/
  | removalFailed (node : NodeId) (error : String)
  /-- Something outside the scene refers to a node that was removed. -/
  | danglingReferenceAfterPrune (holder node : NodeId) (property? : Option String)
deriving DecidableEq, Repr

namespace Diagnostic

def describe : Diagnostic → String
  | unregisteredType node type => s!"no plugin for type {type} of node {node}"
  | ambiguousPluginResolution node type candidates =>
    s!"type {type} of node {node} resolves to " ++ ", ".intercalate candidates
  | pluginCallbackFailure node type error => s!"plugin for {type} failed on node {node}: {error}"
  | danglingDeclaration node target =>
    s!"node {node} declared a dependency on missing node {target}"
  | unresolvedParent node parent => s!"node {node} refers to missing parent {parent}"
  | removalFailed node error => s!"could not remove node {node}: {error}"
  | danglingReferenceAfterPrune holder node property? =>
    s!"{holder} refers to removed node {node}" ++
      match property? with
      | none => ""
      | some property => s!" through {property}"

end Diagnostic

end ScenePrune

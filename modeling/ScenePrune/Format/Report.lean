import ScenePrune.Json.Basic
import ScenePrune.Report

/-! # Reports as JSON -/

namespace ScenePrune

open Json

def EntrypointCause.toJson : EntrypointCause → Json
  | predicate name => .object [("predicate", .string name)]
  | cause => .string cause.describe

namespace Diagnostic

def kindName : Diagnostic → String
  | unregisteredType .. => "unregistered_type"
  | ambiguousPluginResolution .. => "ambiguous_plugin_resolution"
  | pluginCallbackFailure .. => "plugin_callback_failure"
  | danglingDeclaration .. => "dangling_declaration"
  | unresolvedParent .. => "unresolved_parent"
  | removalFailed .. => "removal_failed"
  | danglingReferenceAfterPrune .. => "dangling_reference_after_prune"

def members : Diagnostic → List (String × Json)
  | unregisteredType node type => [("node", .ofId node), ("ty", .string type)]
  | ambiguousPluginResolution node type candidates =>
    [("node", .ofId node), ("ty", .string type), ("candidates", .ofList .string candidates)]
  | pluginCallbackFailure node type error =>
    [("node", .ofId node), ("ty", .string type), ("error", .string error)]
  | danglingDeclaration node target => [("node", .ofId node), ("target", .ofId target)]
  | unresolvedParent node parent => [("node", .ofId node), ("parent", .ofId parent)]
  | removalFailed node error => [("node", .ofId node), ("error", .string error)]
  | danglingReferenceAfterPrune holder node property? =>
    [("holder", .ofId holder), ("node", .ofId node), ("property", .ofOption .string property?)]

def toJson (d : Diagnostic) : Json := .object (("kind", .string d.kindName) :: d.members)

end Diagnostic

def Neighbour.toJson (e : Neighbour) : Json :=
  .object [("node", .ofId e.node), ("kind", .string e.kind.label),
    ("flags", .ofList .string e.qualifiers.names), ("live", .bool e.live)]

def DeadNode.toJson (n : DeadNode) : Json :=
  .object [("node", .ofId n.node), ("ty", .string n.type), ("kind", .string n.kind.label),
    ("activeness", .string n.activeness.label),
    ("entrypoint", .ofOption EntrypointCause.toJson n.entrypoint?),
    ("dependencies", .ofList Neighbour.toJson n.dependencies),
    ("dependents", .ofList Neighbour.toJson n.dependents)]

def Report.toJson (r : Report) : Json :=
  .object [("kept", .ofNat r.kept), ("pruned", .ofList DeadNode.toJson r.pruned),
    ("diagnostics", .ofList Diagnostic.toJson r.diagnostics)]

end ScenePrune

import ScenePrune.Json.Record
import ScenePrune.Scene.Load

/-!
# Scenes as JSON

A scene is a record with a list of nodes. A field value is an object with one member, whose name
tells the kind of value.
-/

namespace ScenePrune

open Json

namespace NodeKind

/-- Reads a kind, given by its name or as an object that maps the name to null. -/
def ofJson? : Json → Option NodeKind
  | .string text => ofName? text
  | .object [(name, .null)] => ofName? name
  | _ => none
where
  ofName? : String → Option NodeKind
    | "transform" => some transform
    | "component" => some component
    | _ => none

end NodeKind

namespace FieldValue

def ofJson? : Json → Option FieldValue
  | .object [("bool", j)] => j.bool?.map bool
  | .object [("number", j)] => j.float?.map number
  | .object [("text", j)] => j.string?.map text
  | .object [("ref", j)] => (nullable? id? j).map ref
  | .object [("refs", j)] => (list? (nullable? id?) j).map refs
  | _ => none

def toJson : FieldValue → Json
  | bool value => .object [("bool", .bool value)]
  | number value => .object [("number", .ofFloat value)]
  | text value => .object [("text", .string value)]
  | ref target => .object [("ref", .ofOption .ofId target)]
  | refs targets => .object [("refs", .ofList (.ofOption .ofId) targets)]

/-- Reads named fields; the last value of a name stands, in the place of the first. -/
def tableOfJson? (j : Json) : Option (OrderedMap String FieldValue) := do
  let members ← j.members?
  let fields ← members.mapM fun (name, j) => (ofJson? j).map (name, ·)
  return .ofList fields

def tableToJson (fields : OrderedMap String FieldValue) : Json :=
  .object (fields.entries.map fun (name, value) => (name, value.toJson))

end FieldValue

namespace Node

def ofJson? (j : Json) : Option Node := do
  let [id, type, kind, parent, enabled, fields] ←
    j.record? ["id", "type", "kind", "parent", "enabled", "fields"] | none
  return {
    id := ← required? id? id
    type := ← required? string? type
    kind := ← required? NodeKind.ofJson? kind
    parent? := ← orDefault? (nullable? id?) none parent
    enabled := ← orDefault? bool? true enabled
    fields := ← orDefault? FieldValue.tableOfJson? ∅ fields }

def toJson (n : Node) : Json :=
  .object <|
    [("id", .ofId n.id), ("type", .string n.type), ("kind", .string n.kind.label)] ++
    n.parent?.toList.map (fun parent => ("parent", .ofId parent)) ++
    [("enabled", .bool n.enabled)] ++
    if n.fields.isEmpty then [] else [("fields", FieldValue.tableToJson n.fields)]

end Node

namespace Scene

def nodesOfJson? (j : Json) : Option (List Node) := do
  let [nodes] ← j.record? ["nodes"] | none
  orDefault? (list? Node.ofJson?) [] nodes

def toJson (s : Scene) : Json := .object [("nodes", .ofList Node.toJson s.nodes)]

end Scene

end ScenePrune

import ScenePrune.Json.Record
import ScenePrune.Writers

/-! # Animation tables as JSON -/

namespace ScenePrune

open Json

namespace AnimationRecord

def ofJson? (j : Json) : Option AnimationRecord := do
  let [node, property, writers] ← j.record? ["node", "property", "writers"] | none
  return {
    node := ← required? id? node
    property := ← required? string? property
    writers := ← required? (list? id?) writers }

def toJson (r : AnimationRecord) : Json :=
  .object [("node", .ofId r.node), ("property", .string r.property),
    ("writers", .ofList .ofId r.writers)]

end AnimationRecord

namespace AnimationTable

def ofJson? (j : Json) : Option AnimationTable :=
  (list? AnimationRecord.ofJson? j).map ofRecords

def toJson (t : AnimationTable) : Json := .ofList AnimationRecord.toJson t.records

end AnimationTable

end ScenePrune

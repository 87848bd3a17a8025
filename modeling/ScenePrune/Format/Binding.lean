import ScenePrune.Json.Record
import ScenePrune.Sweep

/-! # Bindings as JSON -/

namespace ScenePrune

open Json

namespace Binding

/-- Reads a binding. In an object a target may be absent, which is the same as null; an array has
to name it. -/
def ofJson? (j : Json) : Option Binding := do
  let [holder, target, property] ← j.record? ["holder", "target", "property"] | none
  let target :=
    match j with
    | .array _ => target
    | _ => target.or (some .null)
  return {
    holder := ← required? id? holder
    target? := ← required? (nullable? id?) target
    property? := ← orDefault? (nullable? string?) none property }

def toJson (b : Binding) : Json :=
  .object <|
    [("holder", .ofId b.holder), ("target", .ofOption .ofId b.target?)] ++
    b.property?.toList.map fun property => ("property", .string property)

end Binding

end ScenePrune

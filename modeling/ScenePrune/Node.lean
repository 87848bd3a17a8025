import ScenePrune.OrderedMap

/-!
# Scene nodes and their fields

A node has an id, the name of its runtime type, a kind, an optional parent, a flag of its own that
says whether it is enabled, and named fields. A field may refer to other nodes; a reference to an
object that was destroyed is kept as `none`.
-/

namespace ScenePrune

abbrev NodeId := UInt32

abbrev TypeName := String

inductive NodeKind where
  /-- A place in the hierarchy, whose enabled flag is the object's active flag. -/
  | transform
  /-- A behaviour attached to a transform. -/
  | component
deriving DecidableEq, Repr

namespace NodeKind

/-- The property path that an animation writes to switch a node of this kind on or off. -/
def enabledProperty : NodeKind → String
  | transform => "m_IsActive"
  | component => "m_Enabled"

def label : NodeKind → String
  | transform => "transform"
  | component => "component"

end NodeKind

inductive FieldValue where
  | bool (value : Bool)
  | number (value : Float)
  | text (value : String)
  | ref (target : Option NodeId)
  | refs (targets : List (Option NodeId))
deriving DecidableEq

namespace FieldValue

def references : FieldValue → List NodeId
  | ref target => target.toList
  | refs targets => targets.filterMap id
  | _ => []

def isReference : FieldValue → Bool
  | ref _ | refs _ => true
  | _ => false

def typeName : FieldValue → String
  | bool _ => "bool"
  | number _ => "number"
  | text _ => "text"
  | ref _ => "ref"
  | refs _ => "refs"

end FieldValue

structure Node where
  id : NodeId
  type : TypeName
  kind : NodeKind
  parent? : Option NodeId := none
  enabled : Bool := true
  fields : OrderedMap String FieldValue := ∅
deriving DecidableEq

end ScenePrune

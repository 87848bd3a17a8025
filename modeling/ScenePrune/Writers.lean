import ScenePrune.Node

/-!
# Who writes which property

A `Writers` table records, for an object and one of its property paths, the distinct nodes that may
write the property at runtime, in the order in which they were first named. Objects are node ids in
the animation table of a scene and node positions in an analysis graph.
-/

namespace ScenePrune

structure Writers (κ : Type) where
  lists : OrderedMap (κ × String) (List NodeId)
deriving DecidableEq

namespace Writers

variable {κ : Type} [DecidableEq κ]

instance : EmptyCollection (Writers κ) := ⟨⟨∅⟩⟩

def writers (t : Writers κ) (object : κ) (property : String) : List NodeId :=
  (t.lists.get? (object, property)).getD []

def isWritten (t : Writers κ) (object : κ) (property : String) : Bool :=
  !(t.writers object property).isEmpty

def add (t : Writers κ) (object : κ) (property : String) (writer : NodeId) : Writers κ :=
  if writer ∈ t.writers object property then t
  else ⟨t.lists.upsert (object, property) fun l => l.getD [] ++ [writer]⟩

def size (t : Writers κ) : Nat := t.lists.size

def isEmpty (t : Writers κ) : Bool := t.lists.isEmpty

end Writers

structure AnimationRecord where
  node : NodeId
  property : String
  writers : List NodeId
deriving DecidableEq

abbrev AnimationTable := Writers NodeId

namespace AnimationTable

/-- Merges records of the same property and drops records without writers. -/
def ofRecords (records : List AnimationRecord) : AnimationTable :=
  records.foldl (fun t r => r.writers.foldl (fun t w => t.add r.node r.property w) t) ∅

/-- One record per animated property, nodes ascending; the properties of a node stay in the order
in which they were first named. -/
def records (t : AnimationTable) : List AnimationRecord :=
  (t.lists.entries.map fun ((node, property), writers) => { node, property, writers }).mergeSort
    (·.node ≤ ·.node)

end AnimationTable

end ScenePrune

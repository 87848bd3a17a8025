import ScenePrune.Diagnostic
import ScenePrune.Liveness
import ScenePrune.Scene.View

/-!
# Removing what is dead

A sweep removes the dead nodes of a scene, deeper ones first, so that children go before their
parents. A node that the scene refuses to remove is kept and reported. The `RemovalMap` of a
sweep tells what became of every node, so that bindings held outside the scene can follow.
-/

namespace ScenePrune

inductive Fate where
  | kept (id : NodeId)
  | removed
deriving DecidableEq, Repr

structure RemovalMap where
  entries : OrderedMap NodeId Fate
deriving DecidableEq

structure Binding where
  holder : NodeId
  target? : Option NodeId
  property? : Option String
deriving DecidableEq, Repr

namespace RemovalMap

instance : EmptyCollection RemovalMap := ⟨⟨∅⟩⟩

def get? (m : RemovalMap) (id : NodeId) : Option Fate := m.entries.get? id

/-- The new id of a node, or nothing if it was removed. An unknown id stands for itself. -/
def resolve (m : RemovalMap) (id : NodeId) : Option NodeId :=
  match m.get? id with
  | some (.kept new) => some new
  | some .removed => none
  | none => some id

def resolveProperty (m : RemovalMap) (id : NodeId) (property : String) : Option (NodeId × String) :=
  (m.resolve id).map (·, property)

def removed (m : RemovalMap) : List NodeId :=
  (m.entries.entries.filter (·.2 = .removed)).map Prod.fst

def size (m : RemovalMap) : Nat := m.entries.size

def isEmpty (m : RemovalMap) : Bool := m.entries.isEmpty

def lostTarget? (m : RemovalMap) (b : Binding) : Option NodeId :=
  b.target?.filter fun target => (m.resolve target).isNone

def update (m : RemovalMap) (b : Binding) : Binding :=
  { b with target? := b.target?.bind m.resolve }

def updateAll (m : RemovalMap) (bindings : List Binding) : List Binding × List Diagnostic :=
  (bindings.map m.update,
   bindings.filterMap fun b => (m.lostTarget? b).map fun target =>
     .danglingReferenceAfterPrune b.holder target b.property?)

end RemovalMap

structure Sweep (σ : Type) where
  scene : σ
  mapping : RemovalMap
  diagnostics : List Diagnostic := []

namespace Sweep

variable {σ : Type} [Host σ]

/-- Deeper nodes come first, and of equally deep ones the one with the lesser id. -/
def order (v : SceneView) (a b : NodeId) : Bool :=
  v.depth b < v.depth a || v.depth a = v.depth b && a ≤ b

def agenda (v : SceneView) (mapping : RemovalMap) (liveness : Liveness) : List NodeId :=
  (mapping.entries.keys.filter liveness.isDead).mergeSort (order v)

def removeOne (s : Sweep σ) (id : NodeId) : Sweep σ :=
  match Host.remove s.scene id with
  | .ok scene => { s with scene, mapping := ⟨s.mapping.entries.insert id .removed⟩ }
  | .error e => { s with diagnostics := s.diagnostics ++ [.removalFailed id e.message] }

/-- Removes the dead nodes of a scene. A node without a verdict is kept. -/
def run (scene : σ) (liveness : Liveness) : Sweep σ :=
  let v := Host.view scene
  let mapping : RemovalMap := ⟨.ofList (v.ids.map fun id => (id, .kept id))⟩
  (agenda v mapping liveness).foldl removeOne { scene, mapping }

end Sweep

end ScenePrune

import ScenePrune.Plugin.Basic

/-!
# Entrypoints

An entrypoint is kept whatever depends on it. Plugins mark nodes as entrypoints; an
`EntrypointRules` value adds the structural ones: nodes without a parent, an allow-list of types,
and named predicates, of which the first that matches is the cause.
-/

namespace ScenePrune

inductive EntrypointCause where
  /-- Its plugin says so. -/
  | declared
  | fixedType
  | predicate (name : String)
  | root
  | unregistered
  | ambiguous
  | callbackFailure
deriving DecidableEq, Repr

def EntrypointCause.describe : EntrypointCause → String
  | declared => "declared"
  | fixedType => "fixed_type"
  | predicate name => s!"predicate({name})"
  | root => "root"
  | unregistered => "unregistered"
  | ambiguous => "ambiguous"
  | callbackFailure => "callback_failure"

structure Opinion where
  holds : Bool
  /-- The predicate asks for the run to be cancelled. -/
  cancels : Bool := false
deriving DecidableEq

structure Predicate where
  name : String
  judge : Subject → Opinion

structure EntrypointRules where
  types : List TypeName := []
  predicates : List Predicate := []
  /-- Nodes without a parent are entrypoints. -/
  roots : Bool := true

namespace EntrypointRules

def addType (r : EntrypointRules) (type : TypeName) : EntrypointRules :=
  { r with types := r.types ++ [type] }

def addPredicate (r : EntrypointRules) (name : String) (judge : Subject → Opinion) :
    EntrypointRules :=
  { r with predicates := r.predicates ++ [{ name, judge }] }

/-- The predicates that get to see the node: all up to the first that matches. -/
def consulted (n : Subject) : List Predicate → List Predicate
  | [] => []
  | p :: rest => if (p.judge n).holds then [p] else p :: consulted n rest

def fixesType (r : EntrypointRules) (n : Subject) : Bool := n.type?.any (· ∈ r.types)

theorem fixesType_iff {r : EntrypointRules} {n : Subject} :
    r.fixesType n = true ↔ ∃ type, n.type? = some type ∧ type ∈ r.types := by
  cases h : n.type? <;> simp [fixesType, h]

def classify (r : EntrypointRules) (n : Subject) : Option EntrypointCause :=
  if r.roots && n.parent?.isNone then some .root
  else if r.fixesType n then some .fixedType
  else (r.predicates.find? fun p => (p.judge n).holds).map fun p => .predicate p.name

def cancels (r : EntrypointRules) (n : Subject) : Bool :=
  !(r.roots && n.parent?.isNone) && !r.fixesType n &&
    (consulted n r.predicates).any fun p => (p.judge n).cancels

end EntrypointRules

end ScenePrune

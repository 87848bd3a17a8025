import ScenePrune.Activeness

/-!
# Liveness

A node is live when it can be reached from an entrypoint through edges that can count.
`Graph.reach` spreads level by level, reading the edges of a node from the newest to the oldest,
and remembers through which edge each node was reached first. A `Liveness` value holds one verdict
per id, ids ascending.
-/

namespace ScenePrune

inductive Reason where
  | entrypoint (cause : EntrypointCause)
  /-- An edge of this kind leads to it from a live node. -/
  | edge (source : NodeId) (kind : EdgeKind)
deriving DecidableEq, Repr

inductive Verdict where
  | live (reason : Reason)
  | dead
deriving DecidableEq, Repr

def Verdict.isLive : Verdict → Bool
  | live _ => true
  | dead => false

structure Liveness where
  verdicts : OrderedMap NodeId Verdict
deriving DecidableEq

namespace Liveness

instance : EmptyCollection Liveness := ⟨⟨∅⟩⟩

def verdict? (l : Liveness) (id : NodeId) : Option Verdict := l.verdicts.get? id

def contains (l : Liveness) (id : NodeId) : Bool := l.verdicts.contains id

def isLive (l : Liveness) (id : NodeId) : Bool := (l.verdict? id).any (·.isLive)

/-- Only a node that was analysed can be dead. -/
def isDead (l : Liveness) (id : NodeId) : Bool := l.verdict? id = some .dead

def reason? (l : Liveness) (id : NodeId) : Option Reason :=
  match l.verdict? id with
  | some (.live reason) => some reason
  | _ => none

def size (l : Liveness) : Nat := l.verdicts.size

def isEmpty (l : Liveness) : Bool := l.verdicts.isEmpty

def liveNodes (l : Liveness) : List NodeId :=
  (l.verdicts.entries.filter (·.2.isLive)).map Prod.fst

def deadNodes (l : Liveness) : List NodeId :=
  (l.verdicts.entries.filter (·.2 = .dead)).map Prod.fst

end Liveness

/-- An edge counts if its source can be active, or it holds for inactive sources too; and one that
asks for a target that can be enabled needs such a target. -/
def Edge.isTraversable (activeness : ActivenessTable) (e : Edge) : Bool :=
  (e.qualifiers.evenIfSourceDisabled || (activeness.get e.source).canBeActive) &&
    (!e.qualifiers.onlyIfTargetCanBeEnabled || (activeness.get e.target).canBeActive)

abbrev Reached := Nat × Reason

namespace Graph

def entrypoints (g : Graph) : List Reached :=
  g.nodesWithIndex.filterMap fun (i, n) => n.entrypoint?.map fun cause => (i, .entrypoint cause)

/-- The neighbours of the node at `i` through edges that count, newest edge first. -/
def successors (g : Graph) (activeness : ActivenessTable) (i : Nat) : List Reached :=
  match g.node? i with
  | none => []
  | some n =>
    ((g.outgoing i).filter (·.isTraversable activeness)).map fun e => (e.target, .edge n.id e.kind)

def firstMentions (fresh : List Nat) : List Reached → List Reached
  | [] => []
  | (i, reason) :: rest =>
    if i ∈ fresh then (i, reason) :: firstMentions (fresh.erase i) rest
    else firstMentions fresh rest

def nextLevel (g : Graph) (activeness : ActivenessTable) (fresh : List Nat) (level : List Reached) :
    List Reached :=
  firstMentions fresh (level.flatMap fun (i, _) => g.successors activeness i)

def remaining (fresh : List Nat) (level : List Reached) : List Nat :=
  fresh.filter fun i => i ∉ level.map Prod.fst

theorem firstMentions_subset (fresh : List Nat) (l : List Reached) :
    ∀ r ∈ firstMentions fresh l, r.1 ∈ fresh := by
  induction l generalizing fresh with
  | nil => simp [firstMentions]
  | cons e l ih =>
    obtain ⟨i, reason⟩ := e
    intro r hr
    by_cases hi : i ∈ fresh
    · simp only [firstMentions, hi, if_true, List.mem_cons] at hr
      rcases hr with rfl | hr
      · exact hi
      · exact List.mem_of_mem_erase (ih _ r hr)
    · simp only [firstMentions, hi, if_false] at hr
      exact ih _ r hr

theorem length_remaining_lt {g : Graph} {activeness : ActivenessTable} {fresh : List Nat}
    {level : List Reached} (h : g.nextLevel activeness fresh level ≠ []) :
    (remaining fresh (g.nextLevel activeness fresh level)).length < fresh.length := by
  obtain ⟨r, hr⟩ := List.exists_mem_of_ne_nil _ h
  refine List.length_filter_lt_length_iff_exists.2 ⟨r.1, firstMentions_subset _ _ r hr, ?_⟩
  simpa using ⟨r.2, hr⟩

def spread (g : Graph) (activeness : ActivenessTable) (fresh : List Nat) (level : List Reached) :
    List Reached :=
  if g.nextLevel activeness fresh level = [] then level
  else
    level ++ g.spread activeness (remaining fresh (g.nextLevel activeness fresh level))
      (g.nextLevel activeness fresh level)
termination_by fresh.length
decreasing_by exact length_remaining_lt ‹_›

def reach (g : Graph) (activeness : ActivenessTable) : List Reached :=
  g.spread activeness (remaining g.indices g.entrypoints) g.entrypoints

/-- The reasons by id; the latest of an id stands. -/
def reasons (g : Graph) (activeness : ActivenessTable) : OrderedMap NodeId Reason :=
  .ofList ((g.reach activeness).filterMap fun (i, reason) => (g.node? i).map fun n => (n.id, reason))

/-- Gives each node the reason of its id. The first node of an id takes the reason, so that another
node of the same id finds none. -/
def judge (reasons : OrderedMap NodeId Reason) : List GraphNode → List (NodeId × Verdict)
  | [] => []
  | n :: rest =>
    match reasons.get? n.id with
    | some reason => (n.id, .live reason) :: judge (reasons.erase n.id) rest
    | none => (n.id, .dead) :: judge reasons rest

/-- One verdict per id of the graph; the verdict of the last node of an id stands. -/
def liveness (g : Graph) (activeness : ActivenessTable) : Liveness :=
  let verdicts := OrderedMap.ofList (judge (g.reasons activeness) g.nodes)
  ⟨⟨verdicts.entries.mergeSort (·.1 ≤ ·.1)⟩⟩

end Graph

end ScenePrune

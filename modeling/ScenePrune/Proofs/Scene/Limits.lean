import Mathlib.Data.Set.Card
import ScenePrune.Proofs.Scene.Walks
import ScenePrune.Scene.Listing

/-! # The walks stop where the hierarchy does

Both walks up the parents give up after as many steps as nodes are listed. On a host that lists whatever it
contains, and knows no parent of what it does not contain, this never cuts a way short that comes to an end: such
a way passes only listed nodes, each of them once, and a parent that is missing can only be the last. So the depth
counts all the nodes above, and a node is active just if every node on its way up is there and enabled.
-/
namespace ScenePrune

namespace SceneView
open Relation

/-- Whatever is contained is listed, and what is not contained has no parent. The listing may name nodes twice,
or nodes that are not contained. -/
structure ListsContained (v : SceneView) : Prop where
  listed : ∀ id, v.contains id = true → id ∈ v.ids
  orphaned : ∀ id, v.contains id = false → v.parent? id = none

/-- The way up ends at a node without a parent, be it in the scene or missing. -/
def ComesToTop (v : SceneView) (id : NodeId) : Prop :=
  ∃ top, ReflTransGen v.HangsBelow id top ∧ v.parent? top = none

def above (v : SceneView) (id : NodeId) : Set NodeId := {other | TransGen v.HangsBelow id other}

def OnAllTheWay (v : SceneView) (id : NodeId) : Prop :=
  ∀ x, ReflTransGen v.HangsBelow id x → v.contains x = true ∧ v.enabled x = true

variable {v : SceneView} {id parent other : NodeId} {k steps : Nat}

theorem comesToTop_iff : v.ComesToTop id ↔ ∃ k, v.HasDepth id k := by
  constructor
  · rintro ⟨top, hway, htop⟩
    induction hway using ReflTransGen.head_induction_on with
    | refl => exact ⟨0, .top htop⟩
    | head hp _ ih =>
      obtain ⟨k, hdepth⟩ := ih
      exact ⟨k + 1, .child hp hdepth⟩
  · rintro ⟨k, hdepth⟩
    exact hdepth.exists_top

theorem not_comesToTop_of_cycle (hway : ReflTransGen v.HangsBelow id other) (hback : TransGen v.HangsBelow other other) :
    ¬ v.ComesToTop id := by
  rw [comesToTop_iff]
  rintro ⟨k, hdepth⟩
  obtain ⟨j, -, hother⟩ := hdepth.above (.trans_right hway hback)
  exact hother.not_above_self hback

section Above

theorem mem_above : other ∈ v.above id ↔ TransGen v.HangsBelow id other := Iff.rfl

theorem above_of_top (hp : v.parent? id = none) : v.above id = ∅ := by
  apply Set.eq_empty_of_forall_notMem
  intro other hup
  obtain ⟨parent, hparent, -⟩ := TransGen.head'_iff.mp hup
  cases hp.symm.trans hparent

theorem above_of_child (hp : v.parent? id = some parent) : v.above id = insert parent (v.above parent) := by
  ext other
  rw [Set.mem_insert_iff, mem_above, TransGen.head'_iff, mem_above]
  constructor
  · rintro ⟨parent', hparent, hway⟩
    obtain rfl := Option.some.inj (hp.symm.trans hparent)
    exact reflTransGen_iff_eq_or_transGen.mp hway
  · exact fun h => ⟨parent, hp, reflTransGen_iff_eq_or_transGen.mpr h⟩

/-- The steps of a way that comes to an end count the nodes above, as it passes none of them twice. -/
theorem HasDepth.encard_above (h : v.HasDepth id k) : (v.above id).encard = k := by
  induction h with
  | top hp => rw [above_of_top hp, Set.encard_empty, Nat.cast_zero]
  | child hp hdepth ih =>
    have hnew := mt mem_above.mp hdepth.not_above_self
    rw [above_of_child hp, Set.encard_insert_of_notMem hnew, ih, Nat.cast_succ]

end Above

section Steps

/-- More steps than there are nodes above make no difference. -/
theorem HasDepth.ancestorsWithin_eq (h : v.HasDepth id k) (hk : k ≤ steps) :
    v.ancestorsWithin steps id = v.ancestorsWithin k id := by
  induction h generalizing steps with
  | top hp => cases steps <;> simp [ancestorsWithin, hp]
  | child hp _ ih =>
    obtain ⟨steps, rfl⟩ := Nat.exists_eq_succ_of_ne_zero (Nat.ne_zero_of_lt hk)
    simp only [ancestorsWithin, hp, ih (Nat.le_of_succ_le_succ hk)]

/-- A way without an end takes all the steps that are allowed. -/
theorem length_ancestorsWithin_of_endless (h : ¬ v.ComesToTop id) : (v.ancestorsWithin steps id).length = steps := by
  induction steps generalizing id with
  | zero => rfl
  | succ steps ih =>
    cases hp : v.parent? id with
    | none => exact absurd ⟨id, .refl, hp⟩ h
    | some parent =>
      have habove : ¬ v.ComesToTop parent := fun ⟨top, hway, htop⟩ => h ⟨top, .head hp hway, htop⟩
      rw [ancestorsWithin, hp, List.length_cons, ih habove]

theorem onAllTheWay_of_top (hp : v.parent? id = none) :
    v.OnAllTheWay id ↔ v.contains id = true ∧ v.enabled id = true := by
  constructor
  · exact fun h => h id .refl
  · intro hon x hway
    rcases hway.cases_head with rfl | ⟨parent, hparent, -⟩
    · exact hon
    · cases hp.symm.trans hparent

theorem onAllTheWay_of_child (hp : v.parent? id = some parent) :
    v.OnAllTheWay id ↔ (v.contains id = true ∧ v.enabled id = true) ∧ v.OnAllTheWay parent := by
  constructor
  · exact fun h => ⟨h id .refl, fun x hway => h x (.head hp hway)⟩
  · rintro ⟨hon, habove⟩ x hway
    rcases hway.cases_head with rfl | ⟨parent', hparent, hway⟩
    · exact hon
    · obtain rfl := Option.some.inj (hp.symm.trans hparent)
      exact habove x hway

/-- The walk wants a step for the node that it begins at, so it has to have more steps than there are nodes above. -/
theorem activeWithin_iff : v.activeWithin steps id = true ↔ (∃ k < steps, v.HasDepth id k) ∧ v.OnAllTheWay id := by
  induction steps generalizing id with
  | zero => simp [activeWithin]
  | succ steps ih =>
    rw [activeWithin, Bool.and_eq_true, Bool.and_eq_true]
    cases hp : v.parent? id with
    | none =>
      rw [onAllTheWay_of_top hp]
      exact ⟨fun h => ⟨⟨0, Nat.succ_pos steps, .top hp⟩, h.1⟩, fun h => ⟨h.2, rfl⟩⟩
    | some parent =>
      rw [onAllTheWay_of_child hp, ih]
      constructor
      · rintro ⟨hon, ⟨k, hk, hdepth⟩, habove⟩
        exact ⟨⟨k + 1, Nat.succ_lt_succ hk, .child hp hdepth⟩, hon, habove⟩
      · rintro ⟨⟨k, hk, hdepth⟩, hon, habove⟩
        cases hdepth with
        | top hnone => cases hp.symm.trans hnone
        | @child _ _ k hparent hdepth =>
          obtain rfl := Option.some.inj (hp.symm.trans hparent)
          exact ⟨hon, ⟨k, Nat.lt_of_succ_lt_succ hk, hdepth⟩, habove⟩

/-- Where whatever is contained is listed, no node that is active needs more steps than the walk has. -/
theorem activeWithin_iff_of_le (hlisted : ∀ id, v.contains id = true → id ∈ v.ids) (hsteps : v.ids.length ≤ steps) :
    v.activeWithin steps id = true ↔ v.ComesToTop id ∧ v.OnAllTheWay id := by
  rw [activeWithin_iff, comesToTop_iff]
  refine and_congr_left fun hall => ⟨fun ⟨k, _, hdepth⟩ => ⟨k, hdepth⟩, fun ⟨k, hdepth⟩ => ⟨k, ?_, hdepth⟩⟩
  exact (hdepth.lt_length fun x hway => hlisted x (hall x hway).1).trans_le hsteps

end Steps

/-- A node that has a parent is contained, so only the last node of a way can be missing. -/
theorem ListsContained.listedBelowTop (hv : v.ListsContained) (id : NodeId) : v.ListedBelowTop id := by
  intro x _ hparent
  apply hv.listed
  cases hx : v.contains x with
  | true => rfl
  | false =>
    rw [hv.orphaned x hx] at hparent
    cases hparent

section Cycles

/-- On its walk one goes from each node to its parent. -/
theorem pairwise_ancestorsWithin (v : SceneView) (steps : Nat) (id : NodeId) :
    (id :: v.ancestorsWithin steps id).Pairwise (TransGen v.HangsBelow) := by
  have hchain : (id :: v.ancestorsWithin steps id).IsChain v.HangsBelow := by
    induction steps generalizing id with
    | zero => exact .singleton id
    | succ steps ih =>
      cases hp : v.parent? id with
      | none =>
        rw [ancestorsWithin, hp]
        exact .singleton id
      | some parent =>
        rw [ancestorsWithin, hp]
        exact .cons_cons hp (ih parent)
  exact (hchain.imp fun _ _ => TransGen.single).pairwise

/-- A way without an end goes round in circles: otherwise a walk with all its steps would meet one node more than
are listed. -/
theorem ListsContained.exists_cycle (hv : v.ListsContained) (h : ¬ v.ComesToTop id) :
    ∃ other, ReflTransGen v.HangsBelow id other ∧ TransGen v.HangsBelow other other := by
  by_contra hnone
  have hpairwise := v.pairwise_ancestorsWithin v.ids.length id
  have hway : ∀ x ∈ id :: v.ancestorsWithin v.ids.length id, ReflTransGen v.HangsBelow id x := by
    intro x hx
    rcases List.mem_cons.mp hx with rfl | hx
    · exact .refl
    · exact (List.rel_of_pairwise_cons hpairwise hx).to_reflTransGen
  have hnodup : (id :: v.ancestorsWithin v.ids.length id).Nodup := by
    apply hpairwise.imp_of_mem
    rintro x _ hx - hup rfl
    exact hnone ⟨x, hway x hx, hup⟩
  have hlisted : id :: v.ancestorsWithin v.ids.length id ⊆ v.ids := by
    intro x hx
    apply hv.listedBelowTop id x (hway x hx)
    rw [Option.isSome_iff_ne_none]
    exact fun hp => h ⟨x, hway x hx, hp⟩
  have hle := hnodup.length_le_of_subset hlisted
  rw [List.length_cons, length_ancestorsWithin_of_endless h] at hle
  exact Nat.not_succ_le_self _ hle

end Cycles

end SceneView

theorem Listing.listsContained_view (s : Listing) : (Host.view s).ListsContained where
  listed _ hcontained := OrderedMap.contains_iff.mp hcontained
  orphaned id hmissing := by
    have hnone : s.nodes.get? id = none := Option.isNone_iff_eq_none.mp (Option.isSome_eq_false_iff.mp hmissing)
    exact congrArg (Option.bind · (·.parent?)) hnone

namespace SceneView
open Relation
variable {v : SceneView}

/-- The limits of the walks are exact. A node is active just if its way up comes to an end and all the nodes on it are
in the scene and enabled. The depth of a node whose way up comes to an end is the number of nodes above it, a last
one that is missing included; what is above it is less deep, and a greater limit would change nothing. Where the way
up has no end, the depth is the number of listed nodes. The ways without an end are those that run into a cycle. -/
theorem walks_exact (hv : v.ListsContained) (id : NodeId) :
    (v.isActive id = true ↔ v.ComesToTop id ∧ v.OnAllTheWay id) ∧
    (v.ComesToTop id →
      v.depth id = (v.above id).encard ∧
      (∀ other ∈ v.above id, v.depth other < v.depth id) ∧
      ∀ steps, v.ids.length ≤ steps →
        (v.ancestorsWithin steps id).length = v.depth id ∧ v.activeWithin steps id = v.isActive id) ∧
    (¬ v.ComesToTop id → v.depth id = v.ids.length) ∧
    (¬ v.ComesToTop id ↔ ∃ other, ReflTransGen v.HangsBelow id other ∧ TransGen v.HangsBelow other other) := by
  refine ⟨activeWithin_iff_of_le hv.listed (Nat.le_refl _), fun htop => ?_, length_ancestorsWithin_of_endless,
    hv.exists_cycle, fun ⟨other, hway, hback⟩ => not_comesToTop_of_cycle hway hback⟩
  obtain ⟨k, hdepth⟩ := comesToTop_iff.mp htop
  have hk : k ≤ v.ids.length := hdepth.le_length (hv.listedBelowTop id)
  refine ⟨?_, fun other hup => hdepth.depth_lt (hv.listedBelowTop id) hup, fun steps hsteps => ⟨?_, ?_⟩⟩
  · rw [hdepth.depth_eq hk, hdepth.encard_above]
  · rw [depth, hdepth.ancestorsWithin_eq hk, hdepth.ancestorsWithin_eq (hk.trans hsteps)]
  · rw [Bool.eq_iff_iff, isActive, activeWithin_iff_of_le hv.listed hsteps,
      activeWithin_iff_of_le hv.listed (Nat.le_refl _)]

/-- Below a node whose parent is missing, a cycle, and a node at the top with one below it. -/
def shaft : Listing := .ofList
    [(1, { type? := none, kind? := none, parent? := some 2 }),
     (2, { type? := none, kind? := none, parent? := some 9 }),
     (3, { type? := none, kind? := none, parent? := some 4 }),
     (4, { type? := none, kind? := none, parent? := some 3 }),
     (5, { type? := none, kind? := none }),
     (6, { type? := none, kind? := none, parent? := some 5 })] []

/-- The missing node 9 counts as one of the two above the node 1. On the cycle the walk goes on to its limit. -/
theorem walks_exact_shaft :
    ((Host.view shaft).above 1).encard = 2 ∧ (Host.view shaft).depth 9 < (Host.view shaft).depth 1 ∧
    (Host.view shaft).depth 3 = 6 ∧ (Host.view shaft).OnAllTheWay 6 := by
  have hv := shaft.listsContained_view
  have htop : (Host.view shaft).ComesToTop 1 := ⟨9, .head (b := 2) rfl (.single rfl), rfl⟩
  obtain ⟨-, hends, -, -⟩ := walks_exact hv 1
  obtain ⟨hcount, habove, -⟩ := hends htop
  obtain ⟨-, -, hendless, hcycle⟩ := walks_exact hv 3
  have hback : ¬ (Host.view shaft).ComesToTop 3 := hcycle.mpr ⟨3, .refl, .head (b := 4) rfl (.single rfl)⟩
  obtain ⟨hactive, -, -, -⟩ := walks_exact hv 6
  have htwo : (Host.view shaft).depth 1 = 2 := by decide
  refine ⟨?_, habove 9 (.head (b := 2) rfl (.single rfl)), hendless hback, (hactive.mp (by decide)).2⟩
  rw [← hcount, htwo, Nat.cast_ofNat]

end SceneView

end ScenePrune

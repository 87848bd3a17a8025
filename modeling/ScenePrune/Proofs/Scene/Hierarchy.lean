import Mathlib.Data.List.Chain
import Mathlib.Data.List.Nodup
import Mathlib.Logic.Relation
import ScenePrune.Scene.Load

/-! # Hierarchies in a list of nodes

Nodes name their parents, so a list of nodes with distinct ids is a hierarchy of a kind. The way up
from a node is unique. It ends at a node without a parent, or it meets a fault: a parent that is not
listed, or a cycle.
-/
namespace ScenePrune.Scene
open Relation

def ParentIn (nodes : List Node) (n p : Node) : Prop := p ∈ nodes ∧ n.parent? = some p.id

def OnCycle (nodes : List Node) (n : Node) : Prop := TransGen (ParentIn nodes) n n

structure ValidHierarchy (nodes : List Node) : Prop where
  nodup : (nodes.map (·.id)).Nodup
  parents : ∀ n ∈ nodes, ∀ p, n.parent? = some p → p ∈ nodes.map (·.id)
  acyclic : ∀ n ∈ nodes, ¬ OnCycle nodes n

inductive Rooted (nodes : List Node) : Node → Prop where
  | top {n : Node} : n.parent? = none → Rooted nodes n
  | child {n p : Node} : ParentIn nodes n p → Rooted nodes p → Rooted nodes n

/-- What is wrong with the first node on the way up from a node with which anything is wrong: it lies
on a cycle, or its parent is not listed. -/
inductive Fault (nodes : List Node) : Node → SceneError → Prop where
  | missing {n : Node} {p : NodeId} : n.parent? = some p → p ∉ nodes.map (·.id) →
      Fault nodes n (.missingParent n.id p)
  | cycle {n : Node} : OnCycle nodes n → Fault nodes n (.hierarchyCycle n.id)
  | above {n p : Node} {e : SceneError} : ¬ OnCycle nodes n → ParentIn nodes n p → Fault nodes p e →
      Fault nodes n e

variable {nodes : List Node} {n m p a b : Node} {e e' : SceneError}

theorem ParentIn.unique (hids : (nodes.map (·.id)).Nodup) (hp : ParentIn nodes n p) (hm : ParentIn nodes n m) :
    p = m :=
  List.inj_on_of_nodup_map hids hp.1 hm.1 (Option.some.inj (hp.2.symm.trans hm.2))

/-- Only what is listed matters for a hierarchy, not in which order. -/
theorem ValidHierarchy.perm (h : ValidHierarchy nodes) {nodes' : List Node} (hperm : nodes.Perm nodes') :
    ValidHierarchy nodes' where
  nodup := (hperm.map (·.id)).nodup_iff.mp h.nodup
  parents := fun n hn p hp => (hperm.map (·.id)).mem_iff.mp (h.parents n (hperm.mem_iff.mpr hn) p hp)
  acyclic := by
    intro n hn hcycle
    have hback : ∀ n p, ParentIn nodes' n p → ParentIn nodes n p :=
      fun _ _ hp => ⟨hperm.mem_iff.mpr hp.1, hp.2⟩
    exact h.acyclic n (hperm.mem_iff.mpr hn) (TransGen.mono hback _ _ hcycle)

section Cycles

theorem OnCycle.exists_parent (h : OnCycle nodes n) : ∃ p, ParentIn nodes n p := by
  obtain ⟨p, hp, -⟩ := TransGen.head'_iff.mp h
  exact ⟨p, hp⟩

/-- From a cycle one only comes to nodes from which one comes back. -/
theorem OnCycle.back (hids : (nodes.map (·.id)).Nodup) (h : OnCycle nodes a)
    (hab : ReflTransGen (ParentIn nodes) a b) : ReflTransGen (ParentIn nodes) b a := by
  induction hab with
  | refl => exact .refl
  | tail _ hp ih =>
    obtain ⟨q, hq, hback⟩ := TransGen.head'_iff.mp (TransGen.trans_right ih h)
    exact hp.unique hids hq ▸ hback

theorem OnCycle.of_reaches (hids : (nodes.map (·.id)).Nodup) (h : OnCycle nodes a)
    (hab : ReflTransGen (ParentIn nodes) a b) : OnCycle nodes b :=
  (TransGen.trans_right (h.back hids hab) h).trans_left hab

theorem Rooted.not_onCycle (hids : (nodes.map (·.id)).Nodup) (h : Rooted nodes n) : ¬ OnCycle nodes n := by
  induction h with
  | top hnone =>
    intro hcycle
    obtain ⟨p, hp⟩ := hcycle.exists_parent
    cases hnone.symm.trans hp.2
  | child hp _ ih => exact fun hcycle => ih (hcycle.of_reaches hids (.single hp))

end Cycles

section Faults

/-- No fault is met on a way up that ends. -/
theorem Rooted.not_fault (hids : (nodes.map (·.id)).Nodup) (h : Rooted nodes n) : ¬ Fault nodes n e := by
  induction h with
  | top hnone =>
    intro hfault
    cases hfault with
    | missing hp _ => cases hnone.symm.trans hp
    | cycle hcycle => exact (Rooted.top hnone).not_onCycle hids hcycle
    | above _ hp _ => cases hnone.symm.trans hp.2
  | child hp hroot ih =>
    intro hfault
    cases hfault with
    | missing hq hmissing =>
      obtain rfl := Option.some.inj (hp.2.symm.trans hq)
      exact hmissing (List.mem_map_of_mem hp.1)
    | cycle hcycle => exact (Rooted.child hp hroot).not_onCycle hids hcycle
    | above _ hq hfault => exact ih (hp.unique hids hq ▸ hfault)

theorem Fault.unique (hids : (nodes.map (·.id)).Nodup) (h : Fault nodes n e) (h' : Fault nodes n e') : e = e' := by
  have hlisted : ∀ {n p : Node} {q : NodeId}, ParentIn nodes n p → n.parent? = some q → q ∈ nodes.map (·.id) := by
    intro n p q hp hq
    obtain rfl := Option.some.inj (hp.2.symm.trans hq)
    exact List.mem_map_of_mem hp.1
  have hcyclic : ∀ {n : Node} {q : NodeId}, OnCycle nodes n → n.parent? = some q → q ∈ nodes.map (·.id) := by
    intro n q hcycle hq
    obtain ⟨p, hp⟩ := hcycle.exists_parent
    exact hlisted hp hq
  induction h with
  | missing hp hmissing =>
    cases h' with
    | missing hq _ => rw [Option.some.inj (hp.symm.trans hq)]
    | cycle hcycle => exact absurd (hcyclic hcycle hp) hmissing
    | above _ hq _ => exact absurd (hlisted hq hp) hmissing
  | cycle hcycle =>
    cases h' with
    | missing hq hmissing => exact absurd (hcyclic hcycle hq) hmissing
    | cycle _ => rfl
    | above hnot _ _ => exact absurd hcycle hnot
  | above hnot hp _ ih =>
    cases h' with
    | missing hq hmissing => exact absurd (hlisted hp hq) hmissing
    | cycle hcycle => exact absurd hcycle hnot
    | above _ hq hfault => exact ih (hp.unique hids hq ▸ hfault)

theorem ValidHierarchy.not_fault (h : ValidHierarchy nodes) (hn : n ∈ nodes) : ¬ Fault nodes n e := by
  intro hfault
  induction hfault with
  | missing hp hmissing => exact hmissing (h.parents _ hn _ hp)
  | cycle hcycle => exact h.acyclic _ hn hcycle
  | above _ hp _ ih => exact ih hp.1

end Faults

section Trails

/-- The way up from `n` as far as the first node of the list, topmost first, no node twice. -/
inductive Trail (nodes : List Node) (n : Node) : List Node → Prop where
  | start : n ∈ nodes → Trail nodes n [n]
  | up {m p : Node} {below : List Node} : Trail nodes n (m :: below) → ParentIn nodes m p →
      p.id ∉ (m :: below).map (·.id) → Trail nodes n (p :: m :: below)

variable {path above below : List Node} {top c : Node} {id : NodeId}

theorem Trail.nodup (h : Trail nodes n path) : (path.map (·.id)).Nodup := by
  induction h with
  | start => simp
  | up _ _ hnew ih => exact List.nodup_cons.mpr ⟨hnew, ih⟩

theorem Trail.subset (h : Trail nodes n path) : ∀ x ∈ path, x ∈ nodes := by
  induction h with
  | start hn => simpa using hn
  | up _ hp _ ih => exact List.forall_mem_cons.mpr ⟨hp.1, ih⟩

theorem Trail.isChain (h : Trail nodes n path) : path.IsChain fun p x => ParentIn nodes x p := by
  induction h with
  | start => simp
  | up _ hp _ ih => exact List.isChain_cons_cons.mpr ⟨hp, ih⟩

theorem Trail.of_append (h : Trail nodes n (above ++ m :: below)) : Trail nodes n (m :: below) := by
  induction above with
  | nil => exact h
  | cons x above ih =>
    cases above with
    | nil =>
      cases h with
      | up htrail _ _ => exact htrail
    | cons y above =>
      cases h with
      | up htrail _ _ => exact ih htrail

theorem Trail.reaches (h : Trail nodes n (m :: below)) :
    ∀ x ∈ m :: below, ReflTransGen (ParentIn nodes) x m := by
  generalize hpath : m :: below = path at h
  induction h generalizing m below with
  | start =>
    cases hpath
    simpa using ReflTransGen.refl
  | up _ hp _ ih =>
    cases hpath
    intro x hx
    rcases List.mem_cons.mp hx with rfl | hx
    · exact .refl
    · exact (ih rfl x hx).tail hp

/-- A fault at the top of a trail is the fault at its start if nothing below lies on a cycle. -/
theorem Trail.fault (h : Trail nodes n (m :: below)) (hbelow : ∀ x ∈ below, ¬ OnCycle nodes x)
    (hfault : Fault nodes m e) : Fault nodes n e := by
  generalize hpath : m :: below = path at h
  induction h generalizing m below with
  | start =>
    cases hpath
    exact hfault
  | @up x p rest _ hp _ ih =>
    cases hpath
    have hx : ¬ OnCycle nodes x := hbelow x List.mem_cons_self
    exact ih (fun y hy => hbelow y (List.mem_cons_of_mem _ hy)) (.above hx hp hfault) rfl

theorem Trail.missing (hids : (nodes.map (·.id)).Nodup) (h : Trail nodes n (m :: below))
    (hp : m.parent? = some id) (hmissing : id ∉ nodes.map (·.id)) :
    Fault nodes n (.missingParent m.id id) := by
  refine h.fault (fun x hx hcycle => ?_) (.missing hp hmissing)
  have hm : OnCycle nodes m := hcycle.of_reaches hids (h.reaches x (List.mem_cons_of_mem _ hx))
  obtain ⟨p, hparent⟩ := hm.exists_parent
  obtain rfl := Option.some.inj (hp.symm.trans hparent.2)
  exact hmissing (List.mem_map_of_mem hparent.1)

theorem exists_rel_of_isChain {α : Type} {r : α → α → Prop} {a : α} {l : List α} (h : (a :: l).IsChain r) :
    ∀ y ∈ a :: l, y = a ∨ ∃ z ∈ a :: l, r z y := by
  induction l generalizing a with
  | nil => simp
  | cons b l ih =>
    obtain ⟨hab, hl⟩ := List.isChain_cons_cons.mp h
    intro y hy
    rcases List.mem_cons.mp hy with rfl | hy
    · exact Or.inl rfl
    · right
      rcases ih hl y hy with rfl | ⟨z, hz, hzy⟩
      · exact ⟨a, List.mem_cons_self, hab⟩
      · exact ⟨z, List.mem_cons_of_mem _ hz, hzy⟩

/-- Where the top of a trail leads back to the trail, the part between never leaves itself. -/
theorem Trail.mem_of_reaches (hids : (nodes.map (·.id)).Nodup) (h : Trail nodes n (top :: path))
    (hsplit : top :: path = above ++ c :: below) (hp : ParentIn nodes top c)
    (hreach : ReflTransGen (ParentIn nodes) c a) : a ∈ above ++ [c] := by
  obtain ⟨between, hbetween⟩ : ∃ between, above ++ [c] = top :: between := by
    cases above with
    | nil => exact ⟨[], by rw [(List.cons.inj hsplit).1]; rfl⟩
    | cons x above => exact ⟨above ++ [c], by rw [(List.cons.inj hsplit).1]; rfl⟩
  have hchain : (top :: between).IsChain fun p x => ParentIn nodes x p := by
    have hwhole := h.isChain
    rw [hsplit] at hwhole
    exact hbetween ▸ (List.isChain_split.mp hwhole).1
  induction hreach with
  | refl => simp
  | tail _ hyz ih =>
    rw [hbetween] at ih ⊢
    rcases exists_rel_of_isChain hchain _ ih with rfl | ⟨w, hw, hyw⟩
    · rw [hyz.unique hids hp, ← hbetween]
      simp
    · exact hyz.unique hids hyw ▸ hw

/-- Where the top of a trail leads back to the trail, the node it leads to is the first on a cycle: one
does not come back to what is below. -/
theorem Trail.cycle (hids : (nodes.map (·.id)).Nodup) (h : Trail nodes n (top :: path)) (hc : c ∈ top :: path)
    (hp : ParentIn nodes top c) : Fault nodes n (.hierarchyCycle c.id) := by
  have hcycle : OnCycle nodes c := TransGen.tail' (h.reaches c hc) hp
  obtain ⟨above, below, hsplit⟩ := List.append_of_mem hc
  have hlower : Trail nodes n (c :: below) := (hsplit ▸ h).of_append
  refine hlower.fault (fun x hx hxcycle => ?_) (.cycle hcycle)
  have hback := hxcycle.back hids (hlower.reaches x (List.mem_cons_of_mem _ hx))
  have hmem : x ∈ above ++ [c] := h.mem_of_reaches hids hsplit hp hback
  have hnodup : ((above ++ [c] ++ below).map (·.id)).Nodup := by
    have := h.nodup
    rw [hsplit] at this
    simpa using this
  exact List.disjoint_of_nodup_append (List.Nodup.of_map _ hnodup) hmem hx

end Trails

end ScenePrune.Scene

import ScenePrune.Proofs.Run.Exactness
import ScenePrune.Proofs.Run.Refinement

/-! # Bindings follow a run

A mapping that gives no node a new id either leaves a binding as it is or clears its target. The mapping of
a run on a scene drops just the nodes that the run took out of the scene, so a binding that is brought up to
date points to no node that is gone.
-/
namespace ScenePrune

namespace Binding

def loses (gone : NodeId → Bool) (b : Binding) : Bool := b.target?.any gone

structure Follows (gone : NodeId → Bool) (b b' : Binding) : Prop where
  holder : b'.holder = b.holder
  property : b'.property? = b.property?
  cleared : b'.target? = none ↔ b.target? = none ∨ b.loses gone = true
  unchanged : b'.target? ≠ none → b'.target? = b.target?

def Reported (b : Binding) (d : Diagnostic) : Prop :=
  ∃ id, b.target? = some id ∧ d = .danglingReferenceAfterPrune b.holder id b.property?

end Binding

namespace RemovalMap
open Binding
variable {m : RemovalMap} {gone : NodeId → Bool} {b : Binding}

/-- The mapping drops some nodes and leaves every other id as it is. -/
def Drops (m : RemovalMap) (gone : NodeId → Bool) : Prop :=
  ∀ id, m.resolve id = if gone id then none else some id

namespace Drops

theorem update_of_loses (h : m.Drops gone) (hb : b.loses gone = true) : m.update b = { b with target? := none } := by
  obtain ⟨id, hid, hgone⟩ := (Option.any_eq_true _ _).mp hb
  rw [update, hid, Option.bind_some, h id, if_pos hgone]

theorem update_of_not_loses (h : m.Drops gone) (hb : b.loses gone = false) : m.update b = b := by
  cases hid : b.target? with
  | none => rw [update, hid, Option.bind_none, ← hid]
  | some id =>
    have hkept : gone id = false := by simpa [loses, hid] using hb
    rw [update, hid, Option.bind_some, h id, if_neg (by simp [hkept]), ← hid]

theorem follows_update (h : m.Drops gone) (b : Binding) : Follows gone b (m.update b) := by
  cases hb : b.loses gone with
  | true =>
    rw [h.update_of_loses hb]
    exact ⟨rfl, rfl, by simp [hb], fun hne => absurd rfl hne⟩
  | false =>
    rw [h.update_of_not_loses hb]
    exact ⟨rfl, rfl, by simp [hb], fun _ => rfl⟩

/-- A binding that was brought up to date has no target that is gone. -/
theorem loses_update (h : m.Drops gone) (b : Binding) : (m.update b).loses gone = false := by
  cases hb : b.loses gone with
  | true => rw [h.update_of_loses hb]; rfl
  | false => rw [h.update_of_not_loses hb, hb]

theorem lostTarget?_eq (h : m.Drops gone) (b : Binding) : m.lostTarget? b = b.target?.filter gone := by
  have hgone : (fun id => (m.resolve id).isNone) = gone := by
    funext id
    rw [h id]
    cases gone id <;> rfl
  rw [lostTarget?, hgone]

theorem lostTarget?_of_not_loses (h : m.Drops gone) (hb : b.loses gone = false) : m.lostTarget? b = none := by
  rw [h.lostTarget?_eq]
  cases hid : b.target? with
  | none => rfl
  | some id =>
    have hkept : gone id = false := by simpa [loses, hid] using hb
    simp [hkept]

theorem forall₂_follows (h : m.Drops gone) (bindings : List Binding) :
    List.Forall₂ (Follows gone) bindings (m.updateAll bindings).1 :=
  List.forall₂_map_right_iff.mpr (List.forall₂_same.mpr fun b _ => h.follows_update b)

/-- The reports match the bindings that are cleared one by one. -/
theorem forall₂_reports (h : m.Drops gone) (bindings : List Binding) :
    List.Forall₂ Reported (bindings.filter (·.loses gone)) (m.updateAll bindings).2 := by
  unfold updateAll
  induction bindings with
  | nil => exact .nil
  | cons b bindings ih =>
    cases hb : b.loses gone with
    | false =>
      rw [List.filter_cons_of_neg (by simp [hb]), List.filterMap_cons, h.lostTarget?_of_not_loses hb]
      exact ih
    | true =>
      obtain ⟨id, hid, hgone⟩ := (Option.any_eq_true _ _).mp hb
      rw [List.filter_cons_of_pos hb, List.filterMap_cons, h.lostTarget?_eq, hid, Option.filter_some_pos hgone]
      exact .cons ⟨id, hid, rfl⟩ ih

/-- Once is enough. -/
theorem updateAll_updateAll (h : m.Drops gone) (bindings : List Binding) :
    m.updateAll (m.updateAll bindings).1 = ((m.updateAll bindings).1, []) := by
  have hcurrent : ∀ b ∈ (m.updateAll bindings).1, b.loses gone = false := by
    intro b hb
    obtain ⟨old, -, rfl⟩ := List.mem_map.mp hb
    exact h.loses_update old
  refine Prod.ext ?_ ?_
  · exact (List.map_congr_left fun b hb => h.update_of_not_loses (hcurrent b hb)).trans (List.map_id _)
  · refine List.filterMap_eq_nil_iff.mpr fun b hb => ?_
    rw [h.lostTarget?_of_not_loses (hcurrent b hb), Option.map_none]

end Drops

end RemovalMap

namespace Collector
variable {c : Collector} {o : Options} {s : Scene} {m : Monitor}

/-- The mapping of a run drops the nodes that the run takes out of the scene. -/
theorem drops_outcome (hs : s.WellFormed) (hdry : o.dryRun = false) :
    ∃ mapping, (c.outcome o s).mapping? = some mapping ∧
      mapping.Drops fun id => id ∈ s.ids ∧ id ∉ (c.outcome o s).scene.ids := by
  refine ⟨_, (mapping?_outcome hs).trans (if_neg (by simp [hdry])), fun id => ?_⟩
  by_cases hid : id ∈ s.ids
  · have hfate := lookup_map_of_mem hid fun id =>
      if (c.liveness (Host.view s)).isDead id then Fate.removed else .kept id
    have hdead := isDead_eq_not_isLive (c := c) hs.wellListed hid
    simp only [RemovalMap.resolve, RemovalMap.get?, OrderedMap.get?, hfate, hdead, mem_ids_outcome hs hdry, hid]
    cases (c.liveness (Host.view s)).isLive id <;> rfl
  · have hnone := lookup_map_of_notMem hid fun id =>
      if (c.liveness (Host.view s)).isDead id then Fate.removed else .kept id
    simp [RemovalMap.resolve, RemovalMap.get?, OrderedMap.get?, hnone, hid]

/-- A run that removed nodes tells bindings from outside where they lead now. Each keeps its holder and its property,
and it loses its target just if the run took the target away. Of the targets that are left, those that were in the
scene still are. Every loss is reported, in the order of the bindings, and bringing them up to date again changes
nothing and reports nothing. -/
theorem bindings_follow (hs : s.Reachable) (hdry : o.dryRun = false) {out : Outcome Scene}
    (hrun : (c.collect o s m).result = .ok out) :
    let gone (id : NodeId) : Bool := id ∈ s.ids ∧ id ∉ out.scene.ids
    ∃ mapping, out.mapping? = some mapping ∧ ∀ bindings : List Binding,
      let updated := (mapping.updateAll bindings).1
      List.Forall₂ (Binding.Follows gone) bindings updated ∧
      (∀ b ∈ updated, ∀ id, b.target? = some id → id ∈ s.ids → id ∈ out.scene.ids) ∧
      List.Forall₂ Binding.Reported (bindings.filter (·.loses gone)) (mapping.updateAll bindings).2 ∧
      mapping.updateAll updated = (updated, []) := by
  intro gone
  have hw := hs.wellFormed
  obtain ⟨-, rfl⟩ := (collect_eq_ok_iff hw.wellListed).mp hrun
  obtain ⟨mapping, hmapping, hdrops⟩ := drops_outcome (c := c) hw hdry
  refine ⟨mapping, hmapping, fun bindings => ⟨hdrops.forall₂_follows bindings, ?_, hdrops.forall₂_reports bindings,
    hdrops.updateAll_updateAll bindings⟩⟩
  intro b hb id hid hlisted
  obtain ⟨old, -, rfl⟩ := List.mem_map.mp hb
  have hkept := hdrops.loses_update old
  simpa [Binding.loses, hid, hlisted] using hkept

/-- Nothing needs the node 4 of the lamp. -/
theorem isLive_lamp_spare : (Bundled.collector.liveness (Host.view Scene.lamp)).isLive 4 = false := by
  have hv := Scene.lamp_reachable.wellFormed.wellListed
  rw [Bool.eq_false_iff]
  intro hlive
  have hneeds := (isLive_iff_needs hv).mp hlive
  generalize hid : (4 : NodeId) = id at hneeds
  cases hneeds with
  | entrypoint _ hcause =>
    subst hid
    revert hcause
    decide
  | @link l _ hl _ =>
    have hrecords : Bundled.collector.animations.records = [] := List.mergeSort_nil
    have hnone : ∀ l ∈ Bundled.collector.askedLinks (Host.view Scene.lamp), l.target ≠ 4 := by
      rw [askedLinks, hrecords]
      decide
    exact hnone l (mem_keepOnce.mp hl) hid.symm

def clip : List Binding := [⟨9, some 4, some "m_IsActive"⟩, ⟨9, some 7, none⟩, ⟨9, some 4, none⟩]

/-- The spare node is reported twice, and its binding is cleared. -/
theorem bindings_follow_lamp : ∃ out mapping, (Bundled.collector.collect {} Scene.lamp {}).result = .ok out ∧
    out.mapping? = some mapping ∧ (mapping.updateAll clip).2.length = 2 ∧
    ∃ b ∈ (mapping.updateAll clip).1, b.property? = some "m_IsActive" ∧ b.target? = none := by
  have hw := Scene.lamp_reachable.wellFormed
  obtain ⟨mapping, hmapping, hfollow⟩ := bindings_follow Scene.lamp_reachable rfl collect_lamp
  obtain ⟨hupdated, -, hreports, -⟩ := hfollow clip
  have hgone : ∀ id, id ∉ (Bundled.collector.outcome {} Scene.lamp).scene.ids ↔
      (Bundled.collector.liveness (Host.view Scene.lamp)).isLive id = false := by
    intro id
    rw [mem_ids_outcome hw rfl, Bool.not_eq_true]
  have hspare : (4 : NodeId) ∈ Scene.lamp.ids := by decide
  have hunknown : (7 : NodeId) ∉ Scene.lamp.ids := by decide
  refine ⟨_, mapping, collect_lamp, hmapping, ?_, ?_⟩
  · refine hreports.length_eq.symm.trans ?_
    simp [clip, Binding.loses, hgone, isLive_lamp_spare, hspare, hunknown]
  · generalize (mapping.updateAll clip).1 = updated at hupdated ⊢
    cases hupdated with
    | cons hfirst _ =>
      refine ⟨_, List.mem_cons_self, hfirst.property, hfirst.cleared.mpr (Or.inr ?_)⟩
      simp [Binding.loses, hgone, isLive_lamp_spare, hspare]

end Collector

end ScenePrune

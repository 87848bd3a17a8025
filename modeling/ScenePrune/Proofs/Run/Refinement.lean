import ScenePrune.Proofs.Run.Exactness
import ScenePrune.Proofs.Run.Soundness

/-! # Removing the dead nodes changes no use

What is used in a state of the flags is live, so every path of links that hold in that state runs
through nodes that stay. In what is left of the scene the same links hold, and no others.
-/
namespace ScenePrune

def Link.HoldsIn (active : NodeId → Prop) (l : Link) : Prop :=
  (l.qualifiers.evenIfSourceDisabled = true ∨ active l.source) ∧
    (l.qualifiers.onlyIfTargetCanBeEnabled = true → active l.target)

namespace Collector

inductive Needs (c : Collector) (v : SceneView) (counts : Link → Prop) : NodeId → Prop where
  | entrypoint {id : NodeId} : id ∈ v.ids → (c.cause? v id).isSome → Needs c v counts id
  | link {l : Link} : Needs c v counts l.source → l ∈ c.links v → counts l → Needs c v counts l.target

variable {c : Collector} {v v' : SceneView} {id : NodeId} {active : NodeId → Prop}

theorem Needs.mem_ids {counts : Link → Prop} (h : c.Needs v counts id) : id ∈ v.ids := by
  cases h with
  | entrypoint hid _ => exact hid
  | link _ hl _ => exact (isListed_of_mem_links hl).2

theorem activeAt_place (hid : id ∈ v.ids) : (c.graph v).ActiveAt active (v.place id) ↔ active id := by
  rw [Graph.ActiveAt, node?_graph hid]
  exact ⟨fun ⟨_, he, ha⟩ => by cases he; exact ha, fun ha => ⟨_, rfl, ha⟩⟩

theorem holdsIn_edge {l : Link} (hl : l ∈ c.links v) :
    (c.graph v).HoldsIn active (l.edge v) ↔ l.HoldsIn active := by
  obtain ⟨hs, ht⟩ := isListed_of_mem_links hl
  have hsource : (c.graph v).ActiveAt active (l.edge v).source ↔ active l.source := activeAt_place hs
  have htarget : (c.graph v).ActiveAt active (l.edge v).target ↔ active l.target := activeAt_place ht
  rw [Graph.HoldsIn, hsource, htarget]
  rfl

theorem Needs.mono {counts counts' : Link → Prop} (h : c.Needs v counts id)
    (hc : ∀ l ∈ c.links v, counts l → counts' l) : c.Needs v counts' id := by
  induction h with
  | entrypoint hid he => exact .entrypoint hid he
  | link _ hl hcount ih => exact .link ih hl (hc _ hl hcount)

/-- Positions are reached just if their ids are. -/
theorem reaches_iff_needs {counts : Edge → Prop} (hid : id ∈ v.ids) :
    (c.graph v).Reaches counts (v.place id) ↔ c.Needs v (fun l => counts (l.edge v)) id := by
  constructor
  · intro h
    generalize hi : v.place id = i at h
    induction h generalizing id with
    | entrypoint hn he =>
      subst hi
      obtain rfl := Option.some.inj ((node?_graph hid).symm.trans hn)
      exact .entrypoint hid he
    | edge _ he hcount _ ih =>
      obtain ⟨l, hl, rfl⟩ := List.mem_map.mp he
      obtain ⟨hsource, -⟩ := isListed_of_mem_links hl
      obtain rfl : id = l.target := SceneView.place_inj hid hi
      exact .link (ih hsource rfl) hl hcount
  · intro h
    induction h with
    | entrypoint hid he => exact .entrypoint (node?_graph hid) he
    | @link l _ hl hcount ih =>
      obtain ⟨hsource, htarget⟩ := isListed_of_mem_links hl
      have hnode : ((c.graph v).node? (l.edge v).target).isSome := by
        rw [show (l.edge v).target = v.place l.target from rfl, node?_graph htarget]
        rfl
      exact .edge (e := l.edge v) (ih hsource) (List.mem_map_of_mem hl) hcount hnode

/-- A node is live just if the links that count lead to it from an entrypoint. -/
theorem isLive_iff_needs (hv : v.WellListed) : (c.liveness v).isLive id = true ↔
    c.Needs v (fun l => (l.edge v).isTraversable (c.activeness v) = true) id := by
  constructor
  · intro hlive
    have hid := mem_ids_of_isLive hv hlive
    exact (reaches_iff_needs hid).mp ((isLive_iff_reaches hv hid).mp hlive)
  · exact fun h => (isLive_iff_reaches hv h.mem_ids).mpr ((reaches_iff_needs h.mem_ids).mpr h)

/-- A node is used just if the links that hold lead to it from an entrypoint. -/
theorem uses_iff_needs (hv : v.WellListed) :
    (c.graph v).Uses active id ↔ c.Needs v (Link.HoldsIn active) id := by
  constructor
  · rintro ⟨i, n, hr, hn, rfl⟩
    obtain ⟨id, hid, rfl, rfl⟩ := exists_of_node?_graph hv hn
    exact ((reaches_iff_needs hid).mp hr).mono fun l hl => (holdsIn_edge hl).mp
  · intro h
    have hr := (reaches_iff_needs h.mem_ids).mpr (h.mono fun l hl => (holdsIn_edge hl).mpr)
    exact ⟨v.place id, c.nodeAt v id, hr, node?_graph h.mem_ids, rfl⟩

namespace Prunes
variable {state state' : NodeId → Bool}

/-- A live node is active in a state just if it is so when the dead nodes are gone. -/
theorem activeIn_iff (h : c.Prunes v v') (hstate : ∀ id ∈ v'.ids, state' id = state id) (hid : id ∈ v'.ids) :
    v.ActiveIn state id ↔ v'.ActiveIn state' id := by
  constructor
  · intro ha
    induction ha with
    | @top id hmem hp hon => exact .top hid ((h.record id hid).parent.trans hp) ((hstate id hid).trans hon)
    | @child id parent hmem hp hon hactive ih =>
      have hparent : parent ∈ v'.ids :=
        h.mem_listedParent hid (SceneView.listedParent?_eq_some.mpr ⟨hp, hactive.mem_ids⟩)
      exact .child hid ((h.record id hid).parent.trans hp) ((hstate id hid).trans hon) (ih hparent)
  · intro ha
    clear hid
    induction ha with
    | @top id hid hp hon =>
      exact .top (h.mem_of_mem hid) ((h.record id hid).parent.symm.trans hp) ((hstate id hid).symm.trans hon)
    | @child id parent hid hp hon _ ih =>
      exact .child (h.mem_of_mem hid) ((h.record id hid).parent.symm.trans hp) ((hstate id hid).symm.trans hon) ih

/-- The restriction of a state to what is left is a state of what is left. -/
theorem isState (h : c.Prunes v v') (hc : c.IsLocal) (hs : c.IsState v state)
    (hstate : ∀ id ∈ v'.ids, state' id = state id) : c.IsState v' state' := by
  intro id hid hne
  rw [hstate id hid, (h.record id hid).enabled] at hne
  rw [h.isWritten_eq hc hid]
  exact hs id (h.mem_of_mem hid) hne

theorem holdsIn_iff (h : c.Prunes v v') (hstate : ∀ id ∈ v'.ids, state' id = state id) {l : Link}
    (hs : l.source ∈ v'.ids) (ht : l.target ∈ v'.ids) :
    l.HoldsIn (v.ActiveIn state) ↔ l.HoldsIn (v'.ActiveIn state') := by
  rw [Link.HoldsIn, Link.HoldsIn, h.activeIn_iff hstate hs, h.activeIn_iff hstate ht]

/-- A link that holds in some state leads from a live node to a live node. -/
theorem mem_of_holdsIn (h : c.Prunes v v') (hs : c.IsState v state) {l : Link} (hl : l ∈ c.links v)
    (hsource : l.source ∈ v'.ids) (hcount : l.HoldsIn (v.ActiveIn state)) : l.target ∈ v'.ids := by
  have htraversable := Graph.HoldsIn.isTraversable h.wellListed hs ((holdsIn_edge hl).mpr hcount)
  have hlive := isLive_target h.wellListed hl htraversable (h.mem_ids.mp hsource).2
  exact h.mem_ids.mpr ⟨(isListed_of_mem_links hl).2, hlive⟩

theorem needs_iff (h : c.Prunes v v') (hc : c.IsLocal) (hs : c.IsState v state)
    (hstate : ∀ id ∈ v'.ids, state' id = state id) :
    c.Needs v (Link.HoldsIn (v.ActiveIn state)) id ↔ c.Needs v' (Link.HoldsIn (v'.ActiveIn state')) id := by
  constructor
  · intro hneeds
    induction hneeds with
    | @entrypoint id hid he =>
      have hlive := (isLive_iff_reaches h.wellListed hid).mpr (.entrypoint (node?_graph (c := c) hid) he)
      have hid' := h.mem_ids.mpr ⟨hid, hlive⟩
      exact .entrypoint hid' ((h.cause?_eq hc hid').symm ▸ he)
    | @link l _ hl hcount ih =>
      have hsource := ih.mem_ids
      have htarget := h.mem_of_holdsIn hs hl hsource hcount
      have hl' : l ∈ c.links v' := by
        rw [h.links_eq hc, List.mem_filter]
        exact ⟨hl, Bool.and_eq_true_iff.mpr ⟨(h.mem_ids.mp hsource).2, (h.mem_ids.mp htarget).2⟩⟩
      exact .link ih hl' ((h.holdsIn_iff hstate hsource htarget).mp hcount)
  · intro hneeds
    induction hneeds with
    | @entrypoint id hid he => exact .entrypoint (h.mem_of_mem hid) (h.cause?_eq hc hid ▸ he)
    | @link l _ hl hcount ih =>
      obtain ⟨hsource, htarget⟩ := isListed_of_mem_links hl
      rw [h.links_eq hc] at hl
      exact .link ih (List.mem_filter.mp hl).1 ((h.holdsIn_iff hstate hsource htarget).mpr hcount)

end Prunes

variable (c) (o o' : Options) (m m' : Monitor) (s : Scene) (out : Outcome Scene)

/-- Every state of a scene is, restricted to the nodes that are left by a run, a state of what is
left, and the same nodes are used in both. -/
theorem prune_preserves_use (hc : c.IsLocal) (hs : s.Reachable) (hdry : o.dryRun = false)
    (hrun : (c.collect o s m).result = .ok out) (hm' : m'.cancelled = false) :
    ∃ a, (c.analyze o' (Host.view out.scene) m').result = .ok a ∧
      ∀ state, c.IsState (Host.view s) state →
        ∀ state', (∀ id ∈ out.scene.ids, state' id = state id) →
          c.IsState (Host.view out.scene) state' ∧
          ∀ id, out.analysis.graph.Uses ((Host.view s).ActiveIn state) id ↔
            a.graph.Uses ((Host.view out.scene).ActiveIn state') id := by
  have hv := hs.wellFormed.wellListed
  obtain ⟨⟨-, hcancels⟩, rfl⟩ := (collect_eq_ok_iff hv).mp hrun
  have hprunes := prunes_outcome (c := c) hs.wellFormed hdry
  have hv' := hprunes.wellListed'
  have hcancels' := hprunes.cancels_eq_false hc hcancels
  refine ⟨c.analysis (Host.view (c.outcome o s).scene) o', ?_, ?_⟩
  · rw [analyze_result hv', hm', hcancels']
    rfl
  · intro state hstate state' hrestrict
    refine ⟨hprunes.isState hc hstate hrestrict, fun id => ?_⟩
    rw [outcome_graph, uses_iff_needs hv, hprunes.needs_iff hc hstate hrestrict]
    exact (uses_iff_needs hv').symm

/-- With the lamp switched on, the same nodes are used before and after a run. -/
theorem prune_preserves_use_lamp : ∃ out a,
    (Bundled.collector.collect {} Scene.lamp {}).result = .ok out ∧
    (Bundled.collector.analyze {} (Host.view out.scene) {}).result = .ok a ∧
    ∀ id, out.analysis.graph.Uses ((Host.view Scene.lamp).ActiveIn fun _ => true) id ↔
      a.graph.Uses ((Host.view out.scene).ActiveIn fun _ => true) id := by
  obtain ⟨a, ha, h⟩ := prune_preserves_use Bundled.collector {} {} {} {} Scene.lamp _
    Bundled.isLocal_collector Scene.lamp_reachable rfl collect_lamp rfl
  exact ⟨_, a, collect_lamp, ha, (h _ isState_lamp _ fun _ _ => rfl).2⟩

end Collector

end ScenePrune

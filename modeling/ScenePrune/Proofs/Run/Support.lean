import Mathlib.Logic.Relation
import ScenePrune.Proofs.Animations
import ScenePrune.Proofs.Run.Refinement

/-! # What the state of a node rests on

Whether a node is active is decided by its flag and by those above it, and a flag by whoever may write
it: a plugin that toggles the node, one that names the path of its flag, or a record of the animation
table. These are kept together with the node, and so is in turn what they rest on.
-/
namespace ScenePrune.Collector

inductive Switches (c : Collector) (v : SceneView) (writer target : NodeId) : Prop where
  | toggle {p : Plugin} : writer ∈ v.ids → c.registry.lookup (v.typeOf writer) = .ok p →
      .toggles target ∈ (p.mutations ⟨v, writer⟩).items → Switches c v writer target
  | path {p : Plugin} : writer ∈ v.ids → c.registry.lookup (v.typeOf writer) = .ok p →
      .mutates target (v.switch target) ∈ (p.mutations ⟨v, writer⟩).items → Switches c v writer target
  | record {r : AnimationRecord} : r ∈ c.animations.records → r.node = target →
      r.property = v.switch target → writer ∈ r.writers → Switches c v writer target

/-- The state of the first node rests on the second one: its parent, or a node that may switch it. -/
inductive RestsOn (c : Collector) (v : SceneView) (id : NodeId) : NodeId → Prop where
  | parent {parent : NodeId} : v.parent? id = some parent → parent ∈ v.ids → RestsOn c v id parent
  | writer {writer : NodeId} : writer ∈ v.ids → c.Switches v writer id → RestsOn c v id writer

variable {c : Collector} {v : SceneView} {id other : NodeId}

theorem switches_iff_writes {writer target : NodeId} :
    c.Switches v writer target ↔ c.Writes v writer target (v.switch target) := by
  constructor
  · rintro (⟨hw, hp, hm⟩ | ⟨hw, hp, hm⟩ | ⟨hr, hnode, hproperty, hwriter⟩)
    · exact Or.inl ⟨hw, _, hp, _, hm, rfl, rfl⟩
    · exact Or.inl ⟨hw, _, hp, _, hm, rfl, rfl⟩
    · exact Or.inr ⟨_, hr, hnode, hproperty, hwriter⟩
  · rintro (⟨hw, p, hp, m, hm, rfl, hpath⟩ | ⟨r, hr, hnode, hproperty, hwriter⟩)
    · cases m with
      | toggles target => exact .toggle hw hp hm
      | mutates target path =>
        obtain rfl : path = v.switch target := hpath
        exact .path hw hp hm
    · exact .record hr hnode hproperty hwriter

/-- The writers on record for the flag of a node are those that may switch it. -/
theorem mem_writers_switch_iff (hv : v.WellListed) (hid : id ∈ v.ids) :
    other ∈ (c.draft v).writers.writers (v.place id) (v.switch id) ↔ c.Switches v other id := by
  rw [mem_writers_draft hv hid, switches_iff_writes]

theorem isLive_of_restsOn (hv : v.WellListed) (h : c.RestsOn v id other) (hlive : (c.liveness v).isLive id = true) :
    (c.liveness v).isLive other = true := by
  have hid := mem_ids_of_isLive hv hlive
  cases h with
  | parent hp hlisted => exact isLive_listedParent hv hid (SceneView.listedParent?_eq_some.mpr ⟨hp, hlisted⟩) hlive
  | writer hw hs => exact isLive_writer hv hid hw (switches_iff_writes.mp hs) hlive

theorem isLive_of_restsOn_star (hv : v.WellListed) (h : Relation.ReflTransGen (c.RestsOn v) id other)
    (hlive : (c.liveness v).isLive id = true) : (c.liveness v).isLive other = true := by
  induction h with
  | refl => exact hlive
  | tail _ hstep ih => exact isLive_of_restsOn hv hstep ih

/-- No live node loses what its state rests on: its ancestors, whoever may switch it, and whatever these
rest on are judged live and kept. -/
theorem support_survives {σ : Type} [Host σ] (c : Collector) (o : Options) (m : Monitor) (scene : σ)
    (hv : (Host.view scene).WellListed) (hrun : (c.collect o scene m).result ≠ .error .cancelled) :
    ∃ out, (c.collect o scene m).result = .ok out ∧
      ∀ id, out.analysis.liveness.isLive id = true →
        ∀ other, Relation.ReflTransGen (c.RestsOn (Host.view scene)) id other →
          out.analysis.liveness.isLive other = true ∧
          (∀ mapping, out.mapping? = some mapping → mapping.get? other = some (.kept other)) ∧
          (Host.RemovesOnly σ → other ∈ (Host.view out.scene).ids) := by
  have hok := collect_eq_ok hv hrun
  refine ⟨c.outcome o scene, hok, ?_⟩
  intro id hlive other hrests
  rw [outcome_liveness] at hlive
  have hother := isLive_of_restsOn_star hv hrests hlive
  have hid := mem_ids_of_isLive hv hother
  have hjudged : (c.outcome o scene).analysis.liveness.isLive other = true := by
    rw [outcome_liveness]
    exact hother
  exact ⟨hjudged, kept_of_not_dead hok hid (Liveness.isDead_eq_false_of_isLive hjudged)⟩

/-- A rig whose transforms 2 and 3 are each the parent of the other. The clip of node 4, whose own parent
is missing, switches 3. Nothing needs node 5, but the host holds on to it. -/
def loop : Listing := .ofList
    [(1, { type? := some "Animator", kind? := some .component, parent? := some 2 }),
     (2, { type? := some "Transform", kind? := some .transform, parent? := some 3 }),
     (3, { type? := some "Transform", kind? := some .transform, parent? := some 2, enabled := false }),
     (4, { type? := some "Transform", kind? := some .transform, parent? := some 9 }),
     (5, { type? := some "Transform", kind? := some .transform, parent? := some 2 })] [5]

def clips : AnimationTable := .ofRecords [⟨3, NodeKind.enabledProperty .transform, [4]⟩]

/-- The animator 1 is an entrypoint. It rests on the cycle above it, and the cycle on node 4. -/
theorem support_survives_loop : ∃ out mapping,
    ({ Bundled.collector with animations := clips }.collect {} loop {}).result = .ok out ∧
      out.mapping? = some mapping ∧ mapping.get? 3 = some (.kept 3) ∧ mapping.get? 4 = some (.kept 4) := by
  let c : Collector := { Bundled.collector with animations := clips }
  have hv : (Host.view loop).WellListed := Listing.wellListed_view (by decide)
  have hcancels : c.cancels (Host.view loop) = false := by decide
  have hrun : (c.collect {} loop {}).result ≠ .error .cancelled := by
    rw [collect_result hv, hcancels]
    simp
  obtain ⟨out, hout, h⟩ := support_survives c {} {} loop hv hrun
  obtain ⟨-, rfl⟩ := (collect_eq_ok_iff hv).mp hout
  have hlive : (c.outcome {} loop).analysis.liveness.isLive 1 = true := by
    rw [outcome_liveness]
    exact (isLive_iff_needs hv).mpr (.entrypoint (by decide) rfl)
  have hparent : c.RestsOn (Host.view loop) 1 2 := .parent rfl (by decide)
  have hgrandparent : c.RestsOn (Host.view loop) 2 3 := .parent rfl (by decide)
  have hcycle : Relation.ReflTransGen (c.RestsOn (Host.view loop)) 1 3 := .tail (.single hparent) hgrandparent
  have htells : clips.Tells 3 (NodeKind.enabledProperty .transform) 4 :=
    AnimationTable.tells_ofRecords.mpr ⟨_, List.mem_singleton_self _, rfl, rfl, List.mem_singleton_self _⟩
  have hclip : c.Switches (Host.view loop) 4 3 := by
    obtain ⟨r, hr, hnode, hproperty, hwriter⟩ := htells
    exact .record hr hnode hproperty hwriter
  -- Node 4 is not above the animator; it is kept as it switches node 3, which is.
  refine ⟨_, _, hout, rfl, ?_, ?_⟩
  · exact (h 1 hlive 3 hcycle).2.1 _ rfl
  · exact (h 1 hlive 4 (hcycle.tail (.writer (by decide) hclip))).2.1 _ rfl

end ScenePrune.Collector

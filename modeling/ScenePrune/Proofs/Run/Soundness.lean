import ScenePrune.Proofs.Run.Collect

/-! # What is used in some state of the flags is live

At runtime flags are switched on and off, but only those that somebody is recorded to write. A node
is used in a state if it can be reached from the entrypoints through edges that hold in that state.
The analysis knows no states; the main statement is that it keeps what is used in any of them.
-/
namespace ScenePrune

namespace SceneView

/-- A node is active in a state if it and everything above it is listed and enabled there. -/
inductive ActiveIn (v : SceneView) (state : NodeId → Bool) : NodeId → Prop where
  | top {id : NodeId} : id ∈ v.ids → v.parent? id = none → state id = true → ActiveIn v state id
  | child {id parent : NodeId} : id ∈ v.ids → v.parent? id = some parent → state id = true →
      ActiveIn v state parent → ActiveIn v state id

theorem ActiveIn.mem_ids {v : SceneView} {state : NodeId → Bool} {id : NodeId} (h : v.ActiveIn state id) :
    id ∈ v.ids := by
  cases h with
  | top hid _ _ => exact hid
  | child hid _ _ _ => exact hid

theorem ActiveIn.isOn {v : SceneView} {state : NodeId → Bool} {id : NodeId} (h : v.ActiveIn state id) :
    state id = true := by
  cases h with
  | top _ _ hs => exact hs
  | child _ _ hs _ => exact hs

theorem ActiveIn.listedParent {v : SceneView} {state : NodeId → Bool} {id parent : NodeId}
    (h : v.ActiveIn state id) (hp : v.listedParent? id = some parent) : v.ActiveIn state parent := by
  have hparent := (listedParent?_eq_some.mp hp).1
  cases h with
  | top _ hnone _ =>
    rw [hparent] at hnone
    cases hnone
  | child _ hsome _ habove =>
    obtain rfl := Option.some.inj (hparent.symm.trans hsome)
    exact habove

end SceneView

namespace Graph

def ActiveAt (g : Graph) (active : NodeId → Prop) (i : Nat) : Prop := ∃ n, g.node? i = some n ∧ active n.id

def HoldsIn (g : Graph) (active : NodeId → Prop) (e : Edge) : Prop :=
  (e.qualifiers.evenIfSourceDisabled = true ∨ g.ActiveAt active e.source) ∧
    (e.qualifiers.onlyIfTargetCanBeEnabled = true → g.ActiveAt active e.target)

def Uses (g : Graph) (active : NodeId → Prop) (id : NodeId) : Prop :=
  ∃ i n, g.Reaches (g.HoldsIn active) i ∧ g.node? i = some n ∧ n.id = id

end Graph

/-- A state sets the flags of the listed nodes, and leaves a flag that nobody is recorded to write
as the scene has it. -/
def Collector.IsState (c : Collector) (v : SceneView) (state : NodeId → Bool) : Prop :=
  ∀ id ∈ v.ids, state id ≠ v.enabled id →
    (c.draft v).writers.isWritten (v.place id) (v.switch id) = true

/-- The lamp may be on, as the animator switches it. -/
theorem Collector.isState_lamp : Bundled.collector.IsState (Host.view Scene.lamp) fun _ => true := by
  intro id hid hne
  have hcases : id = 0 ∨ id = 1 ∨ id = 2 ∨ id = 3 ∨ id = 4 := by
    simpa [Host.view, Scene.view, Scene.ids, Scene.lamp] using hid
  rcases hcases with rfl | rfl | rfl | rfl | rfl
  · exact absurd rfl hne
  · exact absurd rfl hne
  · decide +kernel
  · exact absurd rfl hne
  · exact absurd rfl hne

/-- With the lamp on, the constraint below it is used: the animator 1 needs the lamp 2, and that needs
the constraint as long as it can be enabled. -/
theorem Collector.uses_lamp : (Bundled.collector.graph (Host.view Scene.lamp)).Uses
    ((Host.view Scene.lamp).ActiveIn fun _ => true) 3 := by
  have h0 : (Host.view Scene.lamp).ActiveIn (fun _ => true) 0 := .top (by decide) rfl rfl
  have h1 : (Host.view Scene.lamp).ActiveIn (fun _ => true) 1 := .child (by decide) rfl rfl h0
  have h2 : (Host.view Scene.lamp).ActiveIn (fun _ => true) 2 := .child (by decide) rfl rfl h0
  have h3 : (Host.view Scene.lamp).ActiveIn (fun _ => true) 3 := .child (by decide) rfl rfl h2
  have hat : ∀ id, (Host.view Scene.lamp).ActiveIn (fun _ => true) id →
      (Bundled.collector.graph (Host.view Scene.lamp)).ActiveAt
        ((Host.view Scene.lamp).ActiveIn fun _ => true) ((Host.view Scene.lamp).place id) :=
    fun id ha => ⟨_, node?_graph ha.mem_ids, ha⟩
  have he : ⟨1, 2, .dependency, .plain⟩ ∈ (Bundled.collector.graph (Host.view Scene.lamp)).edges ∧
      ⟨2, 3, .dependency, .onlyIfEnabled⟩ ∈ (Bundled.collector.graph (Host.view Scene.lamp)).edges := by
    decide +kernel
  refine ⟨3, _, ?_, node?_graph h3.mem_ids, rfl⟩
  refine .edge (e := ⟨2, 3, .dependency, .onlyIfEnabled⟩) ?_ he.2 ⟨Or.inr (hat 2 h2), fun _ => hat 3 h3⟩ rfl
  refine .edge (e := ⟨1, 2, .dependency, .plain⟩) ?_ he.1 ⟨Or.inr (hat 1 h1), by simp [Qualifiers.plain]⟩ rfl
  exact .entrypoint (node?_graph h1.mem_ids) rfl

section Sound
variable {c : Collector} {v : SceneView} {state : NodeId → Bool}

theorem Collector.IsState.enabled_or_written (hs : c.IsState v state) {id : NodeId} (hid : id ∈ v.ids)
    (hon : state id = true) : v.enabled id = true ∨
      (c.draft v).writers.isWritten (v.place id) (v.switch id) = true := by
  by_cases he : v.enabled id = true
  · exact Or.inl he
  · exact Or.inr (hs id hid (by simp [hon, he]))

/-- The chain of a node that is active in some state is enabled throughout or written somewhere. -/
theorem SceneView.ActiveIn.chain (hs : c.IsState v state) {id : NodeId} (ha : v.ActiveIn state id)
    {chain : Chain} (hc : (c.graph v).HasChain (c.draft v).writers (v.place id) chain) :
    chain.written = true ∨ chain.enabled = true := by
  have hextend : ∀ id ∈ v.ids, state id = true → ∀ above : Chain, (above.written = true ∨ above.enabled = true) →
      (c.extendChain v id above).written = true ∨ (c.extendChain v id above).enabled = true := by
    intro id hid hon above habove
    rcases habove with hw | he
    · exact Or.inl (Bool.or_eq_true_iff.mpr (Or.inr hw))
    · rcases hs.enabled_or_written hid hon with hself | hw
      · exact Or.inr (Bool.and_eq_true_iff.mpr ⟨hself, he⟩)
      · exact Or.inl (Bool.or_eq_true_iff.mpr (Or.inl hw))
  refine Collector.hasChain_induction (c := c)
    (motive := fun id chain => v.ActiveIn state id → chain.written = true ∨ chain.enabled = true)
    (fun id hid _ ha => hextend id hid ha.isOn _ (Or.inr rfl)) (fun id hid parent above hp ih ha => ?_) ha.mem_ids hc ha
  exact hextend id hid ha.isOn above (ih (ha.listedParent hp))

theorem SceneView.ActiveIn.canBeActive (hs : c.IsState v state) {id : NodeId} (ha : v.ActiveIn state id) :
    ((c.activeness v).get (v.place id)).canBeActive = true := by
  by_cases h : ∃ chain, (c.graph v).HasChain (c.draft v).writers (v.place id) chain
  · obtain ⟨chain, hc⟩ := h
    rw [Collector.activeness, hc.get_activeness]
    rcases ha.chain hs hc with hw | he
    · simp [Chain.activeness, hw, Activeness.canBeActive]
    · cases hw : chain.written <;> simp [Chain.activeness, hw, he, Activeness.canBeActive]
  · rw [Collector.activeness, Graph.get_activeness_of_no_chain fun chain hc => h ⟨chain, hc⟩]
    rfl

theorem Graph.ActiveAt.canBeActive (hv : v.WellListed) (hs : c.IsState v state) {i : Nat}
    (ha : (c.graph v).ActiveAt (v.ActiveIn state) i) : ((c.activeness v).get i).canBeActive = true := by
  obtain ⟨n, hn, hactive⟩ := ha
  obtain ⟨id, hid, rfl, rfl⟩ := Collector.exists_of_node?_graph hv hn
  exact SceneView.ActiveIn.canBeActive hs hactive

/-- An edge that holds in some state counts for the analysis. -/
theorem Graph.HoldsIn.isTraversable (hv : v.WellListed) (hs : c.IsState v state) {e : Edge}
    (h : (c.graph v).HoldsIn (v.ActiveIn state) e) : e.isTraversable (c.activeness v) = true := by
  rw [Edge.isTraversable, Bool.and_eq_true, Bool.or_eq_true, Bool.or_eq_true]
  constructor
  · exact h.1.imp_right (Graph.ActiveAt.canBeActive hv hs)
  · by_cases hq : e.qualifiers.onlyIfTargetCanBeEnabled = true
    · exact Or.inr (Graph.ActiveAt.canBeActive hv hs (h.2 hq))
    · exact Or.inl (by simpa using hq)

theorem Graph.Uses.isLive (hv : v.WellListed) (hs : c.IsState v state) {id : NodeId}
    (hu : (c.graph v).Uses (v.ActiveIn state) id) :
    (c.liveness v).isLive id = true ∧ id ∈ v.ids := by
  obtain ⟨i, n, hr, hn, rfl⟩ := hu
  constructor
  · rw [Collector.liveness, (Collector.distinctIds_graph hv).isLive_iff hn]
    exact hr.mono fun e _ _ he => he.isTraversable hv hs
  · obtain ⟨id, hid, -, rfl⟩ := Collector.exists_of_node?_graph hv hn
    exact hid

end Sound

namespace Collector
variable {σ : Type} [Host σ] (c : Collector) (o : Options) (m : Monitor) (scene : σ)

/-- A run that is not cancelled judges every node live that is used in some state, and removing the
dead nodes keeps it. -/
theorem used_survives (hv : (Host.view scene).WellListed)
    (hrun : (c.analyze o (Host.view scene) m).result ≠ .error .cancelled) :
    ∃ a, (c.analyze o (Host.view scene) m).result = .ok a ∧
      ∀ state, c.IsState (Host.view scene) state → ∀ id, a.graph.Uses ((Host.view scene).ActiveIn state) id →
        a.liveness.isLive id = true ∧
        ∀ o' m', (c.collect o' scene m').result ≠ .error .cancelled →
          ∃ out, (c.collect o' scene m').result = .ok out ∧
            (∀ mapping, out.mapping? = some mapping → mapping.get? id = some (.kept id)) ∧
            (Host.RemovesOnly σ → id ∈ (Host.view out.scene).ids) := by
  refine ⟨c.analysis (Host.view scene) o, analyze_eq_ok hv hrun, ?_⟩
  intro state hs id hu
  obtain ⟨hlive, hid⟩ := Graph.Uses.isLive hv hs hu
  refine ⟨hlive, fun o' m' hcollect => ⟨c.outcome o' scene, collect_eq_ok hv hcollect, ?_, ?_⟩⟩
  · intro mapping hmapping
    unfold outcome at hmapping
    split at hmapping
    · cases hmapping
    · cases hmapping
      exact Sweep.get?_run_of_isLive hv.nodup hid hlive
  · intro hremoves
    unfold outcome
    split
    · exact hid
    · exact Sweep.mem_ids_run_of_isLive hremoves hv.nodup hid hlive

/-- The constraint below the lamp is kept: it is used once the animator switches the lamp on. -/
theorem lamp_constraint_survives : ∃ a,
    (Bundled.collector.analyze {} (Host.view Scene.lamp) {}).result = .ok a ∧ a.liveness.isLive 3 = true := by
  have hv := Scene.lamp_reachable.wellFormed.wellListed
  have hresult : (Bundled.collector.analyze {} (Host.view Scene.lamp) {}).result =
      .ok (Bundled.collector.analysis (Host.view Scene.lamp) {}) := by
    rw [analyze_result hv, cancels_lamp]
    rfl
  have hrun : (Bundled.collector.analyze {} (Host.view Scene.lamp) {}).result ≠ .error .cancelled := by
    rw [hresult]
    simp
  obtain ⟨a, ha, h⟩ := used_survives Bundled.collector {} {} Scene.lamp hv hrun
  obtain rfl := Except.ok.inj (hresult.symm.trans ha)
  exact ⟨_, ha, (h _ isState_lamp 3 uses_lamp).1⟩

end Collector

end ScenePrune

import ScenePrune.Proofs.Graph.Repeats
import ScenePrune.Proofs.Run.Cancellation
import ScenePrune.Proofs.Run.Collect

/-! # Runs on hosts that list ids more than once

A host is free to list an id several times. The graph then has several nodes of that id, but there is one
verdict for all of them. A run keeps an entrypoint, and what is reached from one, if the host lists its id
once; an id that is listed more often is found dead, and the run tries to remove it.
-/
namespace ScenePrune.Collector

section Passes
variable {c : Collector} {v : SceneView} {o : Options} {p : Progress} {pass : Pass} {m : Monitor} {a : Analysis}

/-- A run that is not cancelled in the end has taken all of its passes. -/
theorem performAll_eq_foldl {passes : List Pass} (h : (c.performAll o v passes p).monitor.cancelled = false) :
    c.performAll o v passes p = passes.foldl (c.turn v o) p := by
  induction passes generalizing p with
  | nil => rfl
  | cons pass rest ih =>
    cases hp : p.monitor.cancelled with
    | true =>
      rw [performAll_cancelled hp] at h
      cases h
    | false =>
      rw [performAll_turn hp] at h ⊢
      exact ih h

/-- What a run finds that ends, whether ids repeat or not. -/
theorem analysis_of_ok (h : (c.analyze o v m).result = .ok a) : v.Typed ∧
    a.graph = (c.draft v).graph.withEntrypoints c.rules v ∧ a.liveness = a.graph.liveness a.activeness := by
  simp only [analyze] at h
  cases hu : untyped? v with
  | some id =>
    rw [hu] at h
    cases h
  | none =>
    simp only [hu] at h
    cases hc : (c.performAll o v Pass.all { monitor := m.expect stepCount }).monitor.cancelled with
    | true =>
      rw [Progress.analysis_of_cancelled hc] at h
      cases h
    | false =>
      obtain ⟨activeness, ha, hl⟩ := c.exists_found_turns v o { monitor := m.expect stepCount }
      rw [← performAll_eq_foldl hc] at ha hl
      rw [Progress.analysis_of_found hc ha hl] at h
      cases h
      refine ⟨?_, ?_, rfl⟩
      · intro id hid
        simpa [Option.isSome_iff_ne_none] using List.find?_eq_none.mp hu id hid
      · rw [performAll_eq_foldl hc]
        simp only [Pass.all, List.foldl_cons, List.foldl_nil, graph_turn]

end Passes

section Results
variable {σ : Type} [Host σ] {c : Collector} {o : Options} {scene : σ} {m : Monitor} {out : Outcome σ} {id : NodeId}

/-- A node that a structural rule matches is an entrypoint. -/
theorem isSome_entrypoint?_of_classify {g : Graph} {rules : EntrypointRules} {v : SceneView} {n : GraphNode}
    (hn : n ∈ (g.withEntrypoints rules v).nodes) (hc : (rules.classify ⟨v, n.id⟩).isSome) : n.entrypoint?.isSome := by
  obtain ⟨slot, hslot, hn⟩ := List.mem_filterMap.mp hn
  obtain ⟨_ | n', -, rfl⟩ := List.mem_map.mp hslot
  · cases hn
  · obtain rfl := Option.some.inj hn
    dsimp only at hc ⊢
    cases hcause : rules.classify ⟨v, n'.id⟩ with
    | none => simp [hcause] at hc
    | some cause => exact Option.isSome_or.trans (by simp)

theorem countP_nodes_of_ok (h : (c.collect o scene m).result = .ok out) (id : NodeId) :
    out.analysis.graph.nodes.countP (·.id = id) = (Host.view scene).ids.count id := by
  obtain ⟨⟨a, ha, hgraph, -, -⟩, -⟩ := swept_of_ok h
  obtain ⟨htyped, hmarked, -⟩ := analysis_of_ok ha
  have hids : out.analysis.graph.nodes.map (·.id) = (Host.view scene).ids := by
    rw [hgraph, hmarked, map_id_nodes_withEntrypoints, nodes_draft htyped]
  rw [← hids, List.count, List.countP_map]
  rfl

/-- What the structural rules match is an entrypoint of the graph. -/
theorem exists_entrypoint_of_classify (h : (c.collect o scene m).result = .ok out) (id : NodeId)
    (hid : id ∈ (Host.view scene).ids) (hc : (c.rules.classify ⟨Host.view scene, id⟩).isSome) :
    ∃ n ∈ out.analysis.graph.nodes, n.id = id ∧ n.entrypoint?.isSome := by
  obtain ⟨⟨a, ha, hgraph, -, -⟩, -⟩ := swept_of_ok h
  have hpos : 0 < out.analysis.graph.nodes.countP (·.id = id) := by
    rw [countP_nodes_of_ok h id]
    exact List.count_pos_iff.mpr hid
  obtain ⟨n, hn, hnid⟩ := List.countP_pos_iff.mp hpos
  obtain rfl : n.id = id := of_decide_eq_true hnid
  rw [hgraph, (analysis_of_ok ha).2.1] at hn ⊢
  exact ⟨n, hn, rfl, isSome_entrypoint?_of_classify hn hc⟩

theorem isLive_of_entrypoint (h : (c.collect o scene m).result = .ok out) {n : GraphNode}
    (hn : n ∈ out.analysis.graph.nodes) (he : n.entrypoint?.isSome) (hsingle : (Host.view scene).ids.count n.id = 1) :
    out.analysis.liveness.isLive n.id = true := by
  obtain ⟨⟨a, ha, hgraph, hactiveness, hliveness⟩, -⟩ := swept_of_ok h
  obtain ⟨i, hi⟩ := Graph.mem_nodes.mp hn
  rw [hliveness, (analysis_of_ok ha).2.2, ← hgraph, ← hactiveness, Graph.isLive_iff_single,
    countP_nodes_of_ok h n.id]
  exact ⟨hsingle, i, n, hi, rfl, .entrypoint hi he⟩

theorem isDead_of_repeated (h : (c.collect o scene m).result = .ok out)
    (hrepeated : 2 ≤ (Host.view scene).ids.count id) : out.analysis.liveness.isDead id = true := by
  obtain ⟨⟨a, ha, hgraph, -, hliveness⟩, -⟩ := swept_of_ok h
  have hcount := countP_nodes_of_ok h id
  rw [hliveness, (analysis_of_ok ha).2.2, ← hgraph, Graph.isDead_iff_not_isLive]
  constructor
  · have hpos : 0 < out.analysis.graph.nodes.countP (·.id = id) := by omega
    simpa using hpos
  · rw [Bool.eq_false_iff, Ne, Graph.isLive_iff_single, hcount]
    omega

end Results

/-- An id is judged by what reaches it only if a single node carries it. So a run keeps an entrypoint that
the host lists once; one that is listed more often is dead and, unless the scene refuses, removed. -/
theorem entrypoint_survives_if_single (g : Graph) (t : ActivenessTable) (id : NodeId) :
    ((g.liveness t).isLive id = true ↔ g.nodes.countP (·.id = id) = 1 ∧
      ∃ i n, g.node? i = some n ∧ n.id = id ∧ g.Reaches (Edge.CanHold t) i) ∧
    ∀ (σ : Type) [Host σ] (c : Collector) (o : Options) (m : Monitor) (scene : σ) (out : Outcome σ),
      (c.collect o scene m).result = .ok out →
      ∀ n ∈ out.analysis.graph.nodes, n.id = id → n.entrypoint?.isSome →
        ((Host.view scene).ids.count id = 1 → out.analysis.liveness.isLive id = true ∧
          (∀ mapping, out.mapping? = some mapping → mapping.get? id = some (.kept id)) ∧
          (Host.RemovesOnly σ → id ∈ (Host.view out.scene).ids)) ∧
        (2 ≤ (Host.view scene).ids.count id → out.analysis.liveness.isDead id = true ∧
          ∀ mapping, out.mapping? = some mapping →
            mapping.get? id = some .removed ∨ ∃ e, .removalFailed id e ∈ out.analysis.diagnostics) := by
  refine ⟨Graph.isLive_iff_single, ?_⟩
  rintro σ _ c o m scene out h n hn rfl he
  constructor
  · intro hsingle
    have hlive := isLive_of_entrypoint h hn he hsingle
    have hid : n.id ∈ (Host.view scene).ids := List.count_pos_iff.mp (by omega)
    exact ⟨hlive, kept_of_not_dead h hid (Liveness.isDead_eq_false_of_isLive hlive)⟩
  · intro hrepeated
    have hdead := isDead_of_repeated h hrepeated
    have hid : n.id ∈ (Host.view scene).ids := List.count_pos_iff.mp (by omega)
    exact ⟨hdead, fun _ hmapping => tried_of_dead h hid hdead hmapping⟩

/-- A host whose nodes are all roots. It lists them as they come. -/
structure Roll where
  ids : List NodeId

instance : Host Roll where
  view s :=
    { ids := s.ids
      contains := fun id => id ∈ s.ids
      type? := fun id => if id ∈ s.ids then some "Transform" else none
      kind? := fun id => if id ∈ s.ids then some .transform else none
      parent? := fun _ => none
      enabled := fun id => id ∈ s.ids
      field? := fun _ _ => none }
  remove s id := if id ∈ s.ids then .ok ⟨s.ids.filter (· ≠ id)⟩ else .error (.nodeNotFound id)

theorem Roll.typed_view (s : Roll) : (Host.view s).Typed := by
  intro id hid
  have htype : (Host.view s).type? id = some "Transform" := if_pos hid
  rw [htype]
  rfl

theorem Roll.removesOnly : Host.RemovesOnly Roll := by
  intro s id s' h other hother hne
  simp only [Host.remove] at h
  split at h
  · cases h
    exact List.mem_filter.mpr ⟨hother, by simpa using hne⟩
  · cases h

/-- Three roots, two of them under one id. -/
def twins : Roll := ⟨[1, 1, 2]⟩

theorem exists_collect_twins : ∃ out, (Bundled.collector.collect {} twins {}).result = .ok out := by
  have hv := twins.typed_view
  have hquiet : ∀ pass, ¬ Bundled.collector.StopsIn (Host.view twins) pass := by
    rintro pass ⟨k, hk, -, hc⟩
    have hcancels : Bundled.collector.cancels (Host.view twins) = true := (exists_calls_iff hv).mp ⟨k, hk, hc⟩
    exact absurd hcancels (by decide)
  obtain ⟨⟨a, ha⟩, -⟩ := analyze_quiet (c := Bundled.collector) (o := {}) (m := {}) hv rfl hquiet
  obtain ⟨out, hout, -⟩ := conclude_eq {} twins (cancelled_analyze_of_ok ha) a
  exact ⟨out, by rw [collect_of_ok ha, hout]⟩

/-- Node 2 alone has its id, so it is kept. -/
theorem twins_keep_single : ∃ out, (Bundled.collector.collect {} twins {}).result = .ok out ∧
    out.analysis.liveness.isLive 2 = true ∧ 2 ∈ (Host.view out.scene).ids := by
  obtain ⟨out, hout⟩ := exists_collect_twins
  obtain ⟨n, hn, hid, he⟩ := exists_entrypoint_of_classify hout 2 (by decide) (by decide)
  obtain ⟨hlive, -, hkept⟩ := ((entrypoint_survives_if_single out.analysis.graph out.analysis.activeness 2).2 Roll
    Bundled.collector {} {} twins out hout n hn hid he).1 rfl
  exact ⟨out, hout, hlive, hkept Roll.removesOnly⟩

def namesakes : Graph where
  slots :=
    [some { id := 1, type := "T", kind := .transform, enabled := true, entrypoint? := some .root },
     some { id := 1, type := "T", kind := .transform, enabled := true, entrypoint? := some .root },
     some { id := 2, type := "T", kind := .transform, enabled := true, entrypoint? := some .root }]

/-- Both nodes of id 1 are entrypoints, yet the id is dead. So it is in the graph of a host that lists it twice,
and the run over the host removes it. -/
theorem twins_lose_entrypoint :
    ((∀ n ∈ namesakes.nodes, n.id = 1 → n.entrypoint? = some .root) ∧
      (namesakes.liveness (namesakes.activeness ∅)).isLive 1 = false ∧
      (namesakes.liveness (namesakes.activeness ∅)).isDead 1 = true) ∧
    ∃ out mapping, (Bundled.collector.collect {} twins {}).result = .ok out ∧
      (∃ n ∈ out.analysis.graph.nodes, n.id = 1 ∧ n.entrypoint?.isSome) ∧
      out.analysis.liveness.isLive 1 = false ∧ out.mapping? = some mapping ∧ mapping.get? 1 = some .removed := by
  constructor
  · have hlive : (namesakes.liveness (namesakes.activeness ∅)).isLive 1 = false := by
      refine Bool.eq_false_iff.mpr fun hlive => ?_
      exact absurd (Graph.isLive_iff_single.mp hlive).1 (by decide)
    exact ⟨by decide, hlive, Graph.isDead_iff_not_isLive.mpr ⟨⟨_, List.mem_cons_self, rfl⟩, hlive⟩⟩
  obtain ⟨out, hout⟩ := exists_collect_twins
  have hentry := exists_entrypoint_of_classify hout 1 (by decide) (by decide)
  obtain ⟨other, hother, hid, he⟩ := exists_entrypoint_of_classify hout 2 (by decide) (by decide)
  have hlive := isLive_of_entrypoint hout hother he (by rw [hid]; rfl)
  rw [hid] at hlive
  have hspared := Liveness.isDead_eq_false_of_isLive hlive
  have hdead : out.analysis.liveness.isDead 1 = true := isDead_of_repeated hout (by decide)
  have hkeys : (RemovalMap.keeping (Host.view twins).ids).entries.keys = [1, 2] := rfl
  have hagenda : Sweep.agenda (Host.view twins) (.keeping (Host.view twins).ids) out.analysis.liveness = [1] := by
    simp [Sweep.agenda, hkeys, hdead, hspared]
  obtain ⟨-, ⟨hdry, -⟩ | ⟨hmapping, -⟩⟩ := swept_of_ok hout
  · cases hdry
  refine ⟨out, _, hout, hentry, ?_, hmapping, ?_⟩
  · exact Bool.eq_false_iff.mpr fun hlive => by simp [Liveness.isDead_eq_false_of_isLive hlive] at hdead
  · rw [Sweep.run, hagenda]
    rfl

end ScenePrune.Collector

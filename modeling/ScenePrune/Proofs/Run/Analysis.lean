import ScenePrune.Proofs.Graph.Chains
import ScenePrune.Proofs.Graph.Construction
import ScenePrune.Proofs.Graph.Verdicts
import ScenePrune.Proofs.Plugin.Locality
import ScenePrune.Proofs.Scene.Invariant

/-! # What a run finds

On a well-listed scene a run either is cancelled or ends with one and the same analysis, whatever
its options and its monitor: the closed-form graph, its activeness and its liveness.
-/
namespace ScenePrune

namespace Progress
variable {p : Progress}

theorem analysis_of_cancelled (h : p.monitor.cancelled = true) : p.analysis = .error .cancelled := by
  rw [analysis, h]
  rfl

theorem analysis_of_found (hp : p.monitor.cancelled = false) {activeness : ActivenessTable} {liveness : Liveness}
    (ha : p.activeness? = some activeness) (hl : p.liveness? = some liveness) : p.analysis =
      .ok { graph := p.graph, activeness, liveness, diagnostics := p.diagnostics, dot? := p.dot? } := by
  rw [analysis, hp, ha, hl]
  rfl

end Progress

namespace Collector

variable (c : Collector) (v : SceneView)

def cancels : Bool := v.ids.any fun id => c.pluginCancels v id || c.rules.cancels ⟨v, id⟩

theorem cancels_lamp : Bundled.collector.cancels (Host.view Scene.lamp) = false := by decide

def activeness : ActivenessTable := (c.graph v).activeness (c.draft v).writers

def liveness : Liveness := (c.graph v).liveness (c.activeness v)

def analysis (options : Options) : Analysis where
  graph := c.graph v
  activeness := c.activeness v
  liveness := c.liveness v
  diagnostics := (c.draft v).diagnostics
  dot? := if options.exportDot then some (c.graph v).dot else none

/-- Announcing a pass has no influence on what it finds. -/
theorem announce_eq (options : Options) (p : Progress) (pass : Pass) :
    ∃ printed, c.announce options v p pass =
    { c.perform v { p with monitor := p.monitor.say pass.status } pass with
      monitor := (c.perform v { p with monitor := p.monitor.say pass.status } pass).monitor.advance
      printed } := by
  unfold announce
  split
  · exact ⟨_, rfl⟩
  · exact ⟨_, rfl⟩

variable {c v} {o : Options} {p : Progress} {pass : Pass} {m : Monitor}

theorem performAll_cancelled {passes : List Pass} (h : p.monitor.cancelled = true) :
    (c.performAll o v passes p).monitor.cancelled = true := by
  induction passes generalizing p with
  | nil => exact h
  | cons pass rest ih =>
    unfold performAll
    split
    · exact ih h
    · exact h

theorem performAll_cons {passes : List Pass} (he : pass.isEnabled o = true)
    (h : p.monitor.cancelled = false) :
    c.performAll o v (pass :: passes) p = c.performAll o v passes (c.announce o v p pass) := by
  rw [performAll, he, h]
  rfl

theorem performAll_dot (h : p.monitor.cancelled = false) :
    ∃ printed monitor', monitor'.cancelled = false ∧ c.performAll o v [.dot] p =
      { p with dot? := if o.exportDot then some p.graph.dot else p.dot?, monitor := monitor', printed } := by
  cases hd : o.exportDot with
  | false => exact ⟨p.printed, p.monitor.advance, h, by simp [performAll, Pass.isEnabled, hd]⟩
  | true =>
    have he : Pass.isEnabled o .dot = true := hd
    rw [performAll_cons he h]
    obtain ⟨printed, ha⟩ := c.announce_eq v o p .dot
    exact ⟨printed, (p.monitor.say Pass.dot.status).advance, h, ha⟩

theorem cancelled_draft (hv : v.Typed) :
    (c.draft v).cancelled = v.ids.any (c.pluginCancels v) := by
  rw [draft, Graph.draft, Draft.cancelled_foldl]
  apply Bool.eq_iff_iff.mpr
  simp [cancel_mem_contributions hv]

theorem nodes_draft (hv : v.Typed) : (c.draft v).graph.nodes.map (·.id) = v.ids := by
  have hslots : (c.draft v).graph.slots.map (Option.map (·.id)) = v.ids.map some := by
    apply List.ext_getElem?
    intro i
    rw [draft, Graph.draft, List.getElem?_map, Draft.getElem?_slots_foldl, Graph.enroll_empty hv,
      List.getElem?_map, List.getElem?_map]
    cases v.ids[i]? <;> simp [Contribution.id_foldl_touch, SceneView.bareNode, Graph.nodeOf]
  have h := congrArg (List.filterMap id) hslots
  rw [List.filterMap_map, List.filterMap_map] at h
  rw [Graph.nodes, List.map_filterMap]
  exact h.trans List.filterMap_some

theorem any_cancels_draft (hv : v.Typed) :
    ((c.draft v).graph.nodes.any fun n => c.rules.cancels ⟨v, n.id⟩) = v.ids.any fun id => c.rules.cancels ⟨v, id⟩ := by
  rw [← nodes_draft (c := c) hv, List.any_map]
  rfl

theorem announce_dependencies (hm : m.cancelled = false) (hd : (c.draft v).cancelled = false) :
    ∃ monitor' warnings printed, monitor'.cancelled = false ∧
      c.announce o v { monitor := m } .dependencies =
        { monitor := monitor', graph := (c.draft v).graph, writers? := some (c.draft v).writers
          diagnostics := (c.draft v).diagnostics, warnings, printed } := by
  obtain ⟨printed, h⟩ := c.announce_eq v o { monitor := m } .dependencies
  refine ⟨_, _, printed, ?_, h⟩
  have hdraft : ((∅ : Graph).draft v c.registry c.animations).cancelled = false := hd
  simpa [perform, withGraph, hdraft, Monitor.advance, Monitor.say] using hm

theorem announce_entrypoints (hp : p.monitor.cancelled = false)
    (hr : (p.graph.nodes.any fun n => c.rules.cancels ⟨v, n.id⟩) = false) :
    ∃ monitor' printed, monitor'.cancelled = false ∧ c.announce o v p .entrypoints =
      { p with monitor := monitor', graph := p.graph.withEntrypoints c.rules v, printed } := by
  obtain ⟨printed, h⟩ := c.announce_eq v o p .entrypoints
  refine ⟨_, printed, ?_, h⟩
  simpa [perform, withEntrypoints, hr, Monitor.advance, Monitor.say] using hp

theorem announce_activeness (hp : p.monitor.cancelled = false) :
    ∃ monitor' warnings printed, monitor'.cancelled = false ∧ c.announce o v p .activeness =
      { p with monitor := monitor', activeness? := some (p.graph.activeness (p.writers?.getD ∅))
               warnings, printed } := by
  obtain ⟨printed, h⟩ := c.announce_eq v o p .activeness
  exact ⟨(p.monitor.say _).advance, _, printed, hp, h⟩

theorem announce_liveness (hp : p.monitor.cancelled = false) :
    ∃ monitor' printed, monitor'.cancelled = false ∧ c.announce o v p .liveness =
      { p with monitor := monitor', liveness? := some (p.graph.liveness (p.activeness?.getD ∅)), printed } := by
  obtain ⟨printed, h⟩ := c.announce_eq v o p .liveness
  exact ⟨(p.monitor.say _).advance, printed, hp, h⟩

/-- The passes of a run that nobody cancels leave the closed-form analysis behind. -/
theorem performAll_eq (hv : v.WellListed) (hm : m.cancelled = false)
    (hd : (c.draft v).cancelled = false)
    (hr : ((c.draft v).graph.nodes.any fun n => c.rules.cancels ⟨v, n.id⟩) = false) :
    ∃ monitor' warnings printed, monitor'.cancelled = false ∧
      c.performAll o v Pass.all { monitor := m } =
        { monitor := monitor', graph := c.graph v, writers? := some (c.draft v).writers
          activeness? := some (c.activeness v), liveness? := some (c.liveness v)
          dot? := if o.exportDot then some (c.graph v).dot else none
          diagnostics := (c.draft v).diagnostics, warnings, printed } := by
  obtain ⟨m₁, w₁, printed₁, hm₁, h₁⟩ := announce_dependencies (c := c) (v := v) (o := o) hm hd
  let p₁ : Progress := ⟨m₁, (c.draft v).graph, some (c.draft v).writers, none, none, none,
    (c.draft v).diagnostics, w₁, printed₁⟩
  obtain ⟨m₂, printed₂, hm₂, h₂⟩ := announce_entrypoints (c := c) (v := v) (o := o) (p := p₁) hm₁ hr
  rw [graph_eq hv] at h₂
  let p₂ : Progress := { p₁ with monitor := m₂, graph := c.graph v, printed := printed₂ }
  obtain ⟨m₃, w₃, printed₃, hm₃, h₃⟩ := announce_activeness (c := c) (v := v) (o := o) (p := p₂) hm₂
  let p₃ : Progress := { p₂ with
    monitor := m₃, activeness? := some (c.activeness v), warnings := w₃, printed := printed₃ }
  obtain ⟨m₄, printed₄, hm₄, h₄⟩ := announce_liveness (c := c) (v := v) (o := o) (p := p₃) hm₃
  let p₄ : Progress := { p₃ with
    monitor := m₄, liveness? := some (c.liveness v), printed := printed₄ }
  obtain ⟨printed₅, m₅, hm₅, h₅⟩ := performAll_dot (c := c) (v := v) (o := o) (p := p₄) hm₄
  refine ⟨m₅, w₃, printed₅, hm₅, ?_⟩
  calc c.performAll o v Pass.all { monitor := m }
      = c.performAll o v [.entrypoints, .activeness, .liveness, .dot] p₁ := by
        rw [Pass.all, performAll_cons rfl hm, h₁]
    _ = c.performAll o v [.activeness, .liveness, .dot] p₂ := by rw [performAll_cons rfl hm₁, h₂]
    _ = c.performAll o v [.liveness, .dot] p₃ := by rw [performAll_cons rfl hm₂, h₃]; rfl
    _ = c.performAll o v [.dot] p₄ := by rw [performAll_cons rfl hm₃, h₄]; rfl
    _ = _ := h₅

theorem cancels_eq (hv : v.Typed) : c.cancels v =
    ((c.draft v).cancelled || (c.draft v).graph.nodes.any fun n => c.rules.cancels ⟨v, n.id⟩) := by
  rw [cancelled_draft hv, any_cancels_draft hv, cancels]
  apply Bool.eq_iff_iff.mpr
  simp only [List.any_eq_true, Bool.or_eq_true, and_or_left, exists_or]

/-- A run is cancelled in the end if it is so at the start or if a callback asks for it. -/
theorem performAll_cancelled_of_cancels (hv : v.Typed)
    (h : m.cancelled = true ∨ c.cancels v = true) :
    (c.performAll o v Pass.all { monitor := m }).monitor.cancelled = true := by
  cases hm : m.cancelled with
  | true => exact performAll_cancelled hm
  | false =>
    have hc : c.cancels v = true := h.resolve_left (by simp [hm])
    rw [cancels_eq hv] at hc
    cases hd : (c.draft v).cancelled with
    | true =>
      obtain ⟨printed, ha⟩ := c.announce_eq v o { monitor := m } .dependencies
      have hdraft : ((∅ : Graph).draft v c.registry c.animations).cancelled = true := hd
      rw [Pass.all, performAll_cons rfl hm, ha]
      apply performAll_cancelled
      simp [perform, withGraph, hdraft, Monitor.advance, Monitor.cancel]
    | false =>
      have hr : ((c.draft v).graph.nodes.any fun n => c.rules.cancels ⟨v, n.id⟩) = true := by
        simpa [hd] using hc
      obtain ⟨m₁, w₁, printed₁, hm₁, h₁⟩ := announce_dependencies (c := c) (v := v) (o := o) hm hd
      let p₁ : Progress := ⟨m₁, (c.draft v).graph, some (c.draft v).writers, none, none, none,
        (c.draft v).diagnostics, w₁, printed₁⟩
      obtain ⟨printed₂, h₂⟩ := c.announce_eq v o p₁ .entrypoints
      have hstep : c.performAll o v Pass.all { monitor := m } =
          c.performAll o v [.activeness, .liveness, .dot] (c.announce o v p₁ .entrypoints) := by
        rw [Pass.all, performAll_cons rfl hm, h₁]
        exact performAll_cons rfl hm₁
      rw [hstep, h₂]
      apply performAll_cancelled
      have hp₁ : (p₁.graph.nodes.any fun n => c.rules.cancels ⟨v, n.id⟩) = true := hr
      simp [perform, withEntrypoints, hp₁, Monitor.advance, Monitor.cancel]

section Chains
variable {id : NodeId}

abbrev extendChain (c : Collector) (v : SceneView) (id : NodeId) (above : Chain) : Chain :=
  above.extend (c.draft v).writers (v.place id) (c.nodeAt v id)

theorem enabled_extendChain (above : Chain) :
    (c.extendChain v id above).enabled = (v.enabled id && above.enabled) := rfl

theorem written_extendChain (above : Chain) : (c.extendChain v id above).written =
    ((c.draft v).writers.isWritten (v.place id) (v.switch id) || above.written) := rfl

theorem hasChain_top (hid : id ∈ v.ids) (hp : v.listedParent? id = none) :
    (c.graph v).HasChain (c.draft v).writers (v.place id) (c.extendChain v id .top) := by
  refine .top (node?_graph hid) ?_
  rw [nodeAt, hp]
  rfl

theorem hasChain_child (hid : id ∈ v.ids) {parent : NodeId} (hp : v.listedParent? id = some parent) {above : Chain}
    (h : (c.graph v).HasChain (c.draft v).writers (v.place parent) above) :
    (c.graph v).HasChain (c.draft v).writers (v.place id) (c.extendChain v id above) := by
  refine .child (node?_graph hid) ?_ h
  rw [nodeAt, hp]
  rfl

/-- Induction along the chain of a listed node, from the top down. -/
theorem hasChain_induction {motive : NodeId → Chain → Prop}
    (htop : ∀ id ∈ v.ids, v.listedParent? id = none → motive id (c.extendChain v id .top))
    (hchild : ∀ id ∈ v.ids, ∀ parent above, v.listedParent? id = some parent → motive parent above →
      motive id (c.extendChain v id above)) (hid : id ∈ v.ids) {chain : Chain}
    (h : (c.graph v).HasChain (c.draft v).writers (v.place id) chain) : motive id chain := by
  generalize hi : v.place id = i at h
  induction h generalizing id with
  | top hn hp =>
    subst hi
    obtain rfl := Option.some.inj ((node?_graph hid).symm.trans hn)
    have hnone : (v.listedParent? id).map v.place = none := hp
    exact htop id hid (Option.map_eq_none_iff.mp hnone)
  | @child i p n above hn hp _ ih =>
    subst hi
    obtain rfl := Option.some.inj ((node?_graph hid).symm.trans hn)
    have hsome : (v.listedParent? id).map v.place = some p := hp
    obtain ⟨parent, hlisted, rfl⟩ := Option.map_eq_some_iff.mp hsome
    exact hchild id hid parent above hlisted (ih (SceneView.listedParent?_eq_some.mp hlisted).2 rfl)

end Chains

section Verdicts
variable {id : NodeId}

theorem isLive_iff_reaches (hv : v.WellListed) (hid : id ∈ v.ids) : (c.liveness v).isLive id = true ↔
    (c.graph v).Reaches (fun e => e.isTraversable (c.activeness v) = true) (v.place id) :=
  (distinctIds_graph hv).isLive_iff (node?_graph hid)

theorem isLive_of_cause (hv : v.WellListed) (hid : id ∈ v.ids) (hcause : (c.cause? v id).isSome) :
    (c.liveness v).isLive id = true :=
  (isLive_iff_reaches hv hid).mpr (.entrypoint (node?_graph hid) hcause)

theorem verdict?_liveness (hv : v.WellListed) (hid : id ∈ v.ids) : (c.liveness v).verdict? id =
    some (Graph.verdictOf ((c.graph v).reasons (c.activeness v)) id) := by
  have hn : c.nodeAt v id ∈ (c.graph v).nodes := nodes_graph ▸ List.mem_map_of_mem hid
  exact (distinctIds_graph hv).verdict?_eq hn

theorem isDead_eq_not_isLive (hv : v.WellListed) (hid : id ∈ v.ids) :
    (c.liveness v).isDead id = !(c.liveness v).isLive id := by
  have hn : c.nodeAt v id ∈ (c.graph v).nodes := nodes_graph ▸ List.mem_map_of_mem hid
  apply Bool.eq_iff_iff.mpr
  rw [Bool.not_eq_true']
  exact (distinctIds_graph hv).isDead_iff hn

/-- A link that counts makes its target live if its source is. -/
theorem isLive_target (hv : v.WellListed) {l : Link} (hl : l ∈ c.links v)
    (hcount : (l.edge v).isTraversable (c.activeness v) = true)
    (hsource : (c.liveness v).isLive l.source = true) : (c.liveness v).isLive l.target = true := by
  obtain ⟨hs, ht⟩ := isListed_of_mem_links hl
  rw [isLive_iff_reaches hv hs] at hsource
  rw [isLive_iff_reaches hv ht]
  have htarget : ((c.graph v).node? (v.place l.target)).isSome := by rw [node?_graph ht]; rfl
  exact .edge (e := l.edge v) hsource (List.mem_map_of_mem hl) hcount htarget

/-- Whatever the activeness, a live node keeps its parent. -/
theorem isLive_listedParent (hv : v.WellListed) {parent : NodeId} (hid : id ∈ v.ids)
    (hp : v.listedParent? id = some parent) (hlive : (c.liveness v).isLive id = true) :
    (c.liveness v).isLive parent = true := by
  have hl : ⟨id, parent, .hierarchy, .evenIfDisabled⟩ ∈ c.links v := mem_links_iff.mpr (.parent hid hp)
  exact isLive_target hv hl rfl hlive

/-- Whatever the activeness, a live node keeps whoever switches it. -/
theorem isLive_writer (hv : v.WellListed) {writer : NodeId} (hid : id ∈ v.ids) (hw : writer ∈ v.ids)
    (hwrites : c.Writes v writer id (v.switch id)) (hlive : (c.liveness v).isLive id = true) :
    (c.liveness v).isLive writer = true := by
  by_cases hself : writer = id
  · exact hself ▸ hlive
  have hl : ⟨id, writer, .mutation, .evenIfDisabled⟩ ∈ c.links v := mem_links_iff.mpr (.switched hid hw hself hwrites)
  exact isLive_target hv hl rfl hlive

theorem mem_ids_of_isLive (hv : v.WellListed) (hlive : (c.liveness v).isLive id = true) : id ∈ v.ids := by
  obtain ⟨n, hn, rfl⟩ := (distinctIds_graph hv).exists_of_isLive hlive
  rw [nodes_graph] at hn
  obtain ⟨id, hid, rfl⟩ := List.mem_map.mp hn
  exact hid

end Verdicts

section Answers
variable {a : Analysis}

theorem activeness?_eq (hv : v.WellListed) (hg : a.graph = c.graph v) (ht : a.activeness = c.activeness v)
    (id : NodeId) :
    a.activeness? id = if id ∈ v.ids then some ((c.activeness v).get (v.place id)) else none := by
  rw [Analysis.activeness?, hg, ht, indexOf?_graph hv]
  split <;> rfl

theorem node?_eq (hv : v.WellListed) (hg : a.graph = c.graph v) (id : NodeId) :
    a.node? id = if id ∈ v.ids then some (c.nodeAt v id) else none := by
  rw [Analysis.node?, hg, indexOf?_graph hv]
  split
  case isTrue hid => exact node?_graph hid
  case isFalse => rfl

end Answers

theorem untyped?_eq_none (hv : v.Typed) : untyped? v = none := by
  simpa [untyped?] using fun id hid => Option.isSome_iff_ne_none.mp (hv id hid)

theorem analyze_result (hv : v.WellListed) : (c.analyze o v m).result =
    if m.cancelled || c.cancels v then .error .cancelled else .ok (c.analysis v o) := by
  simp only [analyze, untyped?_eq_none hv.typed]
  by_cases h : m.cancelled = true ∨ c.cancels v = true
  · have hend := performAll_cancelled_of_cancels (m := m.expect stepCount) (o := o) hv.typed h
    rw [Progress.analysis_of_cancelled hend, if_pos (by simpa using h)]
  · simp only [not_or, Bool.not_eq_true] at h
    have hc := h.2
    rw [cancels_eq hv.typed, Bool.or_eq_false_iff] at hc
    obtain ⟨monitor', warnings, printed, hm, hp⟩ :=
      performAll_eq (m := m.expect stepCount) (o := o) hv h.1 hc.1 hc.2
    have hquiet : ¬ (m.cancelled || c.cancels v) = true := by simp [h]
    rw [hp, Progress.analysis_of_found hm rfl rfl, if_neg hquiet]
    rfl

theorem analyze_eq_ok (hv : v.WellListed) (h : (c.analyze o v m).result ≠ .error .cancelled) :
    (c.analyze o v m).result = .ok (c.analysis v o) := by
  rw [analyze_result hv] at h ⊢
  split
  case isTrue hc => exact absurd (if_pos hc) h
  case isFalse => rfl

/-- A run with an analysis to go on was not cancelled. -/
theorem cancelled_analyze_of_ok {a : Analysis} (h : (c.analyze o v m).result = .ok a) :
    (c.analyze o v m).monitor.cancelled = false := by
  simp only [analyze] at h ⊢
  split at h
  case h_1 => cases h
  case h_2 =>
    refine Bool.eq_false_iff.mpr fun hcancelled => ?_
    rw [Progress.analysis_of_cancelled hcancelled] at h
    cases h

section Results
variable {σ : Type} [Host σ] {scene : σ} {e : RunError}

theorem collect_of_error (h : (c.analyze o (Host.view scene) m).result = .error e) :
    c.collect o scene m = { c.analyze o (Host.view scene) m with result := .error e, scene } := by
  simp only [collect, h]

theorem collect_of_ok {a : Analysis} (h : (c.analyze o (Host.view scene) m).result = .ok a) :
    c.collect o scene m = conclude o scene (c.analyze o (Host.view scene) m) a := by
  simp only [collect, h]

end Results

end Collector

end ScenePrune

import ScenePrune.Proofs.Run.Analysis
import ScenePrune.Proofs.Sweep

/-! # What a run leaves behind

A run that is not cancelled ends with `Collector.outcome`, whatever its monitor: its analysis in
closed form, and unless it is a dry run the sweep of its scene.
-/
namespace ScenePrune

namespace Collector
variable {σ : Type} [Host σ] (c : Collector) (o : Options) (scene : σ)

def outcome : Outcome σ :=
  let analysis := c.analysis (Host.view scene) o
  let s := Sweep.run scene analysis.liveness
  if o.dryRun then { analysis, scene, mapping? := none }
  else
    { analysis := { analysis with diagnostics := analysis.diagnostics ++ s.diagnostics }
      scene := s.scene
      mapping? := some s.mapping }

variable {c o scene} {m : Monitor}

/-- A run either is cancelled or ends with the outcome in closed form. -/
theorem collect_result (hv : (Host.view scene).WellListed) : (c.collect o scene m).result =
    if m.cancelled || c.cancels (Host.view scene) then .error .cancelled else .ok (c.outcome o scene) := by
  have hr := analyze_result (c := c) (o := o) (m := m) hv
  split at hr
  case isTrue h => rw [collect_of_error hr, if_pos h]
  case isFalse h =>
    rw [collect_of_ok hr, if_neg h, conclude, cancelled_analyze_of_ok hr, outcome]
    cases o.dryRun <;> rfl

theorem collect_eq_ok (hv : (Host.view scene).WellListed) (h : (c.collect o scene m).result ≠ .error .cancelled) :
    (c.collect o scene m).result = .ok (c.outcome o scene) := by
  rw [collect_result hv] at h ⊢
  split
  case isTrue hc => exact absurd (if_pos hc) h
  case isFalse => rfl

theorem collect_eq_ok_iff (hv : (Host.view scene).WellListed) {out : Outcome σ} :
    (c.collect o scene m).result = .ok out ↔
      (m.cancelled = false ∧ c.cancels (Host.view scene) = false) ∧ out = c.outcome o scene := by
  rw [collect_result hv]
  cases m.cancelled <;> cases c.cancels (Host.view scene) <;> simp [eq_comm]

theorem collect_lamp : (Bundled.collector.collect {} Scene.lamp {}).result =
    .ok (Bundled.collector.outcome {} Scene.lamp) :=
  (collect_eq_ok_iff Scene.lamp_reachable.wellFormed.wellListed).mpr ⟨⟨rfl, cancels_lamp⟩, rfl⟩

theorem outcome_graph : (c.outcome o scene).analysis.graph = c.graph (Host.view scene) := by
  unfold outcome
  split <;> rfl

theorem outcome_liveness : (c.outcome o scene).analysis.liveness = c.liveness (Host.view scene) := by
  unfold outcome
  split <;> rfl

theorem outcome_activeness : (c.outcome o scene).analysis.activeness = c.activeness (Host.view scene) := by
  unfold outcome
  split <;> rfl

section Sweeps
variable {out : Outcome σ} {id : NodeId}

/-- A run that ends has swept the scene by its own verdicts, unless it is a dry one. -/
theorem swept_of_ok (h : (c.collect o scene m).result = .ok out) :
    (∃ a, (c.analyze o (Host.view scene) m).result = .ok a ∧ out.analysis.graph = a.graph ∧
      out.analysis.activeness = a.activeness ∧ out.analysis.liveness = a.liveness) ∧
    ((o.dryRun = true ∧ out.mapping? = none ∧ out.scene = scene) ∨
      out.mapping? = some (Sweep.run scene out.analysis.liveness).mapping ∧
        out.scene = (Sweep.run scene out.analysis.liveness).scene ∧
        (Sweep.run scene out.analysis.liveness).diagnostics ⊆ out.analysis.diagnostics) := by
  cases ha : (c.analyze o (Host.view scene) m).result with
  | error e =>
    rw [collect_of_error ha] at h
    cases h
  | ok a =>
    rw [collect_of_ok ha, conclude, cancelled_analyze_of_ok ha] at h
    cases hd : o.dryRun with
    | true =>
      rw [hd] at h
      cases h
      exact ⟨⟨a, rfl, rfl, rfl, rfl⟩, Or.inl ⟨rfl, rfl, rfl⟩⟩
    | false =>
      rw [hd] at h
      cases h
      exact ⟨⟨a, rfl, rfl, rfl, rfl⟩, Or.inr ⟨rfl, rfl, List.subset_append_right _ _⟩⟩

/-- What is not dead is kept: the mapping says so, and it stays if removing takes no other node away. -/
theorem kept_of_not_dead (h : (c.collect o scene m).result = .ok out) (hid : id ∈ (Host.view scene).ids)
    (hspared : out.analysis.liveness.isDead id = false) :
    (∀ mapping, out.mapping? = some mapping → mapping.get? id = some (.kept id)) ∧
      (Host.RemovesOnly σ → id ∈ (Host.view out.scene).ids) := by
  obtain ⟨-, ⟨-, hnone, hscene⟩ | ⟨hsome, hscene, -⟩⟩ := swept_of_ok h
  · exact ⟨fun mapping hmapping => by simp [hnone] at hmapping, fun _ => hscene ▸ hid⟩
  · rw [hsome, hscene]
    constructor
    · rintro _ ⟨⟩
      exact Sweep.get?_run_of_not_dead hid hspared
    · exact fun hremoves => Sweep.mem_ids_run_of_not_dead hremoves hid hspared

/-- What is dead is gone, or the scene refused to remove it and the run reports this. -/
theorem tried_of_dead (h : (c.collect o scene m).result = .ok out) (hid : id ∈ (Host.view scene).ids)
    (hdead : out.analysis.liveness.isDead id = true) {mapping : RemovalMap} (hmapping : out.mapping? = some mapping) :
    mapping.get? id = some .removed ∨ ∃ e, .removalFailed id e ∈ out.analysis.diagnostics := by
  obtain ⟨-, ⟨-, hnone, -⟩ | ⟨hsome, -, hdiagnostics⟩⟩ := swept_of_ok h
  · simp [hnone] at hmapping
  · obtain rfl := Option.some.inj (hsome.symm.trans hmapping)
    rcases Sweep.tried_run hid hdead with hgone | ⟨e, hrefused⟩
    · exact Or.inl hgone
    · exact Or.inr ⟨e, hdiagnostics hrefused⟩

end Sweeps

end Collector

end ScenePrune

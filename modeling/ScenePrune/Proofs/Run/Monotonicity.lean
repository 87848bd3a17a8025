import ScenePrune.Proofs.Animations
import ScenePrune.Proofs.Plugin.Extension
import ScenePrune.Proofs.Run.Comparison
import ScenePrune.Proofs.Run.Entrypoints

/-! # Being told more keeps more

Whoever tells an analysis of more writers, entrypoints, edges or mutations gets no node killed by it, and
none that could be active is held to be inactive for it. There is one exception: a plugin that fails makes its
node an entrypoint, so a replacement that declares as much and does not fail may let the node go.
-/
namespace ScenePrune

structure EntrypointRules.Extends (r r' : EntrypointRules) : Prop where
  types : r.types ⊆ r'.types
  predicates : r.predicates ⊆ r'.predicates
  roots : r.roots = true → r'.roots = true

theorem EntrypointRules.Extends.isSome_classify {r r' : EntrypointRules} (h : r.Extends r') {n : Subject}
    (hc : (r.classify n).isSome) : (r'.classify n).isSome := by
  rw [EntrypointRules.isSome_classify] at hc ⊢
  rcases hc with ⟨hroots, hp⟩ | ⟨type, htype, hmem⟩ | ⟨p, hp, hholds⟩
  · exact Or.inl ⟨h.roots hroots, hp⟩
  · exact Or.inr (Or.inl ⟨type, htype, h.types hmem⟩)
  · exact Or.inr (Or.inr ⟨p, h.predicates hp, hholds⟩)

namespace Collector

/-- The second collector has larger rules, a larger animation table, and plugins that are related to those of
the first one. -/
structure Grows (R : Plugin → Plugin → Prop) (c c' : Collector) : Prop where
  registry : c.registry.Replaces R c'.registry
  rules : c.rules.Extends c'.rules
  animations : ∀ node property writer, c.animations.Tells node property writer →
    c'.animations.Tells node property writer

section Growth
variable {c c' : Collector} {v : SceneView} {id : NodeId}

namespace Grows

theorem writes (h : c.Grows (Plugin.Extends v) c') {writer target : NodeId} {property : String}
    (hw : c.Writes v writer target property) : c'.Writes v writer target property := by
  rcases hw with ⟨hlisted, p, hp, m, hm, ht, hpath⟩ | htells
  · obtain ⟨p', hp', hmore⟩ := h.registry.lookup_ok hp
    exact Or.inl ⟨hlisted, p', hp', m, hmore.mutations writer hlisted hm, ht, hpath⟩
  · exact Or.inr (h.animations _ _ _ htells)

theorem asks (h : c.Grows (Plugin.Extends v) c') {l : Link} (hl : c.Asks v l) : c'.Asks v l := by
  cases hl with
  | parent hid hp => exact .parent hid hp
  | declared hid hp hd hs ht =>
    obtain ⟨p', hp', hmore⟩ := h.registry.lookup_ok hp
    exact .declared hid hp' (hmore.dependencies _ hid hd) hs ht
  | switched ht hw hne hwrites => exact .switched ht hw hne (h.writes hwrites)

theorem isSome_declaredCause? (h : c.Grows (Plugin.Extends v) c') (hid : id ∈ v.ids)
    (hc : (c.declaredCause? v id).isSome) : (c'.declaredCause? v id).isSome := by
  rw [Collector.isSome_declaredCause?] at hc ⊢
  rcases hc with ⟨e, he⟩ | ⟨p, hp, hmark⟩
  · exact Or.inl ⟨e, h.registry.lookup_error he⟩
  · obtain ⟨p', hp', hmore⟩ := h.registry.lookup_ok hp
    refine Or.inr ⟨p', hp', ?_⟩
    rcases hmark with hmark | hfails
    · exact Or.inl (hmore.dependencies id hid hmark)
    · exact (hmore.failure id hid hfails).symm

theorem covers (h : c.Grows (Plugin.Extends v) c') (hv : v.WellListed) : c.Covers v c' v where
  wellListed := hv
  wellListed' := hv
  ids := fun _ hid => hid
  parent := fun _ _ => rfl
  enabled := fun _ _ => rfl
  written := fun _ _ _ hw => h.writes hw
  cause := by
    intro id hid hc
    rw [isSome_cause?] at hc ⊢
    exact hc.imp (h.isSome_declaredCause? hid) h.rules.isSome_classify
  links := by
    intro l hl
    rw [mem_links_iff] at hl ⊢
    exact h.asks hl

end Grows

end Growth

/-- A collector that is told more keeps all live nodes live, and what could be active still can, provided
that a plugin fails, or marks the node, where the one that it replaces fails. -/
theorem analyze_monotone (c c' : Collector) (v : SceneView) (hv : v.WellListed)
    (h : c.Grows (Plugin.Extends v) c') (o o' : Options) (m m' : Monitor)
    (hrun : (c.analyze o v m).result ≠ .error .cancelled) (hrun' : (c'.analyze o' v m').result ≠ .error .cancelled) :
    ∃ a a', (c.analyze o v m).result = .ok a ∧ (c'.analyze o' v m').result = .ok a' ∧
      (∀ id, a.liveness.isLive id = true → a'.liveness.isLive id = true) ∧
      ∀ id ∈ v.ids, ∃ x x', a.activeness? id = some x ∧ a'.activeness? id = some x' ∧
        (x ≠ .alwaysInactive → x' ≠ .alwaysInactive) := by
  have hcovers := h.covers hv
  refine ⟨c.analysis v o, c'.analysis v o', analyze_eq_ok hv hrun, analyze_eq_ok hv hrun', ?_, ?_⟩
  · exact fun id hlive => hcovers.isLive hlive
  intro id hid
  have hfound := (activeness?_eq (a := c.analysis v o) hv rfl rfl id).trans (if_pos hid)
  have hfound' := (activeness?_eq (a := c'.analysis v o') hv rfl rfl id).trans (if_pos hid)
  refine ⟨_, _, hfound, hfound', ?_⟩
  simpa [Activeness.canBeActive] using hcovers.canBeActive hid

def bench : Listing := .ofList
    [(0, { type? := some "Transform", kind? := some .transform }),
     (1, { type? := some "Probe", kind? := some .component, parent? := some 0 })] []

def silent : Plugin where
  name := "silent"
  dependencies _ := {}

def faulty : Plugin where
  name := "faulty"
  dependencies _ := { failure? := some (.invalid "unreadable") }

def clamp : Plugin where
  name := "clamp"
  dependencies n := { items := [.edge n.id 0 .plain], failure? := some (.invalid "unreadable") }

def probing (p : Plugin) : Collector where
  registry := ⟨⟨[("Transform", silent), ("Probe", p)]⟩, ∅⟩
  rules := {}

theorem ids_bench : (Host.view bench).ids = [0, 1] := rfl

theorem wellListed_bench : (Host.view bench).WellListed := Listing.wellListed_view (by decide)

theorem replaces_probing {R : Plugin → Plugin → Prop} {p p' : Plugin} (hs : R silent silent) (hp : R p p') :
    (probing p).registry.Replaces R (probing p').registry :=
  .of_forall₂ rfl (.cons ⟨rfl, hs⟩ (.cons ⟨rfl, hp⟩ .nil))

theorem analyze_bench {c : Collector} (h : c.cancels (Host.view bench) = false) :
    (c.analyze {} (Host.view bench) {}).result = .ok (c.analysis (Host.view bench) {}) := by
  rw [analyze_result wellListed_bench, h]
  rfl

theorem isLive_faulty : ((probing faulty).liveness (Host.view bench)).isLive 1 = true :=
  (isLive_iff_needs wellListed_bench).mpr (.entrypoint (by decide) rfl)

/-- With the silent plugin only the root is needed. -/
theorem Needs.eq_zero {counts : Link → Prop} {id : NodeId} (h : (probing silent).Needs (Host.view bench) counts id) :
    id = 0 := by
  have hlookup : ∀ id ∈ (Host.view bench).ids,
      (probing silent).registry.lookup ((Host.view bench).typeOf id) = .ok silent := by
    intro id hid
    rcases List.mem_pair.mp (ids_bench ▸ hid) with rfl | rfl <;> rfl
  induction h with
  | @entrypoint id hid he =>
    rcases List.mem_pair.mp (ids_bench ▸ hid) with rfl | rfl
    · rfl
    · cases he
  | link _ hl _ ih =>
    cases mem_links_iff.mp hl with
    | parent hid hp =>
      obtain rfl : _ = 0 := ih
      cases hp
    | declared hid hp hd hs ht =>
      cases (hlookup _ hid).symm.trans hp
      cases hd
    | switched ht hw hne hwrites =>
      rcases hwrites with ⟨hlisted, p, hp, m, hm, -⟩ | htells
      · cases (hlookup _ hlisted).symm.trans hp
        cases hm
      · exact absurd htells AnimationTable.not_tells_empty

/-- With the faulty plugin the probe is live. It stays so if the plugin needs the root as well, probes are on
the list of types and the root is switched by the probe. -/
theorem analyze_monotone_bench : ∃ a', ({ probing clamp with
      rules := { types := ["Probe"] }
      animations := .ofRecords [⟨0, NodeKind.enabledProperty .transform, [1]⟩] }.analyze
        {} (Host.view bench) {}).result = .ok a' ∧ a'.liveness.isLive 1 = true := by
  let c' : Collector := { probing clamp with
    rules := { types := ["Probe"] }
    animations := .ofRecords [⟨0, NodeKind.enabledProperty .transform, [1]⟩] }
  have hsilent : Plugin.Extends (Host.view bench) silent silent :=
    { dependencies := fun _ _ => List.Subset.refl _, mutations := fun _ _ => List.Subset.refl _
      failure := fun _ _ h => Or.inl h }
  have hclamp : Plugin.Extends (Host.view bench) faulty clamp :=
    { dependencies := fun _ _ => List.nil_subset _, mutations := fun _ _ => List.Subset.refl _
      failure := fun _ _ _ => Or.inl rfl }
  have hgrows : (probing faulty).Grows (Plugin.Extends (Host.view bench)) c' :=
    { registry := replaces_probing hsilent hclamp
      rules := ⟨List.nil_subset _, List.nil_subset _, fun h => h⟩
      animations := fun _ _ _ h => absurd h AnimationTable.not_tells_empty }
  have hrun := analyze_bench (c := probing faulty) (by decide)
  have hrun' := analyze_bench (c := c') (by decide)
  obtain ⟨a, a', ha, ha', hlive, -⟩ := analyze_monotone (probing faulty) c' (Host.view bench) wellListed_bench hgrows
    {} {} {} {} (by simp [hrun]) (by simp [hrun'])
  cases hrun.symm.trans ha
  exact ⟨a', ha', hlive 1 isLive_faulty⟩

/-- The silent plugin declares just what the faulty one does, namely nothing. But as it does not fail, the
probe is let go. -/
theorem silent_lets_go : (Host.view bench).WellListed ∧
    (probing faulty).Grows (fun p p' => ∀ n, (p'.dependencies n).items = (p.dependencies n).items ∧
      (p'.mutations n).items = (p.mutations n).items) (probing silent) ∧
    ∃ a a', ((probing faulty).analyze {} (Host.view bench) {}).result = .ok a ∧
      ((probing silent).analyze {} (Host.view bench) {}).result = .ok a' ∧
      a.liveness.isLive 1 = true ∧ a'.liveness.isLive 1 = false := by
  have hdead : ((probing silent).liveness (Host.view bench)).isLive 1 = false := by
    refine Bool.eq_false_iff.mpr fun hlive => ?_
    cases ((isLive_iff_needs wellListed_bench).mp hlive).eq_zero
  refine ⟨wellListed_bench, ?_, _, _, analyze_bench (by decide), analyze_bench (by decide), isLive_faulty, hdead⟩
  exact
    { registry := replaces_probing (fun _ => ⟨rfl, rfl⟩) fun _ => ⟨rfl, rfl⟩
      rules := ⟨List.Subset.refl _, List.Subset.refl _, fun h => h⟩
      animations := fun _ _ _ h => h }

end Collector

end ScenePrune

import ScenePrune.Proofs.Plugin.References
import ScenePrune.Proofs.Run.Exactness
import ScenePrune.Proofs.Run.Refinement
import ScenePrune.Proofs.Run.Soundness

/-! # What a usable component refers to is kept

A component that survives and can be active keeps the nodes it uses, and a component that can be active
is kept by the node it moves. Both go from the fields of the scene through the declarations of the
bundled plugins to what a run leaves behind.
-/
namespace ScenePrune

/-- The bundled plugins and rules, with more types to keep, and with or without the rule for roots. -/
def Bundled.collectorWith (types : List TypeName) (roots : Bool) (animations : AnimationTable) : Collector where
  registry := registry
  rules := { types.foldl EntrypointRules.addType entrypoints with roots }
  animations

namespace Collector

section Declarations
variable {c : Collector} {v : SceneView} {id source target : NodeId} {p : Plugin} {q : Qualifiers}

/-- A declared edge keeps its target if the source is kept and the edge can be followed. -/
theorem isLive_of_declared (hv : v.WellListed) (hid : id ∈ v.ids) (hp : c.registry.lookup (v.typeOf id) = .ok p)
    (hd : .edge source target q ∈ (p.dependencies ⟨v, id⟩).items) (ht : target ∈ v.ids)
    (hsource : q.evenIfSourceDisabled = true ∨ ((c.activeness v).get (v.place source)).canBeActive = true)
    (htarget : q.onlyIfTargetCanBeEnabled = false ∨ ((c.activeness v).get (v.place target)).canBeActive = true)
    (hlive : (c.liveness v).isLive source = true) : (c.liveness v).isLive target = true := by
  have hl : ⟨source, target, .dependency, q⟩ ∈ c.links v :=
    mem_links_iff.mpr (.declared hid hp hd (mem_ids_of_isLive hv hlive) ht)
  refine isLive_target hv hl ?_ hlive
  rw [Edge.isTraversable, Bool.and_eq_true, Bool.or_eq_true, Bool.or_eq_true, Bool.not_eq_true']
  exact ⟨hsource, htarget⟩

end Declarations

section Outcomes
variable {c : Collector} {o : Options} {s : Scene} {id : NodeId}

theorem activeness?_outcome_ne_iff (hs : s.WellFormed) (hid : id ∈ s.ids) :
    (c.outcome o s).analysis.activeness? id ≠ some .alwaysInactive ↔
      ((c.activeness (Host.view s)).get ((Host.view s).place id)).canBeActive = true := by
  have hlisted : id ∈ (Host.view s).ids := hid
  rw [activeness?_eq hs.wellListed outcome_graph outcome_activeness, if_pos hlisted]
  simp [Activeness.canBeActive]

end Outcomes

end Collector

namespace Bundled
variable {types : List TypeName} {roots : Bool} {animations : AnimationTable} {v : SceneView}

theorem predicates_foldl_addType (r : EntrypointRules) :
    (types.foldl EntrypointRules.addType r).predicates = r.predicates := by
  induction types generalizing r with
  | nil => rfl
  | cons type types ih => exact ih (r.addType type)

/-- Neither a bundled plugin nor a bundled rule asks for a run to be cancelled. -/
theorem not_cancels_collectorWith : (collectorWith types roots animations).cancels v = false := by
  have hplugin : ∀ id, (collectorWith types roots animations).pluginCancels v id = false := by
    intro id
    unfold Collector.pluginCancels
    split
    case h_1 p hp => simp [not_cancels_of_lookup hp]
    case h_2 => rfl
  have hrules : ∀ n, (collectorWith types roots animations).rules.cancels n = false := by
    intro n
    have hpredicates : (collectorWith types roots animations).rules.predicates = entrypoints.predicates :=
      predicates_foldl_addType entrypoints
    have hnone : ∀ p ∈ EntrypointRules.consulted n entrypoints.predicates, (p.judge n).cancels = false := by
      intro p hp
      obtain rfl := List.mem_singleton.mp (EntrypointRules.consulted_subset _ _ hp)
      rfl
    rw [EntrypointRules.cancels, hpredicates, List.any_eq_false.mpr (by simpa using hnone), Bool.and_false]
  simp [Collector.cancels, hplugin, hrules]

theorem Handles.lookup_typeOf {p : Plugin} {id : NodeId} (h : Handles p ⟨v, id⟩) :
    registry.lookup (v.typeOf id) = .ok p := by
  obtain ⟨type, htype, hp⟩ := h
  have htype : v.type? id = some type := htype
  rw [SceneView.typeOf, htype]
  exact hp

/-- Whatever types are kept besides, a run that removes nodes leaves with every usable component what it
refers to, with every descriptor its view anchor, and with the owner of a constraint or the root of a chain
the component itself if both can be active. -/
theorem references_survive {s : Scene} (hs : s.Reachable) (types : List TypeName) (roots : Bool)
    (animations : AnimationTable) {o : Options} (hdry : o.dryRun = false) {m : Monitor} (hm : m.cancelled = false) :
    ∃ out, ((collectorWith types roots animations).collect o s m).result = .ok out ∧
      (∀ id ∈ out.scene.ids, out.analysis.activeness? id ≠ some .alwaysInactive →
        (∃ p, Handles p ⟨Host.view s, id⟩ ∧ p.failure? ⟨Host.view s, id⟩ = none) →
        ∀ target ∈ s.ids, Uses ⟨Host.view s, id⟩ target → target ∈ out.scene.ids) ∧
      (∀ id ∈ out.scene.ids, HasType ⟨Host.view s, id⟩ ["AvatarDescriptor"] →
        ∀ target ∈ s.ids, Subject.PointsTo ⟨Host.view s, id⟩ "view_anchor" target → target ∈ out.scene.ids) ∧
      ∀ id ∈ s.ids, out.analysis.activeness? id ≠ some .alwaysInactive →
        ∀ base ∈ out.scene.ids, out.analysis.activeness? base ≠ some .alwaysInactive →
          DrivenFrom ⟨Host.view s, id⟩ base → id ∈ out.scene.ids := by
  have hw := hs.wellFormed
  refine ⟨(collectorWith types roots animations).outcome o s,
    (Collector.collect_eq_ok_iff hw.wellListed).mpr ⟨⟨hm, not_cancels_collectorWith⟩, rfl⟩, ?_, ?_, ?_⟩
  · rintro id hid hactive ⟨p, hp, hok⟩ target htarget huses
    rw [Collector.mem_ids_outcome hw hdry] at hid ⊢
    have hlisted := Collector.mem_ids_of_isLive hw.wellListed hid
    exact Collector.isLive_of_declared hw.wellListed hlisted hp.lookup_typeOf (huses.declared hp hok) htarget
      (Or.inr ((Collector.activeness?_outcome_ne_iff hw hlisted).mp hactive)) (Or.inl rfl) hid
  · intro id hid htype target htarget hanchor
    rw [Collector.mem_ids_outcome hw hdry] at hid ⊢
    have hlisted := Collector.mem_ids_of_isLive hw.wellListed hid
    have hp : Handles avatarDescriptor ⟨Host.view s, id⟩ := htype.registered rfl
    exact Collector.isLive_of_declared hw.wellListed hlisted hp.lookup_typeOf (viewAnchor_declared hanchor) htarget
      (Or.inl rfl) (Or.inl rfl) hid
  · intro id hid hactive base hbase hbaseActive hdriven
    rw [Collector.mem_ids_outcome hw hdry] at hbase ⊢
    have hlisted := Collector.mem_ids_of_isLive hw.wellListed hbase
    obtain ⟨p, hp, hedge⟩ := hdriven.declared
    exact Collector.isLive_of_declared hw.wellListed hid hp.lookup_typeOf hedge hid
      (Or.inr ((Collector.activeness?_outcome_ne_iff hw hlisted).mp hbaseActive))
      (Or.inr ((Collector.activeness?_outcome_ne_iff hw hid).mp hactive)) hbase

/-- The renderer 1 has the bone 2 and a reference to a bone that is gone. The chain of the component 3
starts from its owner 2. The descriptor 4 is disabled, and its view anchor is 5. -/
def puppet : Scene where
  nodes :=
    [{ id := 0, type := "Transform", kind := .transform },
     { id := 1, type := "SkinnedMeshRenderer", kind := .component, parent? := some 0,
       fields := ⟨[("bones", .refs [none, some 2])]⟩ },
     { id := 2, type := "Transform", kind := .transform, parent? := some 0 },
     { id := 3, type := "PhysBone", kind := .component, parent? := some 2,
       fields := ⟨[("root_transform", .ref none)]⟩ },
     { id := 4, type := "AvatarDescriptor", kind := .component, parent? := some 0, enabled := false,
       fields := ⟨[("view_anchor", .ref (some 5))]⟩ },
     { id := 5, type := "Transform", kind := .transform, parent? := some 0 }]
  childIndex := ⟨[(0, [1, 2, 4, 5]), (2, [3])]⟩
  nextId := 6

/-- The bone is kept by the renderer, the component by the bone, and the anchor by the descriptor. -/
theorem references_survive_puppet : ∃ out, ((collectorWith [] false ∅).collect {} puppet {}).result = .ok out ∧
    2 ∈ out.scene.ids ∧ 3 ∈ out.scene.ids ∧ 5 ∈ out.scene.ids := by
  have hbuilt : (∅ : Scene).insertAll puppet.nodes = .ok puppet := rfl
  have hs : puppet.Reachable := Scene.Reachable.empty.insertAll hbuilt
  have hw := hs.wellFormed
  obtain ⟨out, hout, huses, hanchor, hdriven⟩ := references_survive hs [] false ∅ (o := {}) rfl (m := {}) rfl
  obtain ⟨-, rfl⟩ := (Collector.collect_eq_ok_iff hw.wellListed).mp hout
  let c := collectorWith [] false ∅
  have hentrypoint : ∀ id ∈ puppet.ids, ((c.nodeAt (Host.view puppet) id).entrypoint?).isSome →
      id ∈ (c.outcome {} puppet).scene.ids := by
    intro id hid hentry
    rw [Collector.mem_ids_outcome hw rfl]
    exact (Collector.isLive_iff_needs hw.wellListed).mpr (.entrypoint hid hentry)
  have hroot : (Host.view puppet).ActiveIn (Host.view puppet).enabled 0 := .top (by decide) rfl rfl
  have hbone : (Host.view puppet).ActiveIn (Host.view puppet).enabled 2 := .child (by decide) rfl rfl hroot
  -- The scene as it stands is one of the states that the analysis allows for.
  have hactive : ∀ id, (Host.view puppet).ActiveIn (Host.view puppet).enabled id →
      (c.outcome {} puppet).analysis.activeness? id ≠ some .alwaysInactive := by
    intro id ha
    rw [Collector.activeness?_outcome_ne_iff hw ha.mem_ids]
    exact SceneView.ActiveIn.canBeActive (fun _ _ hne => absurd rfl hne) ha
  have h2 : 2 ∈ (c.outcome {} puppet).scene.ids := by
    refine huses 1 (hentrypoint 1 (by decide) rfl) (hactive 1 (.child (by decide) rfl rfl hroot)) ?_ 2 (by decide)
      (.bone ⟨_, List.mem_singleton_self _, rfl⟩ (Or.inr ⟨_, rfl, by simp⟩))
    exact ⟨skinnedMeshRenderer, HasType.registered ⟨_, List.mem_singleton_self _, rfl⟩ rfl, rfl⟩
  refine ⟨_, hout, h2, ?_, ?_⟩
  · exact hdriven 3 (by decide) (hactive 3 (.child (by decide) rfl rfl hbone)) 2 h2 (hactive 2 hbone)
      (.root ⟨_, List.mem_singleton_self _, rfl⟩ (.owner (Or.inr rfl) rfl))
  · exact hanchor 4 (hentrypoint 4 (by decide) rfl) ⟨_, List.mem_singleton_self _, rfl⟩ 5 (by decide) rfl

end Bundled

end ScenePrune

import ScenePrune.Proofs.Plugin.Standing
import ScenePrune.Proofs.Run.Entrypoints
import ScenePrune.Proofs.Run.References

/-! # Only nodes of few known types can ever be removed

With the bundled plugins and rules, a node is an entrypoint by what its own record says. `Bundled.Standing`
lists the reasons: whatever is of none of the few prunable types stands, and so does what is pinned or malformed.
-/
namespace ScenePrune.Bundled

inductive Standing (types : List TypeName) (roots : Bool) (n : Subject) : Prop where
  | unprunable : ¬ HasType n prunableTypes → Standing types roots n
  | fixedType : HasType n types → Standing types roots n
  | root : roots = true → n.parent? = none → Standing types roots n
  | pinned : n.field? "keep" = some (.bool true) → Standing types roots n
  | malformed : Malformed n → Standing types roots n

section Causes
variable {types : List TypeName} {roots : Bool} {animations : AnimationTable} {v : SceneView} {id : NodeId}

theorem types_foldl_addType (r : EntrypointRules) :
    (types.foldl EntrypointRules.addType r).types = r.types ++ types := by
  induction types generalizing r with
  | nil => exact (List.append_nil r.types).symm
  | cons type types ih =>
    rw [List.foldl_cons, ih, List.append_cons]
    rfl

/-- Descriptors are entrypoints by their plugin as well as by the rules. -/
theorem isSome_classify_iff {n : Subject} :
    ((collectorWith types roots animations).rules.classify n).isSome ↔
      (roots = true ∧ n.parent? = none) ∨ (HasType n ["AvatarDescriptor"] ∨ HasType n types) ∨
        n.field? "keep" = some (.bool true) := by
  have htypes : (collectorWith types roots animations).rules.types = "AvatarDescriptor" :: types :=
    types_foldl_addType entrypoints
  have hpredicates : (collectorWith types roots animations).rules.predicates = entrypoints.predicates :=
    predicates_foldl_addType entrypoints
  have hpinned : (∃ p ∈ entrypoints.predicates, (p.judge n).holds = true) ↔ n.field? "keep" = some (.bool true) := by
    constructor
    · rintro ⟨p, hp, hholds⟩
      obtain rfl := List.mem_singleton.mp hp
      exact of_decide_eq_true hholds
    · exact fun h => ⟨_, List.mem_singleton_self _, decide_eq_true h⟩
  have hsplit : HasType n (["AvatarDescriptor"] ++ types) ↔ HasType n ["AvatarDescriptor"] ∨ HasType n types :=
    hasType_append
  have htype : (∃ type, n.type? = some type ∧ type ∈ "AvatarDescriptor" :: types) ↔
      HasType n ["AvatarDescriptor"] ∨ HasType n types :=
    (exists_congr fun _ => and_comm).trans hsplit
  rw [EntrypointRules.isSome_classify, htypes, hpredicates, hpinned, htype]
  rfl

theorem isSome_cause?_iff (htype : (v.type? id).isSome) :
    ((collectorWith types roots animations).cause? v id).isSome ↔ Standing types roots ⟨v, id⟩ := by
  obtain ⟨type, htype⟩ := Option.isSome_iff_exists.mp htype
  have hplugin : ((collectorWith types roots animations).declaredCause? v id).isSome ↔
      ¬ HasType ⟨v, id⟩ prunableTypes ∨ Malformed ⟨v, id⟩ := by
    rw [Collector.isSome_declaredCause?, SceneView.typeOf, htype]
    exact kept_iff htype
  rw [Collector.isSome_cause?, hplugin, isSome_classify_iff]
  constructor
  · rintro ((h | h) | h | (h | h) | h)
    · exact .unprunable h
    · exact .malformed h
    · exact .root h.1 h.2
    · exact .unprunable (h.disjoint (by decide))
    · exact .fixedType h
    · exact .pinned h
  · rintro (h | h | ⟨h, h'⟩ | h | h)
    · exact Or.inl (Or.inl h)
    · exact Or.inr (Or.inr (Or.inl (Or.inr h)))
    · exact Or.inr (Or.inl ⟨h, h'⟩)
    · exact Or.inr (Or.inr (Or.inr h))
    · exact Or.inl (Or.inr h)

end Causes

/-- Whatever types are kept besides, and whether or not roots are, the entrypoints of a scene are the nodes that
stand, and a run leaves each of them as it was. -/
theorem entrypoint_iff_standing {s : Scene} (hs : s.Reachable) (types : List TypeName) (roots : Bool)
    (animations : AnimationTable) (o : Options) {m : Monitor} (hm : m.cancelled = false) :
    ∃ out, ((collectorWith types roots animations).collect o s m).result = .ok out ∧
      ∀ n ∈ s.nodes,
        (∃ found, out.analysis.node? n.id = some found ∧ found.id = n.id ∧
          (found.entrypoint?.isSome ↔ Standing types roots ⟨Host.view s, n.id⟩)) ∧
        (Standing types roots ⟨Host.view s, n.id⟩ → n ∈ out.scene.nodes) := by
  have hw := hs.wellFormed
  have hv := hw.wellListed
  refine ⟨(collectorWith types roots animations).outcome o s,
    (Collector.collect_eq_ok_iff hv).mpr ⟨⟨hm, not_cancels_collectorWith⟩, rfl⟩, fun n hn => ?_⟩
  have hid : n.id ∈ (Host.view s).ids := List.mem_map_of_mem hn
  have hcause : ((collectorWith types roots animations).cause? (Host.view s) n.id).isSome ↔
      Standing types roots ⟨Host.view s, n.id⟩ := isSome_cause?_iff (hv.typed _ hid)
  refine ⟨⟨_, (Collector.node?_eq hv Collector.outcome_graph n.id).trans (if_pos hid), rfl, hcause⟩, fun hstands => ?_⟩
  have hlive := Collector.isLive_of_cause hv hid (hcause.mpr hstands)
  rw [Collector.nodes_outcome hw]
  split
  · exact hn
  · exact List.mem_filter.mpr ⟨hn, hlive⟩

/-- The constraint 1 names its source by a text, and nothing is known of gadgets. The components 3 and 4 are as
they should be. -/
def workshop : Scene where
  nodes :=
    [{ id := 0, type := "Transform", kind := .transform },
     { id := 1, type := "AimConstraint", kind := .component, parent? := some 0,
       fields := ⟨[("sources", .text "head")]⟩ },
     { id := 2, type := "Gadget", kind := .component, parent? := some 0 },
     { id := 3, type := "PhysBone", kind := .component, parent? := some 0,
       fields := ⟨[("colliders", .refs [some 4])]⟩ },
     { id := 4, type := "PhysBoneCollider", kind := .component, parent? := some 0, enabled := false }]
  childIndex := ⟨[(0, [1, 2, 3, 4])]⟩
  nextId := 5

/-- The malformed constraint and the gadget stand and are left, while the chain does not stand. -/
theorem entrypoint_iff_standing_workshop : ∃ out, ((collectorWith [] false ∅).collect {} workshop {}).result = .ok out ∧
    Standing [] false ⟨Host.view workshop, 1⟩ ∧ 1 ∈ out.scene.ids ∧
    Standing [] false ⟨Host.view workshop, 2⟩ ∧ 2 ∈ out.scene.ids ∧
    ¬ Standing [] false ⟨Host.view workshop, 3⟩ := by
  have hbuilt : (∅ : Scene).insertAll workshop.nodes = .ok workshop := rfl
  have hs : workshop.Reachable := Scene.Reachable.empty.insertAll hbuilt
  obtain ⟨out, hout, hnodes⟩ := entrypoint_iff_standing hs [] false ∅ {} (m := {}) rfl
  have hfield : Subject.field? ⟨Host.view workshop, 1⟩ "sources" = some (.text "head") := rfl
  have hmalformed : Standing [] false ⟨Host.view workshop, 1⟩ :=
    .malformed (.sources ⟨"AimConstraint", by decide, rfl⟩ (by simp [Subject.IsRef, hfield])
      (by simp [Subject.IsRefs, hfield]))
  have hunknown : Standing [] false ⟨Host.view workshop, 2⟩ := by
    refine .unprunable ?_
    rintro ⟨type, hmem, htype⟩
    obtain rfl : "Gadget" = type := Option.some.inj htype
    exact absurd hmem (by decide)
  have hchain : ¬ Standing [] false ⟨Host.view workshop, 3⟩ := by
    have hcause : ((collectorWith [] false ∅).cause? (Host.view workshop) 3).isSome = false := by decide
    rw [← isSome_cause?_iff rfl, hcause]
    exact Bool.false_ne_true
  refine ⟨out, hout, hmalformed, ?_, hunknown, ?_, hchain⟩
  · exact List.mem_map_of_mem ((hnodes workshop.nodes[1] (by simp [workshop])).2 hmalformed)
  · exact List.mem_map_of_mem ((hnodes workshop.nodes[2] (by simp [workshop])).2 hunknown)

end ScenePrune.Bundled

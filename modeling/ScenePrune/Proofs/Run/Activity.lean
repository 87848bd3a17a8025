import ScenePrune.Proofs.Run.Soundness
import ScenePrune.Proofs.Run.Support
import ScenePrune.Proofs.Scene.Limits

/-! # Active nodes and the classes of a run

Whether a node is active a scene finds out on a walk up its parents, with no more steps than nodes are
listed. A run classifies the nodes from the top down, and it knows nothing of parents that are missing.
What the two have in common is `ActiveIn`: the walk holds just if a node is active as the flags are
now, and no class of a run denies it.
-/
namespace ScenePrune

namespace SceneView

def ContainsListed (v : SceneView) : Prop := ∀ id, v.contains id = true ↔ id ∈ v.ids

def ParentsListed (v : SceneView) : Prop := ∀ id parent, v.parent? id = some parent → parent ∈ v.ids

variable {v : SceneView} {id : NodeId}

theorem activeIn_iff_onAllTheWay (hcontains : v.ContainsListed) :
    v.ActiveIn v.enabled id ↔ v.ComesToTop id ∧ v.OnAllTheWay id := by
  constructor
  · intro h
    induction h with
    | @top id hid hp hon => exact ⟨⟨id, .refl, hp⟩, (onAllTheWay_of_top hp).mpr ⟨(hcontains id).mpr hid, hon⟩⟩
    | @child id _ hid hp hon _ ih =>
      obtain ⟨⟨top, hway, htop⟩, habove⟩ := ih
      exact ⟨⟨top, .head hp hway, htop⟩, (onAllTheWay_of_child hp).mpr ⟨⟨(hcontains id).mpr hid, hon⟩, habove⟩⟩
  · rintro ⟨htop, hall⟩
    obtain ⟨k, hdepth⟩ := comesToTop_iff.mp htop
    clear htop
    induction hdepth with
    | @top id hp =>
      obtain ⟨hcontained, hon⟩ := (onAllTheWay_of_top hp).mp hall
      exact .top ((hcontains id).mp hcontained) hp hon
    | @child id _ _ hp _ ih =>
      obtain ⟨⟨hcontained, hon⟩, habove⟩ := (onAllTheWay_of_child hp).mp hall
      exact .child ((hcontains id).mp hcontained) hp hon (ih habove)

/-- The walk never gives up on a node that is active. -/
theorem isActive_iff (hcontains : v.ContainsListed) : v.isActive id = true ↔ v.ActiveIn v.enabled id := by
  rw [activeIn_iff_onAllTheWay hcontains]
  exact activeWithin_iff_of_le (fun id => (hcontains id).mp) (Nat.le_refl _)

end SceneView

theorem Listing.containsListed_view (s : Listing) : (Host.view s).ContainsListed := fun _ => OrderedMap.contains_iff

namespace Scene
variable {s : Scene}

theorem containsListed_view (s : Scene) : (Host.view s).ContainsListed := fun _ => contains_iff

theorem WellFormed.parentsListed_view (hs : s.WellFormed) : (Host.view s).ParentsListed := by
  intro id parent hp
  obtain ⟨n, hn, hparent⟩ := Option.bind_eq_some_iff.mp hp
  exact hs.parent_mem (mem_of_node? hn).1 hparent

end Scene

namespace Collector
variable {c : Collector} {v : SceneView} {id : NodeId} {chain : Chain}

theorem isState_enabled (c : Collector) (v : SceneView) : c.IsState v v.enabled := fun _ _ hne => absurd rfl hne

/-- Where no parent is missing, a chain is enabled just if its node is active. -/
theorem enabled_iff_activeIn (hparents : v.ParentsListed) (hid : id ∈ v.ids)
    (hc : (c.graph v).HasChain (c.draft v).writers (v.place id) chain) :
    chain.enabled = true ↔ v.ActiveIn v.enabled id := by
  refine hasChain_induction (motive := fun id chain => chain.enabled = true ↔ v.ActiveIn v.enabled id)
    (fun id hid hp => ?_) (fun id hid parent above hp ih => ?_) hid hc
  · have hnone : v.parent? id = none := by
      cases hparent : v.parent? id with
      | none => rfl
      | some parent =>
        have hlisted := SceneView.listedParent?_eq_some.mpr ⟨hparent, hparents id parent hparent⟩
        cases hp.symm.trans hlisted
    rw [enabled_extendChain, Chain.top, Bool.and_true]
    exact ⟨fun hon => .top hid hnone hon, fun h => h.isOn⟩
  · rw [enabled_extendChain, Bool.and_eq_true, ih]
    constructor
    · rintro ⟨hon, habove⟩
      exact .child hid (SceneView.listedParent?_eq_some.mp hp).1 hon habove
    · exact fun h => ⟨h.isOn, h.listedParent hp⟩

theorem exists_hasChain (c : Collector) (hparents : v.ParentsListed) (hid : id ∈ v.ids) {k : Nat}
    (hdepth : v.HasDepth id k) : ∃ chain, (c.graph v).HasChain (c.draft v).writers (v.place id) chain := by
  induction hdepth with
  | top hp => exact ⟨_, hasChain_top hid (by rw [SceneView.listedParent?, hp]; rfl)⟩
  | @child id parent k hp _ ih =>
    have hparent := hparents id parent hp
    obtain ⟨above, habove⟩ := ih hparent
    exact ⟨_, hasChain_child hid (SceneView.listedParent?_eq_some.mpr ⟨hp, hparent⟩) habove⟩

/-- No chain is written where nobody switches a node. -/
theorem written_eq_false (hv : v.WellListed) (hswitches : ∀ writer, ∀ id ∈ v.ids, ¬ c.Switches v writer id)
    (hid : id ∈ v.ids) (hc : (c.graph v).HasChain (c.draft v).writers (v.place id) chain) : chain.written = false := by
  have hunwritten : ∀ id ∈ v.ids, (c.draft v).writers.isWritten (v.place id) (v.switch id) = false := by
    intro id hid
    rw [Bool.eq_false_iff, Ne, isWritten_draft_iff hv hid]
    rintro ⟨writer, hwrites⟩
    exact hswitches writer id hid (switches_iff_writes.mpr hwrites)
  refine hasChain_induction (motive := fun _ chain => chain.written = false) (fun id hid _ => ?_)
    (fun id hid _ above _ ih => ?_) hid hc
  · rw [written_extendChain, hunwritten id hid]
    rfl
  · rw [written_extendChain, hunwritten id hid, ih]
    rfl

/-- The flags as they are now are one of the states that a run allows for, whatever is missing above the node. -/
theorem not_alwaysInactive_of_isActive (c : Collector) (hcontains : v.ContainsListed) (hactive : v.isActive id = true) :
    id ∈ v.ids ∧ (c.activeness v).get (v.place id) ≠ .alwaysInactive := by
  have h := (SceneView.isActive_iff hcontains).mp hactive
  exact ⟨h.mem_ids, by simpa [Activeness.canBeActive] using h.canBeActive (isState_enabled c v)⟩

/-- Only a node with a chain is called always active. -/
theorem activeIn_of_alwaysActive (hparents : v.ParentsListed) (hid : id ∈ v.ids)
    (h : (c.activeness v).get (v.place id) = .alwaysActive) : v.ActiveIn v.enabled id := by
  by_cases hchain : ∃ chain, (c.graph v).HasChain (c.draft v).writers (v.place id) chain
  · obtain ⟨chain, hc⟩ := hchain
    -- A chain that is written, or not enabled throughout, would have given another class.
    rw [activeness, hc.get_activeness, Chain.activeness] at h
    apply (enabled_iff_activeIn hparents hid hc).mp
    cases henabled : chain.enabled with
    | true => rfl
    | false => cases hwritten : chain.written <;> simp [henabled, hwritten] at h
  · rw [activeness, Graph.get_activeness_of_no_chain fun chain hc => hchain ⟨chain, hc⟩] at h
    cases h

/-- Where nobody switches a node, its class says what the walk finds. -/
theorem get_activeness_of_not_switched (hv : v.WellListed) (hparents : v.ParentsListed)
    (hcontains : v.ContainsListed) (hswitches : ∀ writer, ∀ id ∈ v.ids, ¬ c.Switches v writer id) (hid : id ∈ v.ids)
    {k : Nat} (hdepth : v.HasDepth id k) :
    (c.activeness v).get (v.place id) = if v.isActive id then .alwaysActive else .alwaysInactive := by
  obtain ⟨chain, hc⟩ := exists_hasChain c hparents hid hdepth
  have hactive : chain.enabled = v.isActive id := by
    rw [Bool.eq_iff_iff, enabled_iff_activeIn hparents hid hc, SceneView.isActive_iff hcontains]
  rw [activeness, hc.get_activeness, Chain.activeness, written_eq_false hv hswitches hid hc, hactive]
  rfl

/-- The two notions of activity agree. A run calls no node always inactive that is active in the scene. In a
scene whose parents lead to the top it calls only those always active that are active, and only those always
inactive that are not; and if nobody may switch any of its nodes, it calls every node one or the other. -/
theorem activity_agrees (c : Collector) (o : Options) (m : Monitor) :
    (∀ v : SceneView, v.WellListed → v.ContainsListed → (c.analyze o v m).result ≠ .error .cancelled →
      ∃ a, (c.analyze o v m).result = .ok a ∧ ∀ id, v.isActive id = true →
        ∃ found, a.activeness? id = some found ∧ found ≠ .alwaysInactive) ∧
    ∀ s : Scene, s.Reachable → (c.analyze o (Host.view s) m).result ≠ .error .cancelled →
      ∃ a, (c.analyze o (Host.view s) m).result = .ok a ∧
        (∀ id, (a.activeness? id = some .alwaysActive → (Host.view s).isActive id = true) ∧
          (a.activeness? id = some .alwaysInactive → (Host.view s).isActive id = false)) ∧
        ((∀ writer, ∀ id ∈ s.ids, ¬ c.Switches (Host.view s) writer id) → ∀ id ∈ s.ids,
          a.activeness? id = some (if (Host.view s).isActive id then .alwaysActive else .alwaysInactive)) := by
  constructor
  · intro v hv hcontains hrun
    refine ⟨c.analysis v o, analyze_eq_ok hv hrun, fun id hactive => ?_⟩
    obtain ⟨hid, hfound⟩ := not_alwaysInactive_of_isActive c hcontains hactive
    exact ⟨_, by rw [activeness?_eq hv rfl rfl, if_pos hid], hfound⟩
  · intro s hs hrun
    have hwell := hs.wellFormed
    have hv := hwell.wellListed
    have hcontains := s.containsListed_view
    have hfound : ∀ id, (c.analysis (Host.view s) o).activeness? id =
        if id ∈ s.ids then some ((c.activeness (Host.view s)).get ((Host.view s).place id)) else none :=
      activeness?_eq hv rfl rfl
    refine ⟨c.analysis (Host.view s) o, analyze_eq_ok hv hrun, fun id => ⟨fun h => ?_, fun h => ?_⟩,
      fun hswitches id hid => ?_⟩
    · rw [hfound, Option.ite_none_right_eq_some] at h
      apply (SceneView.isActive_iff hcontains).mpr
      exact activeIn_of_alwaysActive hwell.parentsListed_view h.1 (Option.some.inj h.2)
    · rw [hfound, Option.ite_none_right_eq_some] at h
      rw [Bool.eq_false_iff]
      exact fun hactive => (not_alwaysInactive_of_isActive c hcontains hactive).2 (Option.some.inj h.2)
    · obtain ⟨n, hn, rfl⟩ := Scene.exists_node_of_mem_ids hid
      obtain ⟨k, -, hdepth⟩ := hwell.hasDepth hn
      rw [hfound, if_pos hid, get_activeness_of_not_switched hv hwell.parentsListed_view hcontains hswitches hid hdepth]

/-- A listing with an animator in good order, beside a cycle and a node whose parent is missing. -/
def attic : Listing := .ofList
    [(1, { type? := some "Transform", kind? := some .transform }),
     (2, { type? := some "Animator", kind? := some .component, parent? := some 1 }),
     (3, { type? := some "Transform", kind? := some .transform, parent? := some 4 }),
     (4, { type? := some "Transform", kind? := some .transform, parent? := some 3 }),
     (5, { type? := some "Transform", kind? := some .transform, parent? := some 9 })] []

/-- The lamp without the animator, which was all that might have switched it on. -/
def unmanned : Scene := ((Scene.lamp.remove 1).toOption).getD ∅

/-- The animator of the attic may be active. Without an animator the lamp stays dark, and so does the constraint
below it. -/
theorem activity_agrees_unmanned :
    (∃ a found, (Bundled.collector.analyze {} (Host.view attic) {}).result = .ok a ∧
      a.activeness? 2 = some found ∧ found ≠ .alwaysInactive) ∧
    ∃ a, (Bundled.collector.analyze {} (Host.view unmanned) {}).result = .ok a ∧
      a.activeness? 4 = some .alwaysActive ∧ a.activeness? 3 = some .alwaysInactive := by
  have hruns : ∀ v : SceneView, v.WellListed → Bundled.collector.cancels v = false →
      (Bundled.collector.analyze {} v {}).result ≠ .error .cancelled := by
    intro v hv hcancels
    rw [analyze_result hv, hcancels]
    simp
  obtain ⟨hhosts, hscenes⟩ := activity_agrees Bundled.collector {} {}
  constructor
  · have hv : (Host.view attic).WellListed := Listing.wellListed_view (by decide)
    have hcontains : (Host.view attic).ContainsListed := attic.containsListed_view
    obtain ⟨a, ha, hactive⟩ := hhosts _ hv hcontains (hruns _ hv (by decide))
    obtain ⟨found, hfound, hclass⟩ := hactive 2 (by decide)
    exact ⟨a, found, ha, hfound, hclass⟩
  · have hremove : Scene.lamp.remove 1 = .ok unmanned := rfl
    have hreachable : unmanned.Reachable := Scene.lamp_reachable.remove hremove
    have hv := hreachable.wellFormed.wellListed
    have hunwritten : (unmanned.ids.any fun id => (Bundled.collector.draft (Host.view unmanned)).writers.isWritten
        ((Host.view unmanned).place id) ((Host.view unmanned).switch id)) = false := by decide +kernel
    obtain ⟨a, ha, -, hclass⟩ := hscenes unmanned hreachable (hruns _ hv (by decide))
    have hexact := hclass fun writer id hid hswitches => by
      have hwritten := (isWritten_draft_iff hv hid).mpr ⟨writer, switches_iff_writes.mp hswitches⟩
      exact List.any_eq_false.mp hunwritten id hid hwritten
    exact ⟨a, ha, hexact 4 (by decide), hexact 3 (by decide)⟩

end Collector

end ScenePrune

import ScenePrune.Proofs.Run.Refinement

/-! # Comparing two analyses

A second collector on a second view covers the first if it has all of its nodes with their parents and
flags, and all of its writers, entrypoints and links. It may have more of each. Then it finds live what the
first one finds live, and what can be active there can be active here. Two that cover each other agree.
-/
namespace ScenePrune.Collector

/-- All that the first collector is told about the first view is told in the second case, too. -/
structure Covers (c : Collector) (v : SceneView) (c' : Collector) (v' : SceneView) : Prop where
  wellListed : v.WellListed
  wellListed' : v'.WellListed
  ids : ∀ id ∈ v.ids, id ∈ v'.ids
  parent : ∀ id ∈ v.ids, v'.listedParent? id = v.listedParent? id
  enabled : ∀ id ∈ v.ids, v'.enabled id = v.enabled id
  written : ∀ id ∈ v.ids, ∀ writer, c.Writes v writer id (v.switch id) → c'.Writes v' writer id (v'.switch id)
  cause : ∀ id ∈ v.ids, (c.cause? v id).isSome → (c'.cause? v' id).isSome
  links : ∀ l ∈ c.links v, l ∈ c'.links v'

namespace Covers
variable {c c' : Collector} {v v' : SceneView} {id : NodeId}

theorem isWritten (h : c.Covers v c' v') (hid : id ∈ v.ids)
    (hw : (c.draft v).writers.isWritten (v.place id) (v.switch id) = true) :
    (c'.draft v').writers.isWritten (v'.place id) (v'.switch id) = true := by
  obtain ⟨writer, hw⟩ := (isWritten_draft_iff h.wellListed hid).mp hw
  exact (isWritten_draft_iff h.wellListed' (h.ids id hid)).mpr ⟨writer, h.written id hid writer hw⟩

/-- One more step up the parents finds the same flag, and a writer if there was one. -/
theorem extendChain (h : c.Covers v c' v') (hid : id ∈ v.ids) {above above' : Chain}
    (henabled : above.enabled = above'.enabled) (hwritten : above.written = true → above'.written = true) :
    (c.extendChain v id above).enabled = (c'.extendChain v' id above').enabled ∧
      ((c.extendChain v id above).written = true → (c'.extendChain v' id above').written = true) := by
  constructor
  · rw [enabled_extendChain, enabled_extendChain, h.enabled id hid, henabled]
  · rw [written_extendChain, written_extendChain, Bool.or_eq_true, Bool.or_eq_true]
    exact Or.imp (h.isWritten hid) hwritten

/-- A chain in the second case is one in the first, with the same flags and at most the same writers. -/
theorem exists_hasChain (h : c.Covers v c' v') (hid : id ∈ v.ids) {chain' : Chain}
    (hc : (c'.graph v').HasChain (c'.draft v').writers (v'.place id) chain') :
    ∃ chain, (c.graph v).HasChain (c.draft v).writers (v.place id) chain ∧
      chain.enabled = chain'.enabled ∧ (chain.written = true → chain'.written = true) := by
  -- Along the chain of the second case: a node of the first one has the same parent there, so the
  -- chain never leaves the nodes that both have.
  refine hasChain_induction (c := c') (v := v') (motive := fun id chain' => id ∈ v.ids →
    ∃ chain, (c.graph v).HasChain (c.draft v).writers (v.place id) chain ∧
      chain.enabled = chain'.enabled ∧ (chain.written = true → chain'.written = true)) ?_ ?_ (h.ids id hid) hc hid
  · intro id _ hp hid
    exact ⟨_, hasChain_top hid ((h.parent id hid).symm.trans hp), h.extendChain hid rfl fun hw => hw⟩
  · intro id _ parent above' hp ih hid
    have hp' := (h.parent id hid).symm.trans hp
    obtain ⟨above, habove, henabled, hwritten⟩ := ih (SceneView.listedParent?_eq_some.mp hp').2
    exact ⟨_, hasChain_child hid hp' habove, h.extendChain hid henabled hwritten⟩

/-- What can be active still can. -/
theorem canBeActive (h : c.Covers v c' v') (hid : id ∈ v.ids)
    (ha : ((c.activeness v).get (v.place id)).canBeActive = true) :
    ((c'.activeness v').get (v'.place id)).canBeActive = true := by
  by_cases hchain : ∃ chain', (c'.graph v').HasChain (c'.draft v').writers (v'.place id) chain'
  · obtain ⟨chain', hc'⟩ := hchain
    obtain ⟨chain, hc, henabled, hwritten⟩ := h.exists_hasChain hid hc'
    rw [activeness, hc.get_activeness] at ha
    rw [activeness, hc'.get_activeness]
    cases hw' : chain'.written with
    | true => simp [Chain.activeness, hw', Activeness.canBeActive]
    | false =>
      have hw : chain.written = false := Bool.eq_false_iff.mpr fun hw => by simp [hwritten hw] at hw'
      simpa [Chain.activeness, hw, hw', henabled] using ha
  · rw [activeness, Graph.get_activeness_of_no_chain fun chain' hc' => hchain ⟨chain', hc'⟩]
    rfl

theorem isTraversable (h : c.Covers v c' v') {l : Link} (hl : l ∈ c.links v)
    (hcount : (l.edge v).isTraversable (c.activeness v) = true) :
    (l.edge v').isTraversable (c'.activeness v') = true := by
  obtain ⟨hs, ht⟩ := isListed_of_mem_links hl
  rw [Edge.isTraversable, Bool.and_eq_true, Bool.or_eq_true, Bool.or_eq_true] at hcount ⊢
  exact ⟨hcount.1.imp_right (h.canBeActive hs), hcount.2.imp_right (h.canBeActive ht)⟩

theorem needs (h : c.Covers v c' v') {counts counts' : Link → Prop}
    (hcounts : ∀ l ∈ c.links v, counts l → counts' l) (hn : c.Needs v counts id) : c'.Needs v' counts' id := by
  induction hn with
  | entrypoint hid he => exact .entrypoint (h.ids _ hid) (h.cause _ hid he)
  | link _ hl hcount ih => exact .link ih (h.links _ hl) (hcounts _ hl hcount)

/-- What is live stays live. -/
theorem isLive (h : c.Covers v c' v') (hlive : (c.liveness v).isLive id = true) :
    (c'.liveness v').isLive id = true := by
  rw [isLive_iff_needs h.wellListed] at hlive
  rw [isLive_iff_needs h.wellListed']
  exact h.needs (fun l hl => h.isTraversable hl) hlive

/-- Where nothing is told in one case only, every node is equally active. -/
theorem activeness_eq (h : c.Covers v c' v') (h' : c'.Covers v' c v) (hid : id ∈ v.ids) :
    (c'.activeness v').get (v'.place id) = (c.activeness v).get (v.place id) := by
  by_cases hchain : ∃ chain', (c'.graph v').HasChain (c'.draft v').writers (v'.place id) chain'
  · obtain ⟨chain', hc'⟩ := hchain
    obtain ⟨chain, hc, henabled, hwritten⟩ := h.exists_hasChain hid hc'
    obtain ⟨again, hagain, -, hwritten'⟩ := h'.exists_hasChain (h.ids id hid) hc
    rw [hagain.unique hc'] at hwritten'
    have hequal : chain.written = chain'.written := Bool.eq_iff_iff.mpr ⟨hwritten, hwritten'⟩
    rw [activeness, activeness, hc.get_activeness, hc'.get_activeness, Chain.activeness, Chain.activeness, hequal,
      henabled]
  · rw [activeness, activeness, Graph.get_activeness_of_no_chain fun chain' hc' => hchain ⟨chain', hc'⟩,
      Graph.get_activeness_of_no_chain]
    intro chain hc
    obtain ⟨chain', hc', -⟩ := h'.exists_hasChain (h.ids id hid) hc
    exact hchain ⟨chain', hc'⟩

end Covers

end ScenePrune.Collector

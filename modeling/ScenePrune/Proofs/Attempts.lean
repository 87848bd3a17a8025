import ScenePrune.Proofs.Scene.Limits
import ScenePrune.Proofs.Sweep

/-! # What a sweep tries

A host may refuse to remove a node for reasons of its own. A sweep tries each dead node once and
writes down what came of it: the mapping has the removals that succeeded, the diagnostics have those
that were refused. The log of the attempts is kept here beside the sweep; `Accounts` is the invariant
that ties the two together, attempt after attempt.
-/
namespace ScenePrune

/-- A node that is removed goes alone. The others may be listed in another order afterwards. -/
def Host.RemovesOne (σ : Type) [Host σ] : Prop := ∀ (s : σ) (id : NodeId) (s' : σ), (Host.view s).ids.Nodup →
  Host.remove s id = .ok s' → (Host.view s').ids.Perm ((Host.view s).ids.erase id)

theorem Listing.removesOne : Host.RemovesOne Listing := by
  intro s id s' hids h
  simp only [Host.remove, Listing.remove] at h
  split at h
  · cases h
  · split at h
    · cases h
      apply List.Perm.of_eq
      rw [hids.erase_eq_filter]
      simp only [Host.view, Listing.view, OrderedMap.keys_erase]
      congr 1
      funext other
      exact decide_not.trans (congrArg not (beq_eq_decide other id).symm)
    · cases h

/-- What is held stays. -/
theorem Listing.held_of_remove (id : NodeId) {s s' : Listing} {other : NodeId}
    (h : id ∈ s.held ∧ id ∈ (Host.view s).ids) (hremove : Host.remove s other = .ok s') :
    id ∈ s'.held ∧ id ∈ (Host.view s').ids := by
  obtain ⟨hheld, hlisted⟩ := h
  simp only [Host.remove, Listing.remove] at hremove
  split at hremove
  case isTrue => cases hremove
  case isFalse hother =>
    split at hremove
    case isTrue =>
      cases hremove
      have hne : id ≠ other := fun he => hother (he ▸ hheld)
      simp only [Host.view, Listing.view, OrderedMap.keys_erase] at hlisted ⊢
      exact ⟨hheld, List.mem_filter.mpr ⟨hlisted, by simpa using hne⟩⟩
    case isFalse => cases hremove

theorem Scene.removesOne : Host.RemovesOne Scene := by
  intro s id s' hids h
  obtain ⟨-, _, -, hnodes, -⟩ := Scene.remove_ok h
  apply List.Perm.of_eq
  rw [hids.erase_eq_filter]
  change s'.nodes.map (·.id) = (s.nodes.map (·.id)).filter (· != id)
  rw [hnodes, List.filter_map]
  congr 2
  funext n
  exact decide_not.trans (congrArg not (beq_eq_decide n.id id).symm)

structure Attempt where
  node : NodeId
  error? : Option SceneError
deriving DecidableEq

def Attempt.report? (a : Attempt) : Option Diagnostic := a.error?.map fun e => .removalFailed a.node e.message

def Diagnostic.refused? : Diagnostic → Option NodeId
  | removalFailed node _ => some node
  | _ => none

namespace Attempt
variable {log : List Attempt} {a : Attempt} {id : NodeId}

theorem filterMap_refused? (log : List Attempt) : (log.filterMap report?).filterMap Diagnostic.refused? =
    (log.filter (·.error?.isSome)).map node := by
  induction log with
  | nil => rfl
  | cons a log ih =>
    obtain ⟨id, _ | e⟩ := a
    · rw [List.filterMap_cons_none rfl]
      simpa using ih
    · simpa [report?, Diagnostic.refused?] using ih

/-- Of a node that is tried once the log tells either that it was removed or that it was refused. -/
theorem eq_of_node_eq (hlog : (log.map node).Nodup) {b : Attempt} (ha : a ∈ log) (hb : b ∈ log)
    (h : a.node = b.node) : a = b :=
  List.inj_on_of_nodup_map hlog ha hb h

theorem count_refused? (hlog : (log.map node).Nodup) (ha : a ∈ log) :
    ((log.filterMap report?).filterMap Diagnostic.refused?).count a.node = if a.error?.isSome then 1 else 0 := by
  rw [filterMap_refused?]
  split
  case isTrue h =>
    apply List.count_eq_one_of_mem
    · exact hlog.sublist (List.filter_sublist.map node)
    · exact List.mem_map_of_mem (List.mem_filter.mpr ⟨ha, h⟩)
  case isFalse h =>
    rw [List.count_eq_zero, List.mem_map]
    rintro ⟨b, hb, hnode⟩
    obtain ⟨hb, herror⟩ := List.mem_filter.mp hb
    exact h (eq_of_node_eq hlog hb ha hnode ▸ herror)

end Attempt

namespace Sweep
open Relation

section Log
variable {σ : Type} [Host σ] {scene : σ} {log : List Attempt} {w : Sweep σ} {id : NodeId} {l : Liveness}

/-- From the first scene one comes to the other by trying to remove nodes one after another. -/
inductive Attempts (scene : σ) : List Attempt → σ → Prop where
  | start : Attempts scene [] scene
  | removed {log : List Attempt} {s s' : σ} {id : NodeId} : Attempts scene log s → Host.remove s id = .ok s' →
      Attempts scene (log ++ [⟨id, none⟩]) s'
  | refused {log : List Attempt} {s : σ} {id : NodeId} {e : SceneError} : Attempts scene log s →
      Host.remove s id = .error e → Attempts scene (log ++ [⟨id, some e⟩]) s

/-- What no removal ends holds after all attempts. -/
theorem Attempts.preserves {P : σ → Prop} (hP : ∀ s s' id, P s → Host.remove s id = .ok s' → P s') {s : σ}
    (h : Attempts scene log s) (hscene : P scene) : P s := by
  induction h with
  | start => exact hscene
  | removed _ hremove ih => exact hP _ _ _ ih hremove
  | refused _ _ ih => exact ih

/-- What a sweep has written down agrees with the attempts it has made so far. -/
structure Accounts (scene : σ) (log : List Attempt) (w : Sweep σ) : Prop where
  attempts : Attempts scene log w.scene
  listed : (Host.view w.scene).ids.Perm ((Host.view scene).ids.filter fun id => ⟨id, none⟩ ∉ log)
  entries : w.mapping.entries.entries =
    (Host.view scene).ids.map fun id => (id, if ⟨id, none⟩ ∈ log then .removed else .kept id)
  diagnostics : w.diagnostics = log.filterMap Attempt.report?

theorem Accounts.start (hids : (Host.view scene).ids.Nodup) :
    Accounts scene [] { scene, mapping := .keeping (Host.view scene).ids } where
  attempts := .start
  listed := by simp
  entries := by
    refine (RemovalMap.entries_keeping hids).trans ?_
    exact List.map_congr_left fun id _ => by simp
  diagnostics := rfl

theorem Accounts.removed (hremoves : Host.RemovesOne σ) (hids : (Host.view scene).ids.Nodup)
    (h : Accounts scene log w) (hid : id ∈ (Host.view scene).ids) {s' : σ} (hremove : Host.remove w.scene id = .ok s') :
    Accounts scene (log ++ [⟨id, none⟩]) { w with scene := s', mapping := ⟨w.mapping.entries.insert id .removed⟩ } where
  attempts := h.attempts.removed hremove
  listed := by
    have hnodup : (Host.view w.scene).ids.Nodup := h.listed.nodup_iff.mpr (hids.filter _)
    refine (hremoves _ _ _ hnodup hremove).trans ((h.listed.erase id).trans (List.Perm.of_eq ?_))
    rw [(hids.filter _).erase_eq_filter, List.filter_filter]
    apply List.filter_congr
    intro i _
    by_cases he : i = id <;> simp [he]
  entries := by
    simp only [OrderedMap.insert, OrderedMap.upsert, h.entries]
    rw [OrderedMap.upsertEntries_map hids hid]
    apply List.map_congr_left
    intro i _
    by_cases he : i = id <;> simp [he]
  diagnostics := by simp [h.diagnostics, Attempt.report?]

theorem Accounts.refused (h : Accounts scene log w) {e : SceneError} (hremove : Host.remove w.scene id = .error e) :
    Accounts scene (log ++ [⟨id, some e⟩])
      { w with diagnostics := w.diagnostics ++ [.removalFailed id e.message] } where
  attempts := h.attempts.refused hremove
  listed := by simpa using h.listed
  entries := by simpa using h.entries
  diagnostics := by simp [h.diagnostics, Attempt.report?]

/-- Whatever the host answers, one more attempt is accounted for. -/
theorem Accounts.step (hremoves : Host.RemovesOne σ) (hids : (Host.view scene).ids.Nodup)
    (h : Accounts scene log w) (hid : id ∈ (Host.view scene).ids) :
    ∃ error?, Accounts scene (log ++ [⟨id, error?⟩]) (removeOne w id) := by
  unfold removeOne
  cases hremove : Host.remove w.scene id with
  | ok s' => exact ⟨none, h.removed hremoves hids hid hremove⟩
  | error e => exact ⟨some e, h.refused hremove⟩

theorem Accounts.run (hremoves : Host.RemovesOne σ) (hids : (Host.view scene).ids.Nodup) {rest : List NodeId}
    (h : Accounts scene log w) (hrest : ∀ id ∈ rest, id ∈ (Host.view scene).ids) :
    ∃ log', log'.map Attempt.node = log.map Attempt.node ++ rest ∧ Accounts scene log' (rest.foldl removeOne w) := by
  induction rest generalizing log w with
  | nil => exact ⟨log, by simp, h⟩
  | cons id rest ih =>
    obtain ⟨error?, hstep⟩ := h.step hremoves hids (hrest id List.mem_cons_self)
    obtain ⟨log', hlog', hrun⟩ := ih hstep fun id hid => hrest id (List.mem_cons_of_mem _ hid)
    exact ⟨log', by simpa using hlog', hrun⟩

theorem exists_accounts (hremoves : Host.RemovesOne σ) (hids : (Host.view scene).ids.Nodup) (l : Liveness) :
    ∃ log, log.map Attempt.node = agenda (Host.view scene) (.keeping (Host.view scene).ids) l ∧
      Accounts scene log (run scene l) := by
  obtain ⟨log, hlog, h⟩ := (Accounts.start hids).run hremoves hids fun id hid => ((mem_agenda_iff (l := l) hids).mp hid).1
  exact ⟨log, hlog, h⟩

theorem Accounts.get? (h : Accounts scene log w) (hid : id ∈ (Host.view scene).ids) :
    w.mapping.get? id = some (if ⟨id, none⟩ ∈ log then .removed else .kept id) := by
  rw [RemovalMap.get?, OrderedMap.get?, h.entries]
  exact lookup_map_of_mem hid _

theorem Accounts.get?_eq_removed_iff (h : Accounts scene log w) (hid : id ∈ (Host.view scene).ids) :
    w.mapping.get? id = some .removed ↔ ⟨id, none⟩ ∈ log := by
  rw [h.get? hid]
  split <;> simp [*]

theorem Accounts.keys (h : Accounts scene log w) : w.mapping.entries.keys = (Host.view scene).ids := by
  rw [OrderedMap.keys, h.entries, List.map_map]
  exact List.map_id _

/-- A removed node is gone. -/
theorem Accounts.notMem_iff (h : Accounts scene log w) (hid : id ∈ (Host.view scene).ids) :
    id ∉ (Host.view w.scene).ids ↔ ⟨id, none⟩ ∈ log := by
  simp [h.listed.mem_iff, hid]

/-- A node that was tried once is in the mapping as removed, or it is reported once. -/
theorem Accounts.fate (h : Accounts scene log w) (hlog : (log.map Attempt.node).Nodup)
    (hid : id ∈ (Host.view scene).ids) (htried : id ∈ log.map Attempt.node) :
    (w.mapping.get? id = some .removed ∧ (w.diagnostics.filterMap Diagnostic.refused?).count id = 0) ∨
      (w.mapping.get? id = some (.kept id) ∧ (w.diagnostics.filterMap Diagnostic.refused?).count id = 1) := by
  obtain ⟨a, ha, rfl⟩ := List.mem_map.mp htried
  rw [h.diagnostics, Attempt.count_refused? hlog ha, h.get? hid]
  cases herror : a.error? with
  | none =>
    have hmem : ⟨a.node, none⟩ ∈ log := herror ▸ ha
    simp [hmem]
  | some e =>
    have hnone : ⟨a.node, none⟩ ∉ log := by
      intro hmem
      rw [← Attempt.eq_of_node_eq hlog hmem ha rfl] at herror
      cases herror
    simp [hnone]

end Log

section Order
variable {v : SceneView} {l : Liveness} {id other : NodeId} {k : Nat}

/-- On a way up that comes to an end the lower of two dead nodes is tried first. -/
theorem sublist_agenda (hids : v.ids.Nodup) (hid : id ∈ agenda v (.keeping v.ids) l)
    (hother : other ∈ agenda v (.keeping v.ids) l) (hdepth : v.HasDepth id k) (hlisted : v.ListedBelowTop id)
    (hup : TransGen v.HangsBelow id other) : [id, other].Sublist (agenda v (.keeping v.ids) l) := by
  have hless := hdepth.depth_lt hlisted hup
  have hsorted := pairwise_agenda (l := l) hids
  obtain ⟨before, after, he⟩ := List.append_of_mem hid
  rw [he] at hother hsorted ⊢
  -- What stands before a node is at least as deep, and what is above it is not.
  rcases List.mem_append.mp hother with hbefore | hafter
  · have horder := (List.pairwise_append.mp hsorted).2.2 other hbefore id List.mem_cons_self
    omega
  · rcases List.mem_cons.mp hafter with rfl | hafter
    · exact absurd hless (Nat.lt_irrefl _)
    · have hpair : [id, other].Sublist (id :: after) := (List.singleton_sublist.mpr hafter).cons_cons id
      exact hpair.trans (List.sublist_append_right _ _)

end Order

/-- For every host that removes no more than it is asked to, whatever it refuses: a sweep tries each dead
node of the scene once and no other node. The mapping lists the nodes as they were; it has those as removed
whose removal succeeded, and these are gone. The others that were tried are reported once. Where a way up
comes to an end, and only its last node may be missing, dead nodes are tried from below. -/
theorem attempts_exact {σ : Type} [Host σ] (hremoves : Host.RemovesOne σ) (scene : σ)
    (hids : (Host.view scene).ids.Nodup) (l : Liveness) :
    let v := Host.view scene
    let w := run scene l
    ∃ log : List Attempt,
      (w = (log.map Attempt.node).foldl removeOne { scene, mapping := .keeping v.ids } ∧ Attempts scene log w.scene) ∧
      ((log.map Attempt.node).Nodup ∧ ∀ id, id ∈ log.map Attempt.node ↔ id ∈ v.ids ∧ l.isDead id = true) ∧
      w.mapping.entries.keys = v.ids ∧
      (∀ id ∈ v.ids,
        (w.mapping.get? id = some .removed ↔ l.isDead id = true ∧ ⟨id, none⟩ ∈ log) ∧
        (w.mapping.get? id = some .removed ↔ id ∉ (Host.view w.scene).ids) ∧
        (w.mapping.get? id ≠ some .removed → w.mapping.get? id = some (.kept id))) ∧
      w.diagnostics = log.filterMap Attempt.report? ∧
      (∀ id ∈ v.ids, l.isDead id = true →
        (w.mapping.get? id = some .removed ∧ (w.diagnostics.filterMap Diagnostic.refused?).count id = 0) ∨
        (w.mapping.get? id = some (.kept id) ∧ (w.diagnostics.filterMap Diagnostic.refused?).count id = 1)) ∧
      ∀ id ∈ v.ids, ∀ other ∈ v.ids, l.isDead id = true → l.isDead other = true →
        (∃ k, v.HasDepth id k) → v.ListedBelowTop id → TransGen v.HangsBelow id other →
        [id, other].Sublist (log.map Attempt.node) := by
  intro v w
  obtain ⟨log, hlog, h⟩ := exists_accounts hremoves hids l
  have hnodup : (log.map Attempt.node).Nodup := hlog ▸ nodup_agenda hids
  have hmem : ∀ id, id ∈ log.map Attempt.node ↔ id ∈ v.ids ∧ l.isDead id = true := fun id => hlog ▸ mem_agenda_iff hids
  refine ⟨log, ⟨by rw [hlog]; rfl, h.attempts⟩, ⟨hnodup, hmem⟩, h.keys, fun id hid => ⟨?_, ?_, ?_⟩, h.diagnostics,
    fun id hid hdead => h.fate hnodup hid ((hmem id).mpr ⟨hid, hdead⟩), ?_⟩
  · rw [h.get?_eq_removed_iff hid, iff_and_self]
    exact fun htried => ((hmem id).mp (List.mem_map_of_mem htried)).2
  · rw [h.get?_eq_removed_iff hid, h.notMem_iff hid]
  · rw [h.get? hid]
    split <;> simp
  · rintro id hid other hother hdead hdead' ⟨k, hdepth⟩ hlisted hup
    rw [hlog]
    exact sublist_agenda hids ((mem_agenda_iff hids).mpr ⟨hid, hdead⟩) ((mem_agenda_iff hids).mpr ⟨hother, hdead'⟩)
      hdepth hlisted hup

/-- The nodes 3 and 4 lie below each other. The parent 9 of the node 2 is missing. -/
def cellar : Listing := .ofList
    [(2, { type? := some "Transform", kind? := some .transform, parent? := some 9 }),
     (1, { type? := some "Animator", kind? := some .component, parent? := some 2 }),
     (3, { type? := some "Transform", kind? := some .transform, parent? := some 4 }),
     (4, { type? := some "Transform", kind? := some .transform, parent? := some 3 }),
     (5, { type? := some "Transform", kind? := some .transform })] [4]

/-- The node 1 is tried before the node 2, on which it hangs. The node 4 is held, so it is kept and reported
once. -/
theorem attempts_exact_cellar :
    let l : Liveness := ⟨⟨[(1, .dead), (2, .dead), (3, .dead), (4, .dead), (5, .live (.entrypoint .declared))]⟩⟩
    (∃ log, Attempts cellar log (run cellar l).scene ∧ [1, 2].Sublist (log.map Attempt.node) ∧
      5 ∉ log.map Attempt.node) ∧
    (run cellar l).mapping.get? 4 = some (.kept 4) ∧
    ((run cellar l).diagnostics.filterMap Diagnostic.refused?).count 4 = 1 := by
  intro l
  obtain ⟨log, ⟨-, hlog⟩, ⟨-, htried⟩, -, hmapping, -, hfate, horder⟩ :=
    attempts_exact Listing.removesOne cellar (by decide) l
  have hdepth : (Host.view cellar).HasDepth 1 2 := .child rfl (.child rfl (.top rfl))
  have hheld : 4 ∈ (Host.view (run cellar l).scene).ids :=
    (hlog.preserves (fun _ _ _ => Listing.held_of_remove 4) ⟨by decide, by decide⟩).2
  refine ⟨⟨log, hlog, ?_, fun h => absurd ((htried 5).mp h).2 (by decide)⟩, ?_⟩
  · exact horder 1 (by decide) 2 (by decide) (by decide) (by decide) ⟨2, hdepth⟩ (cellar.listsContained_view.listedBelowTop 1) (.single rfl)
  · rcases hfate 4 (by decide) (by decide) with ⟨hremoved, -⟩ | hkept
    · exact absurd hheld ((hmapping 4 (by decide)).2.1.mp hremoved)
    · exact hkept

end Sweep

end ScenePrune

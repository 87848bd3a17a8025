import ScenePrune.Proofs.Run.Analysis
import ScenePrune.Scene.Listing

/-! # Runs that fail and runs that end

Plugins and predicates are called about one node at a time, and each call may ask the run to stop.
`Collector.Tracks` says what the monitor and the graph show after some of the passes; taking one
pass keeps it, so it holds wherever a run stops. A run of which nobody asks this ends with every
step counted. One that fails never asks the scene to remove anything. Ids may repeat throughout.
-/
namespace ScenePrune

inductive Callback where
  | dependencies (plugin : Plugin) (id : NodeId)
  | mutations (plugin : Plugin) (id : NodeId)
  | predicate (predicate : Predicate) (id : NodeId)

namespace Callback

def pass : Callback → Pass
  | dependencies _ _ | mutations _ _ => .dependencies
  | predicate _ _ => .entrypoints

def cancels (v : SceneView) : Callback → Bool
  | dependencies p id => (p.dependencies ⟨v, id⟩).cancels
  | mutations p id => (p.mutations ⟨v, id⟩).cancels
  | predicate p id => (p.judge ⟨v, id⟩).cancels

end Callback

def SceneView.FirstUntyped (v : SceneView) (id : NodeId) : Prop :=
  ∃ before after, v.ids = before ++ id :: after ∧ (∀ i ∈ before, (v.type? i).isSome) ∧
    v.type? id = none

namespace EntrypointRules
variable {n : Subject}

theorem mem_consulted {q : Predicate} {predicates : List Predicate} : q ∈ consulted n predicates ↔
    ∃ before after, predicates = before ++ q :: after ∧ ∀ p ∈ before, (p.judge n).holds = false := by
  induction predicates with
  | nil => simp [consulted]
  | cons p rest ih =>
    unfold consulted
    constructor
    · intro h
      split at h
      case isTrue =>
        obtain rfl := List.mem_singleton.mp h
        exact ⟨[], rest, rfl, by simp⟩
      case isFalse hp =>
        rcases List.mem_cons.mp h with rfl | h
        · exact ⟨[], rest, rfl, by simp⟩
        · obtain ⟨before, after, rfl, hbefore⟩ := ih.mp h
          exact ⟨p :: before, after, rfl, List.forall_mem_cons.mpr ⟨by simpa using hp, hbefore⟩⟩
    · rintro ⟨_ | ⟨_, before⟩, after, he, hbefore⟩
      · obtain ⟨rfl, rfl⟩ := List.cons.inj he
        split <;> simp
      · obtain ⟨rfl, rfl⟩ := List.cons.inj he
        obtain ⟨hp, hbefore⟩ := List.forall_mem_cons.mp hbefore
        rw [hp, if_neg (by simp)]
        exact List.mem_cons_of_mem _ (ih.mpr ⟨before, after, rfl, hbefore⟩)

theorem cancels_iff {r : EntrypointRules} : r.cancels n = true ↔
    (r.roots = true → n.parent? ≠ none) ∧ (∀ type, n.type? = some type → type ∉ r.types) ∧
      ∃ q before after, r.predicates = before ++ q :: after ∧
        (∀ p ∈ before, (p.judge n).holds = false) ∧ (q.judge n).cancels = true := by
  have hroots : (!(r.roots && n.parent?.isNone)) = true ↔ (r.roots = true → n.parent? ≠ none) := by
    cases r.roots <;> simp [Option.isSome_iff_ne_none]
  have htypes : (!r.fixesType n) = true ↔ ∀ type, n.type? = some type → type ∉ r.types := by
    cases h : n.type? <;> simp [fixesType, h]
  rw [cancels, Bool.and_eq_true, Bool.and_eq_true, hroots, htypes, List.any_eq_true, and_assoc]
  simp only [mem_consulted]
  constructor
  · rintro ⟨hr, ht, q, ⟨before, after, hq, hbefore⟩, hc⟩
    exact ⟨hr, ht, q, before, after, hq, hbefore, hc⟩
  · rintro ⟨hr, ht, q, before, after, hq, hbefore, hc⟩
    exact ⟨hr, ht, q, ⟨before, after, hq, hbefore⟩, hc⟩

end EntrypointRules

/-- What comes before a pass is fixed, since no pass comes twice. -/
theorem Pass.eq_takeWhile {pass : Pass} {done rest : List Pass} (h : Pass.all = done ++ pass :: rest) :
    done = Pass.all.takeWhile (· ≠ pass) := by
  have hnodup : (done ++ pass :: rest).Nodup := h ▸ (by decide : Pass.all.Nodup)
  have hpast : ∀ q ∈ done, decide (q ≠ pass) = true := fun q hq =>
    decide_eq_true ((List.nodup_append.mp hnodup).2.2 q hq pass List.mem_cons_self)
  rw [h, List.takeWhile_append_of_pos hpast, List.takeWhile_cons_of_neg (by simp), List.append_nil]

namespace Collector
variable (c : Collector) (v : SceneView)

/-- The calls that a run makes as long as it goes on. A plugin is asked about mutations even if it
failed over the dependencies; a predicate is asked unless an earlier rule settles the node. -/
inductive Calls : Callback → Prop where
  | dependencies {id : NodeId} {type : TypeName} {p : Plugin} : id ∈ v.ids → v.type? id = some type →
      c.registry.lookup type = .ok p → Calls (.dependencies p id)
  | mutations {id : NodeId} {type : TypeName} {p : Plugin} : id ∈ v.ids → v.type? id = some type →
      c.registry.lookup type = .ok p → Calls (.mutations p id)
  | predicate {id : NodeId} {q : Predicate} {before after : List Predicate} : id ∈ v.ids →
      (c.rules.roots = true → v.parent? id ≠ none) →
      (∀ type, v.type? id = some type → type ∉ c.rules.types) →
      c.rules.predicates = before ++ q :: after →
      (∀ p ∈ before, (p.judge ⟨v, id⟩).holds = false) → Calls (.predicate q id)

def StopsIn (pass : Pass) : Prop := ∃ k, c.Calls v k ∧ k.pass = pass ∧ k.cancels v = true

/-- The passes that a run completes if it is cancelled: all up to the first in which someone asks
for it, and none if the monitor was cancelled before. -/
inductive Completes (m : Monitor) : List Pass → Prop where
  | none : m.cancelled = true → Completes m []
  | upTo {before after : List Pass} {pass : Pass} : m.cancelled = false →
      Pass.all = before ++ pass :: after → (∀ q ∈ before, ¬ c.StopsIn v q) → c.StopsIn v pass →
      Completes m (before ++ [pass])

section Runs
variable {σ : Type} [Host σ] (o : Options) (scene : σ) (m : Monitor)

/-- The scene stays as it was and is asked to remove nothing: the run would be the same whatever
it answered to that. -/
structure LeavesAlone : Prop where
  unchanged : (c.collect o scene m).scene = scene
  unasked : ∀ remove, @collect σ ⟨Host.view, remove⟩ c o scene m = c.collect o scene m

structure FailsWith (e : RunError) : Prop where
  analyze : (c.analyze o (Host.view scene) m).result = .error e
  collect : (c.collect o scene m).result = .error e
  untouched : c.LeavesAlone o scene m

end Runs

section Callbacks
variable {c v} {pass : Pass}

theorem pluginCancels_iff {id : NodeId} {type : TypeName} (htype : v.type? id = some type) :
    c.pluginCancels v id = true ↔ ∃ p, c.registry.lookup type = .ok p ∧
      ((p.dependencies ⟨v, id⟩).cancels = true ∨ (p.mutations ⟨v, id⟩).cancels = true) := by
  rw [pluginCancels, SceneView.typeOf, htype, Option.getD_some]
  cases c.registry.lookup type <;> simp

theorem stopsIn_dependencies (hv : v.Typed) :
    c.StopsIn v .dependencies ↔ ∃ id ∈ v.ids, c.pluginCancels v id = true := by
  constructor
  · rintro ⟨_, hk, hpass, hc⟩
    cases hk with
    | predicate => cases hpass
    | dependencies hid htype hp => exact ⟨_, hid, (pluginCancels_iff htype).mpr ⟨_, hp, Or.inl hc⟩⟩
    | mutations hid htype hp => exact ⟨_, hid, (pluginCancels_iff htype).mpr ⟨_, hp, Or.inr hc⟩⟩
  · rintro ⟨id, hid, hc⟩
    obtain ⟨type, htype⟩ := Option.isSome_iff_exists.mp (hv id hid)
    obtain ⟨p, hp, hc | hc⟩ := (pluginCancels_iff htype).mp hc
    · exact ⟨_, .dependencies hid htype hp, rfl, hc⟩
    · exact ⟨_, .mutations hid htype hp, rfl, hc⟩

theorem stopsIn_entrypoints :
    c.StopsIn v .entrypoints ↔ ∃ id ∈ v.ids, c.rules.cancels ⟨v, id⟩ = true := by
  constructor
  · rintro ⟨_, hk, hpass, hc⟩
    cases hk with
    | dependencies | mutations => cases hpass
    | predicate hid hroots htypes hq hbefore =>
      exact ⟨_, hid, EntrypointRules.cancels_iff.mpr ⟨hroots, htypes, _, _, _, hq, hbefore, hc⟩⟩
  · rintro ⟨id, hid, hc⟩
    obtain ⟨hroots, htypes, q, before, after, hq, hbefore, hc⟩ := EntrypointRules.cancels_iff.mp hc
    exact ⟨_, .predicate hid hroots htypes hq hbefore, rfl, hc⟩

theorem StopsIn.pass_eq (h : c.StopsIn v pass) : pass = .dependencies ∨ pass = .entrypoints := by
  obtain ⟨k, -, rfl, -⟩ := h
  cases k <;> simp [Callback.pass]

/-- A callback asks to cancel just if the run in closed form says so. -/
theorem exists_calls_iff (hv : v.Typed) : (∃ k, c.Calls v k ∧ k.cancels v = true) ↔ c.cancels v = true := by
  have hpasses : (∃ k, c.Calls v k ∧ k.cancels v = true) ↔
      c.StopsIn v .dependencies ∨ c.StopsIn v .entrypoints := by
    constructor
    · rintro ⟨k, hk, hc⟩
      have h : c.StopsIn v k.pass := ⟨k, hk, rfl, hc⟩
      rcases h.pass_eq with hp | hp
      · exact Or.inl (hp ▸ h)
      · exact Or.inr (hp ▸ h)
    · rintro (⟨k, hk, -, hc⟩ | ⟨k, hk, -, hc⟩)
      · exact ⟨k, hk, hc⟩
      · exact ⟨k, hk, hc⟩
  rw [hpasses, stopsIn_dependencies hv, stopsIn_entrypoints, cancels]
  simp only [List.any_eq_true, Bool.or_eq_true, and_or_left, exists_or]

end Callbacks

def turn (o : Options) (p : Progress) (pass : Pass) : Progress :=
  if pass.isEnabled o then c.announce o v p pass else { p with monitor := p.monitor.advance }

def interrupts (p : Progress) : Pass → Bool
  | .dependencies => (p.graph.draft v c.registry c.animations).cancelled
  | .entrypoints => p.graph.nodes.any fun n => c.rules.cancels ⟨v, n.id⟩
  | _ => false

/-- What a run shows after the passes in `done`: the monitor has counted them, it is cancelled if it
was so before or if someone asked for it, and from the first pass on the graph has the listed nodes. -/
structure Tracks (m : Monitor) (done : List Pass) (p : Progress) : Prop where
  progress : p.monitor.progress = done.length
  maxProgress : p.monitor.maxProgress = stepCount
  cancelled : p.monitor.cancelled = true ↔ m.cancelled = true ∨ ∃ pass ∈ done, c.StopsIn v pass
  empty : done = [] → p.graph = ∅
  listed : done ≠ [] → p.graph.nodes.map (·.id) = v.ids

section Passes
variable {c v} {o : Options} {p : Progress} {pass : Pass} {done rest : List Pass} {m : Monitor}

theorem map_id_nodes_withEntrypoints {g : Graph} {rules : EntrypointRules} :
    (g.withEntrypoints rules v).nodes.map (·.id) = g.nodes.map (·.id) := by
  simp only [Graph.withEntrypoints, Graph.nodes, List.filterMap_map, List.map_filterMap]
  apply List.filterMap_congr
  rintro (_ | n) _
  · rfl
  · simp only [Function.comp_apply, Option.map_some, id_eq]
    split <;> rfl

variable (c v o p pass) in
theorem turn_monitor : ∃ message?, (c.turn v o p pass).monitor =
    { progress := p.monitor.progress + 1
      maxProgress := p.monitor.maxProgress
      cancelled := p.monitor.cancelled || c.interrupts v p pass
      message? } := by
  unfold turn
  cases he : pass.isEnabled o with
  | true =>
    obtain ⟨printed, h⟩ := c.announce_eq v o p pass
    refine ⟨some pass.status, ?_⟩
    rw [if_pos rfl, h]
    cases pass with
    | dependencies =>
      simp only [perform, withGraph, interrupts]
      cases (p.graph.draft v c.registry c.animations).cancelled <;>
        simp [Monitor.advance, Monitor.say, Monitor.cancel]
    | entrypoints =>
      simp only [perform, withEntrypoints, interrupts]
      cases p.graph.nodes.any fun n => c.rules.cancels ⟨v, n.id⟩ <;>
        simp [Monitor.advance, Monitor.say, Monitor.cancel]
    | activeness | liveness | dot =>
      simp [perform, interrupts, Progress.withActiveness, Progress.withLiveness, Progress.withDot,
        Monitor.advance, Monitor.say]
  | false =>
    cases pass with
    | dot => exact ⟨p.monitor.message?, by simp [interrupts, Monitor.advance]⟩
    | dependencies | entrypoints | activeness | liveness => cases he

variable (c v o p pass) in
theorem turn_eq : ∃ monitor printed, c.turn v o p pass =
    { if pass.isEnabled o then c.perform v p pass else p with monitor, printed } := by
  unfold turn
  split
  case isTrue =>
    obtain ⟨printed, h⟩ := c.announce_eq v o p pass
    rw [h]
    cases pass <;> exact ⟨_, printed, rfl⟩
  case isFalse => exact ⟨_, p.printed, rfl⟩

theorem graph_turn : (c.turn v o p pass).graph =
    match pass with
    | .dependencies => (p.graph.draft v c.registry c.animations).graph
    | .entrypoints => p.graph.withEntrypoints c.rules v
    | .activeness | .liveness | .dot => p.graph := by
  obtain ⟨_, _, h⟩ := c.turn_eq v o p pass
  rw [h]
  cases pass <;> first | rfl | (split <;> rfl)

theorem activeness?_turn : (c.turn v o p pass).activeness? =
    match pass with
    | .activeness => some (p.graph.activeness (p.writers?.getD ∅))
    | .dependencies | .entrypoints | .liveness | .dot => p.activeness? := by
  obtain ⟨_, _, h⟩ := c.turn_eq v o p pass
  rw [h]
  cases pass <;> first | rfl | (split <;> rfl)

theorem liveness?_turn : (c.turn v o p pass).liveness? =
    match pass with
    | .liveness => some (p.graph.liveness (p.activeness?.getD ∅))
    | .dependencies | .entrypoints | .activeness | .dot => p.liveness? := by
  obtain ⟨_, _, h⟩ := c.turn_eq v o p pass
  rw [h]
  cases pass <;> first | rfl | (split <;> rfl)

variable (c v o p) in
/-- All passes together leave neither analysis out, and the liveness is that of the activeness. -/
theorem exists_found_turns : ∃ activeness, (Pass.all.foldl (c.turn v o) p).activeness? = some activeness ∧
    (Pass.all.foldl (c.turn v o) p).liveness? =
      some ((Pass.all.foldl (c.turn v o) p).graph.liveness activeness) := by
  simp only [Pass.all, List.foldl_cons, List.foldl_nil, graph_turn, activeness?_turn, liveness?_turn,
    Option.some.injEq, exists_eq_left', Option.getD_some]

namespace Tracks

theorem start : c.Tracks v m [] { monitor := m.expect stepCount } where
  progress := rfl
  maxProgress := rfl
  cancelled := by simp [Monitor.expect]
  empty := fun _ => rfl
  listed := fun h => absurd rfl h

theorem interrupts_iff (hv : v.Typed) (h : c.Tracks v m done p) (hl : Pass.all = done ++ pass :: rest) :
    c.interrupts v p pass = true ↔ c.StopsIn v pass := by
  cases pass with
  | dependencies =>
    have hgraph := h.empty (Pass.eq_takeWhile hl)
    rw [stopsIn_dependencies hv, interrupts, hgraph, cancelled_draft hv, List.any_eq_true]
  | entrypoints =>
    have hlisted := h.listed (Pass.eq_takeWhile hl ▸ by decide)
    rw [stopsIn_entrypoints, interrupts, ← hlisted]
    simp
  | activeness | liveness | dot =>
    constructor
    · intro hc
      cases hc
    · intro hs
      rcases hs.pass_eq with hp | hp <;> cases hp

/-- One more pass. -/
theorem turn (hv : v.Typed) (h : c.Tracks v m done p) (hl : Pass.all = done ++ pass :: rest) :
    c.Tracks v m (done ++ [pass]) (c.turn v o p pass) := by
  obtain ⟨message?, hm⟩ := c.turn_monitor v o p pass
  constructor
  case progress => simp [hm, h.progress]
  case maxProgress => rw [hm]; exact h.maxProgress
  case cancelled =>
    have hstops := h.interrupts_iff hv hl
    simp [hm, h.cancelled, hstops, or_and_right, exists_or, or_assoc]
  case empty => simp
  case listed =>
    intro _
    rw [graph_turn]
    cases pass with
    | dependencies =>
      simp only [h.empty (Pass.eq_takeWhile hl)]
      exact nodes_draft hv
    | entrypoints => exact map_id_nodes_withEntrypoints.trans (h.listed (Pass.eq_takeWhile hl ▸ by decide))
    | activeness | liveness | dot => exact h.listed (Pass.eq_takeWhile hl ▸ by decide)

end Tracks

theorem performAll_turn (h : p.monitor.cancelled = false) :
    c.performAll o v (pass :: rest) p = c.performAll o v rest (c.turn v o p pass) := by
  rw [performAll, turn]
  cases pass.isEnabled o <;> simp [h]

theorem performAll_stop (he : pass.isEnabled o = true) (h : p.monitor.cancelled = true) :
    c.performAll o v (pass :: rest) p = p := by
  rw [performAll]
  simp [he, h]

/-- As long as nobody asks to cancel, a run takes its passes one after another. -/
theorem Tracks.performAll (hv : v.Typed) {passes : List Pass} (h : c.Tracks v m done p)
    (hl : Pass.all = done ++ passes ++ rest) (hp : p.monitor.cancelled = false)
    (hquiet : ∀ pass ∈ passes, ¬ c.StopsIn v pass) :
    c.Tracks v m (done ++ passes) (passes.foldl (c.turn v o) p) ∧
      (passes.foldl (c.turn v o) p).monitor.cancelled = false ∧
      c.performAll o v (passes ++ rest) p = c.performAll o v rest (passes.foldl (c.turn v o) p) := by
  induction passes generalizing done p with
  | nil => exact ⟨by simpa using h, hp, rfl⟩
  | cons pass passes ih =>
    obtain ⟨hpass, hquiet⟩ := List.forall_mem_cons.mp hquiet
    have hl : Pass.all = done ++ pass :: (passes ++ rest) := by simpa using hl
    have hturn := h.turn (o := o) hv hl
    have hnext : (c.turn v o p pass).monitor.cancelled = false := by
      obtain ⟨_, hm⟩ := c.turn_monitor v o p pass
      have hquiet := (h.interrupts_iff hv hl).not.mpr hpass
      simpa [hm, hp] using hquiet
    obtain ⟨h', hp', hrun⟩ := ih hturn (by simpa using hl) hnext hquiet
    exact ⟨by simpa using h', hp', (performAll_turn hp).trans hrun⟩

/-- A pass that can be stopped is followed by one that no options skip. -/
theorem StopsIn.next_isEnabled (h : c.StopsIn v pass) (hl : Pass.all = done ++ pass :: rest) :
    ∃ next later, rest = next :: later ∧ next.isEnabled o = true := by
  have hpast := Pass.eq_takeWhile hl
  rcases h.pass_eq with rfl | rfl
  · obtain rfl : done = [] := hpast
    obtain rfl : _ = rest := (List.cons.inj hl).2
    exact ⟨_, _, rfl, rfl⟩
  · obtain rfl : done = [.dependencies] := hpast
    obtain rfl : _ = rest := (List.cons.inj (List.cons.inj hl).2).2
    exact ⟨_, _, rfl, rfl⟩

/-- No options skip a pass that a cancelled run completes. -/
theorem Completes.isEnabled (h : c.Completes v m done) (hpass : pass ∈ done) : pass.isEnabled o = true := by
  cases h with
  | none => cases hpass
  | upTo _ hl _ hstop =>
    have hpast := Pass.eq_takeWhile hl
    rcases hstop.pass_eq with rfl | rfl
    · obtain rfl : _ = [] := hpast
      obtain rfl := List.mem_singleton.mp hpass
      rfl
    · obtain rfl : _ = [Pass.dependencies] := hpast
      rcases List.mem_pair.mp hpass with rfl | rfl <;> rfl

theorem foldl_turn (h : ∀ pass ∈ done, pass.isEnabled o = true) :
    done.foldl (c.turn v o) p = done.foldl (c.announce o v) p := by
  apply List.foldl_ext
  intro p pass hpass
  rw [turn, if_pos (h pass hpass)]

/-- A run that is cancelled performs the passes that it completes, and no others. -/
theorem Completes.performAll (hv : v.Typed) (h : c.Completes v m done) :
    c.performAll o v Pass.all { monitor := m.expect stepCount } =
        done.foldl (c.announce o v) { monitor := m.expect stepCount } ∧
      c.Tracks v m done (done.foldl (c.announce o v) { monitor := m.expect stepCount }) ∧
      (done.foldl (c.announce o v) { monitor := m.expect stepCount }).monitor.cancelled = true := by
  rw [← foldl_turn fun pass hpass => h.isEnabled hpass]
  cases h with
  | none hm => exact ⟨performAll_stop rfl hm, .start, hm⟩
  | @upTo before after pass hm hl hquiet hstop =>
    obtain ⟨hp, hcancelled, hrun⟩ := Tracks.start.performAll (c := c) (o := o) hv hl hm hquiet
    have hturn := hp.turn (o := o) hv hl
    have hend := hturn.cancelled.mpr (Or.inr ⟨pass, List.mem_append_right _ List.mem_cons_self, hstop⟩)
    obtain ⟨next, later, rfl, he⟩ := hstop.next_isEnabled (o := o) hl
    rw [List.foldl_append]
    refine ⟨?_, hturn, hend⟩
    rw [hl, hrun, performAll_turn hcancelled, performAll_stop he hend]
    rfl

theorem exists_completes (h : m.cancelled = true ∨ ∃ k, c.Calls v k ∧ k.cancels v = true) :
    ∃ done, c.Completes v m done := by
  cases hm : m.cancelled with
  | true => exact ⟨[], .none hm⟩
  | false =>
    obtain ⟨k, hk, hc⟩ := h.resolve_left (by simp [hm])
    have hstop : c.StopsIn v k.pass := ⟨k, hk, rfl, hc⟩
    by_cases hfirst : c.StopsIn v .dependencies
    · exact ⟨[] ++ [.dependencies], .upTo hm rfl (by simp) hfirst⟩
    · have hsecond : k.pass = .entrypoints := hstop.pass_eq.resolve_left fun hp => hfirst (hp ▸ hstop)
      exact ⟨[.dependencies] ++ [.entrypoints], .upTo hm rfl (by simpa using hfirst) (hsecond ▸ hstop)⟩

theorem Completes.length_lt (h : c.Completes v m done) : done.length < stepCount := by
  cases h with
  | none => decide
  | upTo _ hl =>
    simp only [stepCount, hl, List.length_append, List.length_cons, List.length_nil]
    omega

theorem untyped?_eq_some_iff {id : NodeId} : untyped? v = some id ↔ v.FirstUntyped id := by
  simp only [untyped?, List.find?_eq_some_iff_append, SceneView.FirstUntyped, Option.isNone_iff_eq_none,
    Bool.not_eq_true', Option.isNone_eq_false_iff]
  constructor
  · rintro ⟨hid, before, after, hl, hbefore⟩
    exact ⟨before, after, hl, hbefore, hid⟩
  · rintro ⟨before, after, hl, hbefore, hid⟩
    exact ⟨hid, before, after, hl, hbefore⟩

theorem analyze_untyped {id : NodeId} (h : v.FirstUntyped id) :
    c.analyze o v m = { result := .error (.scene (.nodeNotFound id)), monitor := m } := by
  simp only [analyze, untyped?_eq_some_iff.mpr h]

theorem analyze_cancelled (hv : v.Typed) (h : c.Completes v m done) :
    (c.analyze o v m).result = .error .cancelled ∧
      (c.analyze o v m).monitor = (done.foldl (c.announce o v) { monitor := m.expect stepCount }).monitor := by
  obtain ⟨hrun, -, hcancelled⟩ := h.performAll (o := o) hv
  simp only [analyze, untyped?_eq_none hv, hrun]
  exact ⟨Progress.analysis_of_cancelled hcancelled, trivial⟩

theorem analyze_quiet (hv : v.Typed) (hm : m.cancelled = false) (hquiet : ∀ pass, ¬ c.StopsIn v pass) :
    (∃ a, (c.analyze o v m).result = .ok a) ∧ (c.analyze o v m).monitor.progress = Pass.all.length ∧
      (c.analyze o v m).monitor.maxProgress = stepCount := by
  have hall : Pass.all = [] ++ Pass.all ++ [] := rfl
  obtain ⟨hp, hcancelled, hrun⟩ :=
    Tracks.start.performAll (c := c) (o := o) hv hall hm fun pass _ => hquiet pass
  rw [List.append_nil, Collector.performAll] at hrun
  obtain ⟨activeness, ha, hl⟩ := c.exists_found_turns v o { monitor := m.expect stepCount }
  simp only [analyze, untyped?_eq_none hv, hrun]
  exact ⟨⟨_, Progress.analysis_of_found hcancelled ha hl⟩, hp.progress, hp.maxProgress⟩

end Passes

section Results
variable {σ : Type} [Host σ] {c} {o : Options} {scene : σ} {m : Monitor} {e : RunError}

/-- A collection fails just like the analysis that it starts with. -/
theorem failsWith_of_analyze (h : (c.analyze o (Host.view scene) m).result = .error e) :
    c.FailsWith o scene m e where
  analyze := h
  collect := by rw [collect_of_error h]
  untouched :=
    { unchanged := by rw [collect_of_error h]
      unasked := by
        intro remove
        exact (@collect_of_error c o m σ ⟨Host.view, remove⟩ scene e h).trans (collect_of_error h).symm }

theorem leavesAlone_of_dryRun (hd : o.dryRun = true) : c.LeavesAlone o scene m := by
  cases h : (c.analyze o (Host.view scene) m).result with
  | error e => exact (failsWith_of_analyze h).untouched
  | ok a =>
    constructor
    case unchanged =>
      rw [collect_of_ok h, conclude, hd, cancelled_analyze_of_ok h]
      rfl
    case unasked =>
      intro remove
      rw [collect_of_ok h, @collect_of_ok c o m σ ⟨Host.view, remove⟩ scene a h]
      simp only [conclude, hd, if_true]

variable (o scene) in
theorem conclude_eq {run : Run Analysis} (hrun : run.monitor.cancelled = false) (a : Analysis) :
    ∃ out : Outcome σ, (conclude o scene run a).result = .ok out ∧ (conclude o scene run a).scene = out.scene ∧
      (o.dryRun = true → out.mapping? = none) ∧
      (conclude o scene run a).monitor.progress = run.monitor.progress + 1 ∧
      (conclude o scene run a).monitor.maxProgress = run.monitor.maxProgress := by
  rw [conclude, hrun]
  cases o.dryRun with
  | true => exact ⟨_, rfl, rfl, fun _ => rfl, rfl, rfl⟩
  | false => exact ⟨_, rfl, rfl, fun h => (by cases h), rfl, rfl⟩

end Results

/-- A run fails on an id without a type before it touches its monitor, and with a request to cancel
at the end of the pass in which it came; both leave the scene alone. Every other run succeeds, as no
analysis is missing in the end, and counts all of its steps. -/
theorem collect_atomic {σ : Type} [Host σ] (o : Options) (scene : σ) (m : Monitor) :
    (∀ id, (Host.view scene).FirstUntyped id → c.FailsWith o scene m (.scene (.nodeNotFound id)) ∧
      (c.analyze o (Host.view scene) m).monitor = m ∧ (c.collect o scene m).monitor = m) ∧
    ((Host.view scene).Typed →
      (m.cancelled = true ∨ ∃ k, c.Calls (Host.view scene) k ∧ k.cancels (Host.view scene) = true) →
      c.FailsWith o scene m .cancelled ∧
        ∃ done, c.Completes (Host.view scene) m done ∧ done.length < 6 ∧
          ∀ monitor ∈ [(c.analyze o (Host.view scene) m).monitor, (c.collect o scene m).monitor],
            monitor = (done.foldl (c.announce o (Host.view scene)) { monitor := m.expect 6 }).monitor ∧
              monitor.progress = done.length ∧ monitor.maxProgress = 6) ∧
    ((Host.view scene).Typed → m.cancelled = false →
      (∀ k, c.Calls (Host.view scene) k → k.cancels (Host.view scene) = false) →
      ∃ a out, (c.analyze o (Host.view scene) m).result = .ok a ∧ (c.collect o scene m).result = .ok out ∧
        (c.collect o scene m).scene = out.scene ∧
        (o.dryRun = true → out.mapping? = none ∧ c.LeavesAlone o scene m) ∧
        (c.collect o scene m).monitor.progress = 6 ∧ (c.collect o scene m).monitor.maxProgress = 6) := by
  refine ⟨?untyped, ?cancelled, ?quiet⟩
  case untyped =>
    intro id hid
    have ha := analyze_untyped (c := c) (o := o) (m := m) hid
    have hresult := congrArg Run.result ha
    exact ⟨failsWith_of_analyze hresult, by rw [ha], by rw [collect_of_error hresult, ha]⟩
  case cancelled =>
    intro hv hask
    obtain ⟨done, hdone⟩ := exists_completes hask
    obtain ⟨hresult, hmonitor⟩ := analyze_cancelled (o := o) hv hdone
    obtain ⟨-, htracks, -⟩ := hdone.performAll (o := o) hv
    refine ⟨failsWith_of_analyze hresult, done, hdone, hdone.length_lt, ?_⟩
    rw [collect_of_error hresult, hmonitor]
    simpa using ⟨rfl, htracks.progress, htracks.maxProgress⟩
  case quiet =>
    intro hv hm hcalls
    have hquiet : ∀ pass, ¬ c.StopsIn (Host.view scene) pass := by
      rintro pass ⟨k, hk, -, hc⟩
      exact absurd hc (by simp [hcalls k hk])
    obtain ⟨⟨a, ha⟩, hprogress, hmax⟩ := analyze_quiet (c := c) (o := o) hv hm hquiet
    obtain ⟨out, hout, hscene, hmapping, hp, hm'⟩ := conclude_eq o scene (cancelled_analyze_of_ok ha) a
    rw [collect_of_ok ha]
    have hsteps := hp.trans (congrArg (· + 1) hprogress)
    exact ⟨a, out, ha, hout, hscene, fun hd => ⟨hmapping hd, leavesAlone_of_dryRun hd⟩, hsteps, hm'.trans hmax⟩

def stopper : Predicate where
  name := "stop"
  judge _ := { holds := false, cancels := true }

theorem collect_atomic_lamp :
    Bundled.collector.FailsWith {} (Listing.ofList [(7, { type? := none, kind? := none })] [])
      { cancelled := true } (.scene (.nodeNotFound 7)) ∧
    ({ Bundled.collector with rules := { predicates := [stopper] } } : Collector).FailsWith
      {} Scene.lamp {} .cancelled ∧
    (Bundled.collector.collect { dryRun := true } Scene.lamp {}).monitor.progress = 6 := by
  have hlamp : (Host.view Scene.lamp).Typed := Scene.lamp_reachable.wellFormed.wellListed.typed
  refine ⟨?untyped, ?cancelled, ?quiet⟩
  case untyped =>
    exact ((collect_atomic Bundled.collector {} _ { cancelled := true }).1 7 ⟨[], [], rfl, by simp, rfl⟩).1
  case cancelled =>
    have hcall := @Calls.predicate { Bundled.collector with rules := { predicates := [stopper] } }
      (Host.view Scene.lamp) 1 stopper [] [] (by decide) (by decide) (by simp) rfl (by simp)
    exact ((collect_atomic _ {} Scene.lamp {}).2.1 hlamp (Or.inr ⟨_, hcall, rfl⟩)).1
  case quiet =>
    have hquiet : ∀ k, Bundled.collector.Calls (Host.view Scene.lamp) k →
        k.cancels (Host.view Scene.lamp) = false := by
      intro k hk
      refine Bool.eq_false_iff.mpr fun hc => ?_
      exact Bool.eq_false_iff.mp cancels_lamp ((exists_calls_iff hlamp).mp ⟨k, hk, hc⟩)
    obtain ⟨a, out, -, -, -, -, hprogress, -⟩ :=
      (collect_atomic Bundled.collector { dryRun := true } Scene.lamp {}).2.2 hlamp rfl hquiet
    exact hprogress

end Collector

end ScenePrune

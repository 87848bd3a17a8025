import ScenePrune.Proofs.Distance
import ScenePrune.Proofs.Plugin.Extension

/-! # The nearest registered ancestor handles a type

Which types a registry knows and which supertypes they have is read off the calls that built it: the first
registration of a type counts, and all declarations of supertypes add up. The search for a plugin climbs one
level of supertypes after another. A level may hold types that were met before, and hold a type more than once;
but what is nearer than the level is not registered, so among its registered types there are just those whose
distance is that of the level.
-/
namespace ScenePrune

inductive RegistryCall where
  | register (type : TypeName) (plugin : Plugin)
  | declareSupertypes (type : TypeName) (bases : List TypeName)

/-- A registration that is refused leaves the registry as it is. -/
theorem PluginRegistry.perform_registerM (r : PluginRegistry) (type : TypeName) (plugin : Plugin) :
    (registerM type plugin).perform r =
      if r.isRegistered type then (.error (.duplicateRegistration type), r)
      else (.ok (), { r with plugins := r.plugins.insert type plugin }) := by
  simp only [registerM, Edit.perform_bind, Edit.perform_get, Edit.perform_ite, Edit.perform_throw]
  split <;> rfl

namespace RegistryCall

/-- The registry after a call, which may be a registration that was refused. -/
def perform (r : PluginRegistry) : RegistryCall → PluginRegistry
  | register type plugin => (PluginRegistry.registerM type plugin).after r
  | declareSupertypes type bases => r.declareSupertypes type bases

def build (calls : List RegistryCall) : PluginRegistry := calls.foldl perform ∅

def plugin? (type : TypeName) : RegistryCall → Option Plugin
  | register type' plugin => if type = type' then some plugin else none
  | declareSupertypes _ _ => none

def registered? (calls : List RegistryCall) (type : TypeName) : Option Plugin := calls.findSome? (plugin? type)

def Declares (calls : List RegistryCall) (type base : TypeName) : Prop :=
  ∃ bases, .declareSupertypes type bases ∈ calls ∧ base ∈ bases

theorem perform_register (r : PluginRegistry) (type : TypeName) (plugin : Plugin) :
    perform r (register type plugin) =
      if r.isRegistered type then r else { r with plugins := r.plugins.insert type plugin } := by
  rw [perform, Edit.after, PluginRegistry.perform_registerM]
  split <;> rfl

theorem get?_plugins_perform (r : PluginRegistry) (call : RegistryCall) (type : TypeName) :
    (perform r call).plugins.get? type = (r.plugins.get? type).or (plugin? type call) := by
  cases call with
  | declareSupertypes _ _ => exact (Option.or_none).symm
  | register type' plugin =>
    by_cases hknown : r.isRegistered type'
    · have hsome : (r.plugins.get? type').isSome := hknown
      rw [perform_register, if_pos hknown, plugin?]
      split
      case isTrue h => rw [h, Option.or_of_isSome hsome]
      case isFalse => rw [Option.or_none]
    · have hnone : r.plugins.get? type' = none := by
        simpa [PluginRegistry.isRegistered, OrderedMap.contains] using hknown
      rw [perform_register, if_neg hknown, OrderedMap.get?_insert, plugin?]
      split
      case isTrue h => rw [h, hnone, Option.none_or]
      case isFalse => rw [Option.or_none]

/-- A type has the plugin of its first registration; the later ones are refused. -/
theorem get?_plugins_build (calls : List RegistryCall) (type : TypeName) :
    (build calls).plugins.get? type = registered? calls type := by
  have hfold : ∀ r : PluginRegistry, (calls.foldl perform r).plugins.get? type =
      (r.plugins.get? type).or (registered? calls type) := by
    induction calls with
    | nil => exact fun _ => (Option.or_none).symm
    | cons call calls ih =>
      intro r
      rw [List.foldl_cons, ih, get?_plugins_perform, Option.or_assoc, registered?, registered?, List.findSome?_cons]
      cases plugin? type call <;> rfl
  exact (hfold ∅).trans Option.none_or

theorem mem_foldl_adjoin {bases known : List TypeName} {base : TypeName} :
    base ∈ bases.foldl (fun known base => if base ∈ known then known else known ++ [base]) known ↔
      base ∈ known ∨ base ∈ bases := by
  induction bases generalizing known with
  | nil => simp
  | cons b bases ih =>
    rw [List.foldl_cons, ih, List.mem_cons, ← or_assoc]
    refine or_congr_left ?_
    split
    case isTrue hb => exact ⟨Or.inl, fun h => h.elim id fun h => h ▸ hb⟩
    case isFalse => rw [List.mem_append, List.mem_singleton]

theorem supertypes_perform_register (r : PluginRegistry) (type : TypeName) (plugin : Plugin) :
    (perform r (register type plugin)).supertypes = r.supertypes := by
  rw [perform_register]
  split <;> rfl

theorem mem_directSupertypes_perform (r : PluginRegistry) (call : RegistryCall) (type base : TypeName) :
    base ∈ (perform r call).directSupertypes type ↔ base ∈ r.directSupertypes type ∨ Declares [call] type base := by
  cases call with
  | register type' plugin => simp [PluginRegistry.directSupertypes, supertypes_perform_register, Declares]
  | declareSupertypes type' bases =>
    simp only [perform, PluginRegistry.declareSupertypes, PluginRegistry.directSupertypes, OrderedMap.get?_upsert]
    split
    case isTrue h =>
      subst h
      rw [Option.getD_some, mem_foldl_adjoin]
      simp [Declares]
    case isFalse h => simp [Declares, h]

theorem declares_cons (call : RegistryCall) (calls : List RegistryCall) {type base : TypeName} :
    Declares (call :: calls) type base ↔ Declares [call] type base ∨ Declares calls type base := by
  simp only [Declares, List.mem_cons, List.not_mem_nil, or_false, or_and_right, exists_or]

/-- The direct supertypes of a type are those that it was declared to have, whoever declared them. -/
theorem mem_directSupertypes_build (calls : List RegistryCall) (type base : TypeName) :
    base ∈ (build calls).directSupertypes type ↔ Declares calls type base := by
  have hfold : ∀ r : PluginRegistry, base ∈ (calls.foldl perform r).directSupertypes type ↔
      base ∈ r.directSupertypes type ∨ Declares calls type base := by
    induction calls with
    | nil => simp [Declares]
    | cons call calls ih =>
      intro r
      rw [List.foldl_cons, ih, mem_directSupertypes_perform, declares_cons call calls, or_assoc]
  exact (hfold ∅).trans (or_iff_right List.not_mem_nil)

end RegistryCall

namespace PluginRegistry
variable {r : PluginRegistry} {type s : TypeName} {d : Nat} {pending level : List TypeName}

def Above (r : PluginRegistry) (type base : TypeName) : Prop := base ∈ r.directSupertypes type

def Candidate (r : PluginRegistry) (type : TypeName) (d : Nat) (s : TypeName) : Prop :=
  r.isRegistered s = true ∧ ReachesIn (· = type) r.Above d s

inductive Outcome (r : PluginRegistry) (type : TypeName) : Except Unresolved Resolution → Prop where
  | nearest {d : Nat} {s : TypeName} {plugin : Plugin} : IsLeast {k | ∃ s, r.Candidate type k s} d →
      (∀ s', r.Candidate type d s' ↔ s' = s) → r.plugins.get? s = some plugin → Outcome r type (.ok ⟨plugin, s⟩)
  | several {d : Nat} {s s' : TypeName} {candidates : List TypeName} : IsLeast {k | ∃ s, r.Candidate type k s} d →
      s ≠ s' → r.Candidate type d s → r.Candidate type d s' → candidates.Pairwise (· < ·) →
      (∀ t, t ∈ candidates ↔ r.Candidate type d t) → Outcome r type (.error (.ambiguous type candidates))
  | nowhere : (∀ d s, ¬ r.Candidate type d s) → Outcome r type (.error (.unregistered type))

section Found

theorem distinct_eq_keepOnce (l : List TypeName) : distinct l = keepOnce (fun _ => true) l := by
  simp only [distinct, keepOnce, true_and]

theorem map_registeredAs (r : PluginRegistry) (l : List TypeName) :
    (l.filterMap r.direct?).map (·.registeredAs) = l.filter r.isRegistered := by
  rw [List.map_filterMap, ← List.filterMap_eq_filter]
  refine List.filterMap_congr fun s _ => ?_
  cases h : r.plugins.get? s <;> simp [direct?, isRegistered, OrderedMap.contains, Option.guard, h]

theorem nodup_found (r : PluginRegistry) (level : List TypeName) :
    (((distinct level).filterMap r.direct?).map (·.registeredAs)).Nodup := by
  rw [map_registeredAs, distinct_eq_keepOnce]
  exact (nodup_keepOnce fun _ _ => rfl).filter _

theorem mem_found : s ∈ ((distinct level).filterMap r.direct?).map (·.registeredAs) ↔
    s ∈ level ∧ r.isRegistered s = true := by
  rw [map_registeredAs, List.mem_filter, distinct_eq_keepOnce, mem_keepOnce]

end Found

/-- The search has come to a level: whatever is at its distance is on it, and nothing nearer is registered.
A type with supertypes of its own that is not pending is nearer than the level. -/
structure Climb (r : PluginRegistry) (type : TypeName) (d : Nat) (pending level : List TypeName) : Prop where
  reached : ∀ s ∈ level, ReachesIn (· = type) r.Above d s
  complete : ∀ s, HasDistance (· = type) r.Above d s → s ∈ level
  nearer : ∀ k < d, ∀ s, ¬ r.Candidate type k s
  pending : ∀ s, r.directSupertypes s ≠ [] → s ∈ pending ∨ ∃ k < d, ReachesIn (· = type) r.Above k s

namespace Climb

theorem candidate_iff (h : r.Climb type d pending level) :
    r.Candidate type d s ↔ s ∈ level ∧ r.isRegistered s = true := by
  constructor
  · rintro ⟨hregistered, hreaches⟩
    refine ⟨h.complete s (hasDistance_iff.mpr ⟨hreaches, fun k hk hnear => ?_⟩), hregistered⟩
    exact h.nearer k hk s ⟨hregistered, hnear⟩
  · rintro ⟨hs, hregistered⟩
    exact ⟨hregistered, h.reached s hs⟩

theorem mem_found_iff (h : r.Climb type d pending level) :
    s ∈ ((distinct level).filterMap r.direct?).map (·.registeredAs) ↔ r.Candidate type d s := by
  rw [mem_found, h.candidate_iff]

theorem isLeast (h : r.Climb type d pending level) (hs : r.Candidate type d s) :
    IsLeast {k | ∃ s, r.Candidate type k s} d :=
  ⟨⟨s, hs⟩, fun k ⟨s', hs'⟩ => Nat.not_lt.mp fun hk => h.nearer k hk s' hs'⟩

theorem not_candidate (h : r.Climb type d pending level) (hnone : (distinct level).filterMap r.direct? = []) :
    ∀ k ≤ d, ∀ s, ¬ r.Candidate type k s := by
  intro k hk s hs
  rcases Nat.lt_or_eq_of_le hk with hk | rfl
  · exact h.nearer k hk s hs
  · have hfound := h.mem_found_iff.mpr hs
    rw [hnone] at hfound
    exact List.not_mem_nil hfound

/-- What leads further up from the distance of the level is expanded now. -/
theorem mem_within (h : r.Climb type d pending level) {base : TypeName} (hs : HasDistance (· = type) r.Above d s)
    (hbase : r.Above s base) : s ∈ within level pending := by
  refine List.mem_filter.mpr ⟨?_, decide_eq_true (h.complete s hs)⟩
  rcases h.pending s (List.ne_nil_of_mem hbase) with hpending | ⟨k, hk, hnear⟩
  · exact hpending
  · exact absurd hnear ((hasDistance_iff.mp hs).2 k hk)

theorem step (h : r.Climb type d pending level) (hnone : (distinct level).filterMap r.direct? = []) :
    r.Climb type (d + 1) (beyond level pending) ((within level pending).flatMap r.directSupertypes) where
  reached := by
    intro s hs
    obtain ⟨base, hbase, hs⟩ := List.mem_flatMap.mp hs
    exact (h.reached base (of_decide_eq_true (List.mem_filter.mp hbase).2)).step hs
  complete := by
    intro s hs
    obtain ⟨base, hbase, hs⟩ := hs.exists_nearer
    exact List.mem_flatMap.mpr ⟨base, h.mem_within hbase hs, hs⟩
  nearer := fun k hk => h.not_candidate hnone k (Nat.le_of_lt_succ hk)
  pending := by
    intro s hs
    rcases h.pending s hs with hpending | ⟨k, hk, hnear⟩
    · by_cases hlevel : s ∈ level
      · exact Or.inr ⟨d, Nat.lt_succ_self d, h.reached s hlevel⟩
      · exact Or.inl (List.mem_filter.mpr ⟨hpending, decide_eq_true hlevel⟩)
    · exact Or.inr ⟨k, Nat.lt_succ_of_lt hk, hnear⟩

/-- If nothing leads further up, there is nothing further up. -/
theorem exhausted (h : r.Climb type d pending level) (hnone : (distinct level).filterMap r.direct? = [])
    (hwithin : within level pending = []) (k : Nat) (s : TypeName) : ¬ r.Candidate type k s := by
  rintro ⟨hregistered, hreaches⟩
  obtain ⟨k', -, hk'⟩ := hreaches.exists_hasDistance
  rcases Nat.lt_or_ge d k' with hfar | hnear
  · obtain ⟨b, hb⟩ := hk'.exists_of_le hfar
    obtain ⟨a, ha, hab⟩ := hb.exists_nearer
    have hmem := h.mem_within ha hab
    rw [hwithin] at hmem
    exact List.not_mem_nil hmem
  · exact h.not_candidate hnone k' hnear s ⟨hregistered, hk'.reachesIn⟩

theorem outcome (h : r.Climb type d pending level) : r.Outcome type (r.resolveAbove type pending level) := by
  induction pending, level using resolveAbove.induct r generalizing d with
  | case1 pending level found hfound =>
    rw [resolveAbove_of_nearest hfound]
    have hnames : ∀ s, r.Candidate type d s ↔ s = found.registeredAs := by
      intro s
      rw [← h.mem_found_iff, hfound, List.map_singleton, List.mem_singleton]
    have hmem : found ∈ (distinct level).filterMap r.direct? := by rw [hfound]; exact List.mem_singleton_self _
    obtain ⟨t, -, ht⟩ := List.mem_filterMap.mp hmem
    exact .nearest (h.isLeast ((hnames _).mpr rfl)) hnames (get?_of_direct? ht)
  | case2 pending level first second more hfound =>
    have hnodup := nodup_found r level
    have hfirst : r.Candidate type d first.registeredAs := by
      rw [← h.mem_found_iff, hfound]
      exact List.mem_cons_self
    have hsecond : r.Candidate type d second.registeredAs := by
      rw [← h.mem_found_iff, hfound]
      exact List.mem_cons_of_mem _ List.mem_cons_self
    have hne : first.registeredAs ≠ second.registeredAs := by
      rw [hfound] at hnodup
      exact (List.pairwise_cons.mp hnodup).1 _ List.mem_cons_self
    rw [resolveAbove_of_several hfound, ← hfound]
    refine .several (h.isLeast hfirst) hne hfirst hsecond ?_ fun s => ?_
    · rw [← List.map_id (((distinct level).filterMap r.direct?).map _)] at hnodup
      have hsorted := pairwise_lt_mergeSort id hnodup
      rwa [List.map_id] at hsorted
    · rw [List.mem_mergeSort, h.mem_found_iff]
  | case3 pending level hnone hwithin =>
    rw [resolveAbove_of_none hnone, if_pos hwithin]
    exact .nowhere (h.exhausted hnone hwithin)
  | case4 pending level hnone hwithin ih =>
    rw [resolveAbove_of_none hnone, if_neg hwithin]
    exact ih (h.step hnone)

end Climb

theorem mem_declaredTypes (h : r.directSupertypes type ≠ []) : type ∈ r.declaredTypes := by
  cases hbases : r.supertypes.get? type with
  | none => exact absurd (by rw [directSupertypes, hbases]; rfl) h
  | some bases => exact List.mem_map_of_mem (f := Prod.fst) (mem_of_lookup_eq_some hbases)

/-- The search starts one step above a type that has no plugin of its own. -/
theorem climb_directSupertypes (h : r.direct? type = none) :
    r.Climb type 1 (r.declaredTypes.filter (· ≠ type)) (r.directSupertypes type) where
  reached := fun s hs => .step (.start rfl) hs
  complete := by
    intro s hs
    obtain ⟨a, ha, has⟩ := hs.exists_nearer
    obtain rfl := hasDistance_zero.mp ha
    exact has
  nearer := by
    intro k hk s hs
    obtain rfl := Nat.lt_one_iff.mp hk
    obtain rfl := reachesIn_zero.mp hs.2
    have hnone : r.plugins.get? s = none := Option.map_eq_none_iff.mp h
    exact absurd hs.1 (by simp [isRegistered, OrderedMap.contains, hnone])
  pending := by
    intro s hs
    by_cases hself : s = type
    · exact Or.inr ⟨0, Nat.one_pos, .start hself⟩
    · exact Or.inl (List.mem_filter.mpr ⟨mem_declaredTypes hs, decide_eq_true hself⟩)

theorem outcome_resolve (r : PluginRegistry) (type : TypeName) : r.Outcome type (r.resolve type) := by
  unfold resolve
  cases hdirect : r.direct? type with
  | none => exact (climb_directSupertypes hdirect).outcome
  | some found =>
    obtain ⟨p, hp, rfl⟩ := Option.map_eq_some_iff.mp hdirect
    have hself : r.Candidate type 0 type := ⟨by simp [isRegistered, OrderedMap.contains, hp], .start rfl⟩
    refine .nearest (d := 0) ⟨⟨type, hself⟩, fun k _ => Nat.zero_le k⟩ (fun s => ?_) hp
    constructor
    · rintro ⟨-, hs⟩
      obtain rfl := reachesIn_zero.mp hs
      rfl
    · exact fun hs => hs ▸ hself

namespace Outcome
variable {outcome : Except Unresolved Resolution}

theorem of_nowhere (h : r.Outcome type outcome) (hnone : ∀ d s, ¬ r.Candidate type d s) :
    outcome = .error (.unregistered type) := by
  cases h with
  | nearest hd _ _ => exact absurd hd.1.choose_spec (hnone _ _)
  | several _ _ hs _ _ _ => exact absurd hs (hnone _ _)
  | nowhere _ => rfl

theorem of_nearest (h : r.Outcome type outcome) (hd : IsLeast {k | ∃ s, r.Candidate type k s} d)
    (hs : ∀ s', r.Candidate type d s' ↔ s' = s) : ∃ plugin, r.plugins.get? s = some plugin ∧ outcome = .ok ⟨plugin, s⟩ := by
  cases h with
  | nearest hd' hs' hp =>
    obtain rfl := hd.unique hd'
    obtain rfl := (hs _).mp ((hs' _).mpr rfl)
    exact ⟨_, hp, rfl⟩
  | several hd' hne hs₁ hs₂ _ _ =>
    obtain rfl := hd.unique hd'
    exact absurd (((hs _).mp hs₁).trans ((hs _).mp hs₂).symm) hne
  | nowhere hnone => exact absurd ((hs s).mpr rfl) (hnone d s)

theorem of_several {s' : TypeName} (h : r.Outcome type outcome) (hd : IsLeast {k | ∃ s, r.Candidate type k s} d)
    (hne : s ≠ s') (hs : r.Candidate type d s) (hs' : r.Candidate type d s') :
    ∃ candidates, outcome = .error (.ambiguous type candidates) ∧ candidates.Pairwise (· < ·) ∧
      ∀ t, t ∈ candidates ↔ r.Candidate type d t := by
  cases h with
  | nearest hd' honly _ =>
    obtain rfl := hd.unique hd'
    exact absurd (((honly _).mp hs).trans ((honly _).mp hs').symm) hne
  | several hd' _ _ _ hsorted hmem =>
    obtain rfl := hd.unique hd'
    exact ⟨_, rfl, hsorted, hmem⟩
  | nowhere hnone => exact absurd hs (hnone d s)

end Outcome

end PluginRegistry

namespace RegistryCall

def Candidate (calls : List RegistryCall) (type : TypeName) (d : Nat) (s : TypeName) : Prop :=
  (registered? calls s).isSome ∧ ReachesIn (· = type) (Declares calls) d s

theorem candidate_build (calls : List RegistryCall) : (build calls).Candidate = Candidate calls := by
  have habove : (build calls).Above = Declares calls :=
    funext fun type => funext fun base => propext (mem_directSupertypes_build calls type base)
  funext type d s
  rw [PluginRegistry.Candidate, habove, PluginRegistry.isRegistered, OrderedMap.contains, get?_plugins_build, Candidate]

/-- A registered type is handled by its own plugin. Any other type is handled by the one registered type that
is nearest to it. If there are several at the least distance, these are named, ascending and each of them once. -/
theorem resolve_nearest (calls : List RegistryCall) (type : TypeName) :
    let r := build calls
    (∀ plugin, registered? calls type = some plugin → r.resolve type = .ok ⟨plugin, type⟩) ∧
    ((∀ d s, ¬ Candidate calls type d s) → r.resolve type = .error (.unregistered type)) ∧
    ∀ d, IsLeast {k | ∃ s, Candidate calls type k s} d →
      (∀ s, (∀ s', Candidate calls type d s' ↔ s' = s) →
        ∃ plugin, registered? calls s = some plugin ∧ r.resolve type = .ok ⟨plugin, s⟩) ∧
      (∀ s s', s ≠ s' → Candidate calls type d s → Candidate calls type d s' →
        ∃ candidates, r.resolve type = .error (.ambiguous type candidates) ∧ candidates.Pairwise (· < ·) ∧
          ∀ t, t ∈ candidates ↔ Candidate calls type d t) := by
  intro r
  have houtcome := r.outcome_resolve type
  have hcandidate : r.Candidate = Candidate calls := candidate_build calls
  rw [← hcandidate]
  refine ⟨fun plugin hp => ?_, houtcome.of_nowhere, fun d hd => ⟨fun s hs => ?_, fun s s' hne => houtcome.of_several hd hne⟩⟩
  · rw [PluginRegistry.resolve, PluginRegistry.direct?, get?_plugins_build, hp]
    rfl
  · rw [← get?_plugins_build]
    exact houtcome.of_nearest hd hs

def named (name : String) : Plugin where
  name := name
  dependencies _ := {}

/-- A mesh is a supertype of itself and of its only other supertype, through which it comes to two types that
have a plugin. The second registration of one of them is refused. -/
def meshes : List RegistryCall :=
  [.register "Renderer" (named "renderer"), .register "Behaviour" (named "behaviour"),
    .register "Behaviour" (named "other"), .declareSupertypes "Mesh" ["Mesh"], .declareSupertypes "Mesh" ["Skin"],
    .declareSupertypes "Skin" ["Mesh", "Renderer", "Behaviour", "Renderer"]]

theorem declares_meshes {type base : TypeName} : Declares meshes type base ↔
    type = "Mesh" ∧ (base = "Mesh" ∨ base = "Skin") ∨
      type = "Skin" ∧ (base = "Mesh" ∨ base = "Renderer" ∨ base = "Behaviour") := by
  simp only [Declares, meshes]
  grind

/-- The type that was registered twice keeps its first plugin. Two steps above a mesh there are two plugins and
none is nearer. -/
theorem resolve_nearest_meshes :
    (build meshes).resolve "Behaviour" = .ok ⟨named "behaviour", "Behaviour"⟩ ∧
    ∃ candidates, (build meshes).resolve "Mesh" = .error (.ambiguous "Mesh" candidates) ∧
      "Behaviour" ∈ candidates ∧ "Renderer" ∈ candidates := by
  obtain ⟨hself, -, -⟩ := resolve_nearest meshes "Behaviour"
  obtain ⟨-, -, hnearest⟩ := resolve_nearest meshes "Mesh"
  have hone : ∀ {s}, ReachesIn (· = "Mesh") (Declares meshes) 1 s → s = "Mesh" ∨ s = "Skin" := by
    rintro s (_ | ⟨h, hs⟩)
    obtain rfl := reachesIn_zero.mp h
    simpa [declares_meshes] using hs
  have htwo : ∀ s, Declares meshes "Skin" s → ReachesIn (· = "Mesh") (Declares meshes) 2 s := by
    intro s hs
    exact .step (.step (.start rfl) (declares_meshes.mpr (by simp))) hs
  have hrenderer : Candidate meshes "Mesh" 2 "Renderer" := ⟨rfl, htwo _ (declares_meshes.mpr (by simp))⟩
  have hbehaviour : Candidate meshes "Mesh" 2 "Behaviour" := ⟨rfl, htwo _ (declares_meshes.mpr (by simp))⟩
  have hleast : IsLeast {k | ∃ s, Candidate meshes "Mesh" k s} 2 := by
    refine ⟨⟨_, hrenderer⟩, ?_⟩
    rintro k ⟨s, hregistered, hreaches⟩
    by_contra hk
    have hcases : k = 0 ∨ k = 1 := by omega
    rcases hcases with rfl | rfl
    · obtain rfl := reachesIn_zero.mp hreaches
      cases hregistered
    · rcases hone hreaches with rfl | rfl
      · cases hregistered
      · cases hregistered
  obtain ⟨candidates, hresolve, -, hmem⟩ := (hnearest 2 hleast).2 _ _ (by decide) hrenderer hbehaviour
  exact ⟨hself _ rfl, candidates, hresolve, (hmem _).mpr hbehaviour, (hmem _).mpr hrenderer⟩

end RegistryCall

end ScenePrune

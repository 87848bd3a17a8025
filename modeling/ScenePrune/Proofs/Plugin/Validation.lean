import Mathlib.Data.List.Sort
import ScenePrune.Proofs.Plugin.Resolution

/-! # Loading in any order, and validation

How a type resolves depends on which types have which plugin and on which supertypes are declared. Neither
has an order, as long as no type is registered twice. Validation looks at the types with declared supertypes
only; no other type has two registered types above it.
-/
namespace ScenePrune

def RegistryError.type : RegistryError → TypeName
  | duplicateRegistration type => type
  | ambiguousResolution type _ => type

namespace PluginRegistry
variable {r r' : PluginRegistry} {type s : TypeName} {d : Nat} {e : RegistryError}

/-- Searches end alike where the same types have the same plugins and are equally far away. -/
theorem Outcome.agrees {outcome outcome' : Except Unresolved Resolution} (h : r.Outcome type outcome)
    (h' : r'.Outcome type outcome') (hplugins : ∀ s, r'.plugins.get? s = r.plugins.get? s)
    (hcandidate : r'.Candidate = r.Candidate) : outcome' = outcome := by
  cases h with
  | nearest hd honly hp =>
    rw [← hcandidate] at hd honly
    obtain ⟨plugin, hp', rfl⟩ := h'.of_nearest hd honly
    rw [hplugins, hp] at hp'
    cases hp'
    rfl
  | several hd hne hs hs' hsorted hmem =>
    rw [← hcandidate] at hd hs hs' hmem
    obtain ⟨candidates', rfl, hsorted', hmem'⟩ := h'.of_several hd hne hs hs'
    have hsame : candidates' = _ := hsorted'.eq_of_mem_iff hsorted fun t => (hmem' t).trans (hmem t).symm
    rw [hsame]
  | nowhere hnone => exact h'.of_nowhere (hcandidate ▸ hnone)

section Validation

def fault? (r : PluginRegistry) (type : TypeName) : Option RegistryError :=
  match r.resolve type with
  | .ok _ => none
  | .error e => e.registryError?

theorem validate_eq (r : PluginRegistry) : r.validate = (r.declaredTypes.mergeSort (· ≤ ·)).filterMap r.fault? := rfl

theorem lookup_eq_error_iff {e : Unresolved} : r.lookup type = .error e ↔ r.resolve type = .error e := by
  unfold lookup
  cases r.resolve type <;> simp [Except.map]

/-- A way that leads elsewhere begins with a direct supertype. -/
theorem exists_above_of_ne (h : ReachesIn (· = type) r.Above d s) (hne : s ≠ type) : ∃ base, r.Above type base := by
  induction h with
  | start hs => exact absurd hs hne
  | @step _ a _ _ hab ih =>
    by_cases ha : a = type
    · exact ⟨_, ha ▸ hab⟩
    · exact ih ha

/-- Only a type with declared supertypes is ambiguous. -/
theorem declared_of_ambiguous {t : TypeName} {candidates : List TypeName}
    (h : r.resolve type = .error (.ambiguous t candidates)) : t = type ∧ type ∈ r.declaredTypes := by
  have houtcome := r.outcome_resolve type
  rw [h] at houtcome
  cases houtcome with
  | @several _ s s' _ _ hne hs hs' _ _ =>
    obtain ⟨base, hbase⟩ : ∃ base, r.Above type base := by
      by_cases hself : s = type
      · exact exists_above_of_ne hs'.2 (hself ▸ hne.symm)
      · exact exists_above_of_ne hs.2 hself
    exact ⟨rfl, mem_declaredTypes (List.ne_nil_of_mem hbase)⟩

theorem fault?_eq_some_iff : r.fault? type = some e ↔
    ∃ candidates, e = .ambiguousResolution type candidates ∧ r.lookup type = .error (.ambiguous type candidates) := by
  simp only [lookup_eq_error_iff]
  unfold fault?
  split
  case h_1 found h => simp [h]
  case h_2 unresolved h =>
    cases unresolved with
    | unregistered t => simp [h, Unresolved.registryError?]
    | ambiguous t candidates =>
      obtain ⟨rfl, -⟩ := declared_of_ambiguous h
      simp [h, Unresolved.registryError?, eq_comm]

/-- Validation misses no ambiguous type and blames no other. -/
theorem mem_validate_iff : e ∈ r.validate ↔ ∃ type candidates,
    e = .ambiguousResolution type candidates ∧ r.lookup type = .error (.ambiguous type candidates) := by
  rw [validate_eq, List.mem_filterMap]
  constructor
  · rintro ⟨type, -, h⟩
    exact ⟨type, fault?_eq_some_iff.mp h⟩
  · rintro ⟨type, candidates, he, h⟩
    refine ⟨type, ?_, fault?_eq_some_iff.mpr ⟨candidates, he, h⟩⟩
    exact List.mem_mergeSort.mpr (declared_of_ambiguous (lookup_eq_error_iff.mp h)).2

theorem validate_ascending (h : r.declaredTypes.Nodup) : (r.validate.map (·.type)).Pairwise (· < ·) := by
  have hsorted := pairwise_lt_mergeSort id (l := r.declaredTypes) (by simpa using h)
  rw [List.map_id] at hsorted
  rw [validate_eq, List.pairwise_map, List.pairwise_filterMap]
  refine hsorted.imp fun {a b} hab e he e' he' => ?_
  obtain ⟨_, rfl, -⟩ := fault?_eq_some_iff.mp he
  obtain ⟨_, rfl, -⟩ := fault?_eq_some_iff.mp he'
  exact hab

theorem validate_eq_nil_iff :
    r.validate = [] ↔ ∀ type t candidates, r.lookup type ≠ .error (.ambiguous t candidates) := by
  rw [List.eq_nil_iff_forall_not_mem]
  constructor
  · intro hnone type t candidates h
    obtain ⟨rfl, -⟩ := declared_of_ambiguous (lookup_eq_error_iff.mp h)
    exact hnone _ (mem_validate_iff.mpr ⟨_, _, rfl, h⟩)
  · intro hnone e he
    obtain ⟨type, candidates, -, h⟩ := mem_validate_iff.mp he
    exact hnone type type candidates h

end Validation

end PluginRegistry

namespace RegistryCall
variable {calls calls' : List RegistryCall} {type : TypeName} {plugin : Plugin}

def registeredType? : RegistryCall → Option TypeName
  | register type _ => some type
  | declareSupertypes _ _ => none

def RegistersOnce (calls : List RegistryCall) : Prop := (calls.filterMap registeredType?).Nodup

instance : Decidable (RegistersOnce calls) := inferInstanceAs (Decidable (List.Nodup _))

theorem plugin?_eq_some_iff {call : RegistryCall} : plugin? type call = some plugin ↔ call = .register type plugin := by
  cases call with
  | register type' plugin' =>
    by_cases h : type = type'
    · simp [plugin?, h]
    · simp [plugin?, h, Ne.symm h]
  | declareSupertypes _ _ => simp [plugin?]

/-- A type that is registered once has the plugin of this registration, wherever it stands. -/
theorem registered?_eq_some_iff (h : RegistersOnce calls) :
    registered? calls type = some plugin ↔ .register type plugin ∈ calls := by
  unfold RegistersOnce at h
  induction calls with
  | nil => simp [registered?]
  | cons call calls ih =>
    rw [registered?, List.findSome?_cons, List.mem_cons, eq_comm (b := call), ← plugin?_eq_some_iff]
    cases hcall : plugin? type call with
    | none => simpa [registered?] using ih (h.sublist ((List.sublist_cons_self call calls).filterMap _))
    | some first =>
      obtain rfl := plugin?_eq_some_iff.mp hcall
      have hlater : .register type plugin ∉ calls := by
        intro hmem
        have hagain : type ∈ calls.filterMap registeredType? := List.mem_filterMap.mpr ⟨_, hmem, rfl⟩
        exact (List.nodup_cons.mp h).1 hagain
      simp [hlater]

theorem registered?_perm (h : RegistersOnce calls) (hperm : calls.Perm calls') (type : TypeName) :
    registered? calls' type = registered? calls type := by
  have h' : RegistersOnce calls' := (hperm.filterMap _).nodup_iff.mp h
  apply Option.ext
  intro plugin
  rw [registered?_eq_some_iff h', registered?_eq_some_iff h, hperm.mem_iff]

theorem candidate_perm (h : RegistersOnce calls) (hperm : calls.Perm calls') : Candidate calls' = Candidate calls := by
  have hdeclares : Declares calls' = Declares calls := by
    funext type base
    simp only [Declares, hperm.mem_iff]
  funext type d s
  rw [Candidate, registered?_perm h hperm, hdeclares, Candidate]

theorem resolve_perm (h : RegistersOnce calls) (hperm : calls.Perm calls') (type : TypeName) :
    (build calls').resolve type = (build calls).resolve type := by
  refine ((build calls).outcome_resolve type).agrees ((build calls').outcome_resolve type) (fun s => ?_) ?_
  · rw [get?_plugins_build, get?_plugins_build, registered?_perm h hperm]
  · rw [candidate_build, candidate_build, candidate_perm h hperm]

theorem nodup_declaredTypes_perform {r : PluginRegistry} (h : r.declaredTypes.Nodup) (call : RegistryCall) :
    (perform r call).declaredTypes.Nodup := by
  cases call with
  | register type plugin => rwa [PluginRegistry.declaredTypes, supertypes_perform_register]
  | declareSupertypes type bases => exact OrderedMap.nodup_keys_upsert h type _

/-- However often supertypes of a type are declared, it is listed once. -/
theorem nodup_declaredTypes_build (calls : List RegistryCall) : (build calls).declaredTypes.Nodup := by
  have hfold : ∀ r : PluginRegistry, r.declaredTypes.Nodup → (calls.foldl perform r).declaredTypes.Nodup := by
    induction calls with
    | nil => exact fun _ h => h
    | cons call calls ih => exact fun r h => ih _ (nodup_declaredTypes_perform h call)
  exact hfold ∅ List.nodup_nil

theorem register_of_isRegistered {r : PluginRegistry} (h : r.isRegistered type = true) :
    r.register type plugin = .error (.duplicateRegistration type) := by
  rw [PluginRegistry.register, Edit.result, PluginRegistry.perform_registerM, if_pos h]
  rfl

/-- Where no type is registered twice, every type resolves alike in whatever order the calls are made. A second
registration of a type fails and leaves the registry as it is. Validation names each ambiguous type once, ascending
and with its candidates, so that it has nothing to say just if no type is ambiguous, declared or not. -/
theorem resolve_perm_and_validate (calls : List RegistryCall) :
    let r := build calls
    (RegistersOnce calls → ∀ calls', calls.Perm calls' → ∀ type, (build calls').resolve type = r.resolve type) ∧
    (∀ type plugin, r.isRegistered type = true →
      r.register type plugin = .error (.duplicateRegistration type) ∧ build (calls ++ [.register type plugin]) = r) ∧
    (∀ e, e ∈ r.validate ↔ ∃ type candidates,
      e = .ambiguousResolution type candidates ∧ r.lookup type = .error (.ambiguous type candidates)) ∧
    (r.validate.map (·.type)).Pairwise (· < ·) ∧
    (r.validate = [] ↔ ∀ type t candidates, r.lookup type ≠ .error (.ambiguous t candidates)) := by
  intro r
  refine ⟨fun h calls' hperm => resolve_perm h hperm, fun type plugin hknown => ?_,
    fun e => PluginRegistry.mem_validate_iff, PluginRegistry.validate_ascending (nodup_declaredTypes_build calls),
    PluginRegistry.validate_eq_nil_iff⟩
  refine ⟨register_of_isRegistered hknown, ?_⟩
  rw [build, List.foldl_append, List.foldl_cons, List.foldl_nil]
  change perform r (register type plugin) = r
  rw [perform_register, if_pos hknown]

/-- Declares the supertypes of a type one by one, the first one twice. -/
def hybrids : List RegistryCall :=
  [.register "Renderer" (named "renderer"), .declareSupertypes "Hybrid" ["Behaviour"],
    .register "Behaviour" (named "behaviour"), .declareSupertypes "Hybrid" ["Renderer", "Behaviour"]]

/-- The type is as ambiguous if its supertypes are declared the other way round and before there is any plugin. -/
theorem resolve_perm_and_validate_hybrids :
    RegistersOnce hybrids ∧ hybrids.Perm hybrids.reverse ∧
    (build hybrids.reverse).resolve "Hybrid" = (build hybrids).resolve "Hybrid" ∧
    (build hybrids).register "Renderer" (named "other") = .error (.duplicateRegistration "Renderer") ∧
    .ambiguousResolution "Hybrid" ["Behaviour", "Renderer"] ∈ (build hybrids).validate := by
  have honce : RegistersOnce hybrids := by decide
  have hperm : hybrids.Perm hybrids.reverse := (List.reverse_perm hybrids).symm
  obtain ⟨horder, hagain, hmem, -, -⟩ := resolve_perm_and_validate hybrids
  have hfound : (PluginRegistry.distinct ((build hybrids).directSupertypes "Hybrid")).filterMap
      (build hybrids).direct? = [⟨named "behaviour", "Behaviour"⟩, ⟨named "renderer", "Renderer"⟩] := rfl
  have hsorted : ["Behaviour", "Renderer"].mergeSort (· ≤ ·) = ["Behaviour", "Renderer"] :=
    List.mergeSort_of_pairwise (by decide)
  refine ⟨honce, hperm, horder honce _ hperm _, (hagain _ _ rfl).1, (hmem _).mpr ⟨_, _, rfl, ?_⟩⟩
  have hnone : (build hybrids).direct? "Hybrid" = none := rfl
  rw [PluginRegistry.lookup_eq_error_iff, PluginRegistry.resolve, hnone]
  refine (PluginRegistry.resolveAbove_of_several hfound).trans ?_
  exact congrArg (Except.error ∘ Unresolved.ambiguous "Hybrid") hsorted

end RegistryCall

end ScenePrune

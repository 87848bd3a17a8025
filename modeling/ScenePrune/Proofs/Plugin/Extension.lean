import Mathlib.Data.List.Forall2
import ScenePrune.Proofs.Plugin.Locality

/-! # Replacing plugins

Which registration handles a type depends on the supertypes and on what is registered, not on the plugins
themselves. So if each plugin is replaced by another one, every type is handled by the replacement of the
plugin that handled it before, and what could not be handled before cannot be handled now.
-/
namespace ScenePrune

/-- On every node of the scene the second plugin declares what the first one does, in any order and perhaps
with more, and where the first one fails it fails too or marks the node. -/
structure Plugin.Extends (v : SceneView) (p p' : Plugin) : Prop where
  dependencies : ∀ id ∈ v.ids, (p.dependencies ⟨v, id⟩).items ⊆ (p'.dependencies ⟨v, id⟩).items
  mutations : ∀ id ∈ v.ids, (p.mutations ⟨v, id⟩).items ⊆ (p'.mutations ⟨v, id⟩).items
  failure : ∀ id ∈ v.ids, (p.failure? ⟨v, id⟩).isSome →
    (p'.failure? ⟨v, id⟩).isSome ∨ .entrypoint ∈ (p'.dependencies ⟨v, id⟩).items

structure PluginRegistry.Replaces (R : Plugin → Plugin → Prop) (r r' : PluginRegistry) : Prop where
  supertypes : r'.supertypes = r.supertypes
  plugins : ∀ type, Option.Rel R (r.plugins.get? type) (r'.plugins.get? type)

namespace PluginRegistry
variable {r r' : PluginRegistry} {R : Plugin → Plugin → Prop} {type : TypeName} {pending level : List TypeName}

section Search
variable {found first second : Resolution} {more : List Resolution}

theorem resolveAbove_of_nearest (h : (distinct level).filterMap r.direct? = [found]) :
    r.resolveAbove type pending level = .ok found := by
  rw [resolveAbove, h]

theorem resolveAbove_of_several (h : (distinct level).filterMap r.direct? = first :: second :: more) :
    r.resolveAbove type pending level =
      .error (.ambiguous type (((first :: second :: more).map (·.registeredAs)).mergeSort (· ≤ ·))) := by
  rw [resolveAbove, h]

theorem resolveAbove_of_none (h : (distinct level).filterMap r.direct? = []) :
    r.resolveAbove type pending level =
      if within level pending = [] then .error (.unregistered type)
      else r.resolveAbove type (beyond level pending) ((within level pending).flatMap r.directSupertypes) := by
  rw [resolveAbove, h]

end Search

namespace Replaces

/-- It is enough to look at the registrations one by one. -/
theorem of_forall₂ (hs : r'.supertypes = r.supertypes)
    (h : List.Forall₂ (fun e e' => e.1 = e'.1 ∧ R e.2 e'.2) r.plugins.entries r'.plugins.entries) :
    r.Replaces R r' where
  supertypes := hs
  plugins := by
    intro type
    unfold OrderedMap.get?
    generalize r.plugins.entries = l at h ⊢
    generalize r'.plugins.entries = l' at h ⊢
    induction h with
    | nil => exact .none
    | @cons e e' l l' he _ ih =>
      obtain ⟨t, p⟩ := e
      obtain ⟨t', p'⟩ := e'
      obtain ⟨rfl, hp⟩ := he
      rw [List.lookup_cons, List.lookup_cons]
      cases type == t with
      | true => exact .some hp
      | false => exact ih

theorem direct?_eq (h : r.Replaces R r') (type : TypeName) :
    (r'.direct? type).map (·.registeredAs) = (r.direct? type).map (·.registeredAs) := by
  have hp := h.plugins type
  simp only [direct?, Option.map_map]
  generalize r.plugins.get? type = p? at hp
  generalize r'.plugins.get? type = p?' at hp
  cases hp <;> rfl

theorem map_filterMap_direct? (h : r.Replaces R r') (types : List TypeName) :
    (types.filterMap r'.direct?).map (·.registeredAs) = (types.filterMap r.direct?).map (·.registeredAs) := by
  rw [List.map_filterMap, List.map_filterMap]
  exact List.filterMap_congr fun type _ => h.direct?_eq type

theorem directSupertypes_eq (h : r.Replaces R r') : r'.directSupertypes = r.directSupertypes := by
  funext type
  rw [directSupertypes, h.supertypes, directSupertypes]

/-- The search takes the same way through the supertypes. -/
theorem resolveAbove_eq (h : r.Replaces R r') : (r'.resolveAbove type pending level).map (·.registeredAs) =
    (r.resolveAbove type pending level).map (·.registeredAs) := by
  induction pending, level using resolveAbove.induct r with
  | case1 pending level found hfound =>
    have hnames := h.map_filterMap_direct? (distinct level)
    rw [hfound] at hnames
    obtain ⟨found', hfound', hname⟩ := List.map_eq_singleton_iff.mp hnames
    rw [resolveAbove_of_nearest hfound, resolveAbove_of_nearest hfound']
    exact congrArg Except.ok hname
  | case2 pending level first second more hfound =>
    have hnames := h.map_filterMap_direct? (distinct level)
    rw [hfound] at hnames
    obtain ⟨first', rest', hfound', -, hrest⟩ := List.map_eq_cons_iff.mp hnames
    obtain ⟨second', more', rfl, -, -⟩ := List.map_eq_cons_iff.mp hrest
    rw [hfound'] at hnames
    rw [resolveAbove_of_several hfound, resolveAbove_of_several hfound', hnames]
  | case3 pending level hnone hwithin =>
    have hnone' : (distinct level).filterMap r'.direct? = [] := by
      simpa [hnone] using h.map_filterMap_direct? (distinct level)
    rw [resolveAbove_of_none hnone, resolveAbove_of_none hnone', if_pos hwithin, if_pos hwithin]
  | case4 pending level hnone hwithin ih =>
    have hnone' : (distinct level).filterMap r'.direct? = [] := by
      simpa [hnone] using h.map_filterMap_direct? (distinct level)
    rw [resolveAbove_of_none hnone, resolveAbove_of_none hnone', if_neg hwithin, if_neg hwithin,
      h.directSupertypes_eq]
    exact ih

theorem resolve_eq (h : r.Replaces R r') (type : TypeName) :
    (r'.resolve type).map (·.registeredAs) = (r.resolve type).map (·.registeredAs) := by
  have hdirect := h.direct?_eq type
  have hdeclared : r'.declaredTypes = r.declaredTypes := by rw [declaredTypes, h.supertypes, declaredTypes]
  unfold resolve
  cases hd : r.direct? type with
  | some found =>
    rw [hd] at hdirect
    obtain ⟨found', hd', hname⟩ := Option.map_eq_some_iff.mp hdirect
    rw [hd']
    exact congrArg Except.ok hname
  | none =>
    rw [hd, Option.map_none, Option.map_eq_none_iff] at hdirect
    rw [hdirect, hdeclared, h.directSupertypes_eq]
    exact h.resolveAbove_eq

/-- What could not be handled before cannot be handled now, for the same reason. -/
theorem lookup_error (h : r.Replaces R r') {e : Unresolved} (he : r.lookup type = .error e) :
    r'.lookup type = .error e := by
  have hresolve := h.resolve_eq type
  unfold lookup at he ⊢
  cases hr : r.resolve type with
  | ok found =>
    rw [hr] at he
    cases he
  | error e =>
    rw [hr] at he hresolve
    cases he
    cases hr' : r'.resolve type with
    | ok found' =>
      rw [hr'] at hresolve
      cases hresolve
    | error e' =>
      rw [hr'] at hresolve
      cases hresolve
      rfl

/-- A type is handled by the replacement of the plugin that handled it before. -/
theorem lookup_ok (h : r.Replaces R r') {p : Plugin} (hp : r.lookup type = .ok p) :
    ∃ p', r'.lookup type = .ok p' ∧ R p p' := by
  have hresolve := h.resolve_eq type
  unfold lookup at hp ⊢
  cases hr : r.resolve type with
  | error e =>
    rw [hr] at hp
    cases hp
  | ok found =>
    rw [hr] at hp hresolve
    cases hp
    cases hr' : r'.resolve type with
    | error e' =>
      rw [hr'] at hresolve
      cases hresolve
    | ok found' =>
      rw [hr'] at hresolve
      have hname : found'.registeredAs = found.registeredAs := Except.ok.inj hresolve
      have hplugins := h.plugins found.registeredAs
      rw [get?_of_resolve hr, ← hname, get?_of_resolve hr'] at hplugins
      cases hplugins with
      | some hR => exact ⟨found'.plugin, rfl, hR⟩

end Replaces

end PluginRegistry

end ScenePrune

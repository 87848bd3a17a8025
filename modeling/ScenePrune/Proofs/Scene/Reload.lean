import ScenePrune.Proofs.Scene.History
import ScenePrune.Proofs.Scene.Load
import ScenePrune.Proofs.Scene.Record

/-! # Saving a scene and loading it again

A scene lists parents before their children, so loading what it was saved as keeps the order. The index of
children and the next id are built anew from the nodes that are there, whatever was removed before.
-/
namespace ScenePrune.Scene

section NextId
variable {s s' : Scene}

def NextFollows (s : Scene) : Prop := (s.ids = [] ∧ s.nextId = 0) ∨
  ∃ id ∈ s.ids, (∀ other ∈ s.ids, other ≤ id) ∧ s.nextId = id.toNat + 1

theorem NextFollows.insert (hs : s.NextFollows) {node : Node} (h : s.insert node = .ok s') : s'.NextFollows := by
  obtain ⟨-, -, hnodes, hnext, -⟩ := insert_ok h
  have hids : s'.ids = s.ids ++ [node.id] := by simp [ids, hnodes]
  have hmem : ∀ id, id ∈ s'.ids ↔ id ∈ s.ids ∨ id = node.id := fun id => by simp [hids]
  right
  rcases hs with ⟨hempty, hzero⟩ | ⟨top, htop, hgreatest, hlast⟩
  · refine ⟨node.id, (hmem _).mpr (Or.inr rfl), fun other hother => ?_, by rw [hnext, hzero, Nat.zero_max]⟩
    rcases (hmem other).mp hother with hother | rfl
    · simp [hempty] at hother
    · exact UInt32.le_refl _
  · rw [hlast] at hnext
    rcases UInt32.le_total node.id top with hle | hle
    · refine ⟨top, (hmem _).mpr (Or.inl htop), fun other hother => ?_, ?_⟩
      · rcases (hmem other).mp hother with hother | rfl
        · exact hgreatest other hother
        · exact hle
      · rw [UInt32.le_iff_toNat_le] at hle
        omega
    · refine ⟨node.id, (hmem _).mpr (Or.inr rfl), fun other hother => ?_, ?_⟩
      · rcases (hmem other).mp hother with hother | rfl
        · exact UInt32.le_trans (hgreatest other hother) hle
        · exact UInt32.le_refl _
      · rw [UInt32.le_iff_toNat_le] at hle
        omega

theorem nextFollows_ofNodes {nodes : List Node} (h : ofNodes nodes = .ok s) : s.NextFollows :=
  ofNodes_induction (Or.inl ⟨rfl, rfl⟩) (fun _ _ _ hs hi => hs.insert hi) h

end NextId

section Fields

def DistinctFields (s : Scene) : Prop := ∀ n ∈ s.nodes, n.fields.keys.Nodup

variable {h : History}

theorem distinctFields_ofNodes {nodes : List Node} {s : Scene} (hnodes : ∀ n ∈ nodes, n.fields.keys.Nodup)
    (h : ofNodes nodes = .ok s) : s.DistinctFields :=
  fun n hn => hnodes n ((valid_of_ofNodes h).2.2.mem_iff.mp hn)

theorem distinctFields_of_reload? {s s' : Scene} (h : s.reload? = some s') : s'.DistinctFields := by
  obtain ⟨nodes, hnodes, hload⟩ := Option.bind_eq_some_iff.mp h
  obtain ⟨j, -, hread⟩ := Option.bind_eq_some_iff.mp hnodes
  cases hok : ofNodes nodes with
  | error e =>
    rw [hok] at hload
    cases hload
  | ok loaded =>
    rw [hok] at hload
    cases hload
    exact distinctFields_ofNodes (nodup_keys_of_nodesOfJson? hread) hok

theorem DistinctFields.insert {s s' : Scene} {node : Node} (hs : s.DistinctFields) (hnode : node.fields.keys.Nodup)
    (h : s.insert node = .ok s') : s'.DistinctFields := by
  intro n hn
  rw [(insert_ok h).2.2.1, List.mem_append, List.mem_singleton] at hn
  rcases hn with hn | rfl
  · exact hs n hn
  · exact hnode

theorem DistinctFields.modifyNode {s s' : Scene} {id : NodeId} {f : Node → Node} (hs : s.DistinctFields)
    (hf : ∀ n : Node, n.fields.keys.Nodup → (f n).fields.keys.Nodup) (h : s.modifyNode id f = .ok s') :
    s'.DistinctFields := by
  intro n hn
  rw [(modifyNode_ok h).2.1] at hn
  obtain ⟨m, hm, rfl⟩ := List.mem_map.mp hn
  split
  · exact hf m (hs m hm)
  · exact hs m hm

theorem DistinctFields.remove {s s' : Scene} {id : NodeId} (hs : s.DistinctFields) (h : s.remove id = .ok s') :
    s'.DistinctFields := by
  obtain ⟨-, _, -, hnodes, -⟩ := remove_ok h
  intro n hn
  rw [hnodes] at hn
  exact hs n (List.mem_filter.mp hn).1

/-- No operation names a field twice, if no node that is inserted comes with two fields of one name. -/
theorem DistinctFields.step (hs : h.scene.DistinctFields) {operation : Operation}
    (hinserted : ∀ node, operation = .insert node → node.fields.keys.Nodup) :
    (h.step operation).scene.DistinctFields := by
  obtain hstep | ⟨s, hmade, hstep⟩ | ⟨-, s, hreload, hstep⟩ := h.step_cases operation
  · rwa [hstep]
  · rw [hstep]
    cases hmade with
    | insert hok => exact hs.insert (hinserted _ rfl) hok
    | addNode hok =>
      refine hs.insert ?_ (insert_of_addNode hok)
      exact List.nodup_nil
    | @setEnabled _ enabled _ hok => exact hs.modifyNode (f := fun n => { n with enabled }) (fun _ hn => hn) hok
    | @setField _ name value _ hok =>
      exact hs.modifyNode (fun n hn => OrderedMap.nodup_keys_insert hn name value) hok
    | remove hok => exact hs.remove hok
  · rw [hstep]
    exact distinctFields_of_reload? hreload

theorem DistinctFields.run (hs : h.scene.DistinctFields) {operations : List Operation}
    (hinserted : ∀ node, .insert node ∈ operations → node.fields.keys.Nodup) :
    (h.run operations).scene.DistinctFields := by
  induction operations generalizing h with
  | nil => exact hs
  | cons operation rest ih =>
    refine ih (hs.step fun node hnode => hinserted node (hnode ▸ List.mem_cons_self)) ?_
    exact fun node hnode => hinserted node (List.mem_cons_of_mem _ hnode)

end Fields

section Reload
variable {s : Scene}

def HasNumber (s : Scene) (x : Float) : Prop := ∃ n ∈ s.nodes, ∃ name, (name, .number x) ∈ n.fields.entries

theorem DistinctFields.recordable (hs : s.DistinctFields) (hfinite : ∀ x, s.HasNumber x → x.isFinite = true)
    (hdecimal : ∀ x, s.HasNumber x → ∀ n, Decimal.ofFloat? x = some n → n.float? = some x) :
    ∀ n ∈ s.nodes, n.Recordable := by
  intro n hn
  refine ⟨hs n hn, ?_⟩
  rintro ⟨name, value⟩ hentry
  cases value with
  | number x =>
    have hx : s.HasNumber x := ⟨n, hn, name, hentry⟩
    obtain ⟨numeral, hnumeral⟩ := Option.isSome_iff_exists.mp (Decimal.isSome_ofFloat? (hfinite x hx))
    exact ⟨numeral, hnumeral, hdecimal x hx numeral hnumeral⟩
  | _ => trivial

/-- A scene of such nodes is loaded as it was, from either layout of its text. -/
theorem WellFormed.exists_reload (hs : s.WellFormed) (hrecords : ∀ n ∈ s.nodes, n.Recordable) :
    ∃ s', s.reload? = some s' ∧ ofText? s.toJson.pretty = some s' ∧ s'.nodes = s.nodes ∧
      (∀ id, s'.children id = s.children id) ∧ s'.NextFollows ∧ s'.WellFormed := by
  obtain ⟨s', hload⟩ := hs.validHierarchy.exists_ofNodes
  obtain ⟨-, hloaded, -⟩ := valid_of_ofNodes hload
  have hnodes : s'.nodes = s.nodes := ((load_exact s.nodes).2.1 s' hload).2.2 hs.parentsFirst
  have htext : ∀ text, Json.parse? text = some s.toJson → ofText? text = some s' := by
    intro text hparse
    rw [ofText?, hparse, Option.bind_some, nodesOfJson?_toJson hrecords, Option.bind_some, hload]
    rfl
  refine ⟨s', htext _ (Json.parse?_compact (legible_toJson s)), htext _ (Json.parse?_pretty (legible_toJson s)),
    hnodes, fun id => ?_, nextFollows_ofNodes hload, hloaded⟩
  rw [hloaded.children, hs.children, hnodes]

/-- Saving and loading again changes nothing about a scene but its next id, which afterwards follows the
greatest id that is present. This holds whatever was done to the scene, if no node came with two fields of one
name, and if its numbers are finite and their numerals are read as these numbers. The ids that are added later
are new. -/
theorem reload_of_history {first : Scene}
    (hfirst : first = ∅ ∨ ∃ nodes, (∀ n ∈ nodes, n.fields.keys.Nodup) ∧ ofNodes nodes = .ok first)
    {operations : List Operation} (hinserted : ∀ node, .insert node ∈ operations → node.fields.keys.Nodup)
    (hfinite : ∀ x, ((History.start first).run operations).scene.HasNumber x → x.isFinite = true)
    (hdecimal : ∀ x, ((History.start first).run operations).scene.HasNumber x →
      ∀ n, Decimal.ofFloat? x = some n → n.float? = some x) :
    let s := ((History.start first).run operations).scene
    ∃ s', s.reload? = some s' ∧ ofText? s.toJson.pretty = some s' ∧ s'.nodes = s.nodes ∧
      (∀ id, s'.children id = s.children id) ∧
      ((s.ids = [] ∧ s'.nextId = 0) ∨
        ∃ id ∈ s.ids, (∀ other ∈ s.ids, other ≤ id) ∧ s'.nextId = id.toNat + 1) ∧
      ∀ more type kind parent? id added,
        ((History.start s').run more).scene.addNode type kind parent? = .ok (id, added) →
          id ∉ ((History.start s').run more).scene.ids := by
  intro s
  have hstart : first.WellFormed ∧ first.DistinctFields := by
    rcases hfirst with rfl | ⟨nodes, hnodes, hload⟩
    · exact ⟨.empty, nofun⟩
    · exact ⟨.ofNodes hload, distinctFields_ofNodes hnodes hload⟩
  have hs : s.WellFormed := ((History.sound_start hstart.1).run operations).wellFormed
  have hfields : s.DistinctFields := DistinctFields.run (h := History.start first) hstart.2 hinserted
  obtain ⟨s', hcompact, hpretty, hnodes, hchildren, hnext, hloaded⟩ :=
    hs.exists_reload (hfields.recordable hfinite hdecimal)
  have hids : s'.ids = s.ids := by rw [ids, hnodes, ids]
  refine ⟨s', hcompact, hpretty, hnodes, hchildren, hids ▸ hnext, ?_⟩
  intro more type kind parent? id added hadd hpresent
  have hlater := (History.sound_start hloaded).run more
  exact hlater.addNode_fresh hadd (hlater.present id hpresent)

def aim : Node where
  id := 9
  type := "AimConstraint"
  kind := .component
  parent? := some 5
  enabled := false
  fields := ⟨[("weight", .number 1.5), ("sources", .refs [none, some 5]), ("target", .ref none)]⟩

def aiming : List Operation :=
  [.insert { id := 5, type := "Transform", kind := .transform }, .insert aim, .addNode "Animator" .component (some 5),
    .remove 10]

/-- After loading, the id 10 is the next one again. -/
theorem reload_of_history_aiming :
    let s := ((History.start ∅).run aiming).scene
    s.nextId = 11 ∧ ∃ s', s.reload? = some s' ∧ s'.nodes = s.nodes ∧ s'.children 5 = [9] ∧ s'.nextId = 10 := by
  intro s
  have hnodes : s.nodes = [{ id := 5, type := "Transform", kind := .transform }, aim] := rfl
  have hnumber : ∀ x, s.HasNumber x → x = 1.5 := by
    rintro x ⟨n, hn, name, hentry⟩
    rw [hnodes, List.mem_cons, List.mem_singleton] at hn
    rcases hn with rfl | rfl
    · cases hentry
    · have hcases : name = "weight" ∧ x = 1.5 := by simpa [aim] using hentry
      exact hcases.2
  have hinserted : ∀ node, Operation.insert node ∈ aiming → node.fields.keys.Nodup := by
    intro node hnode
    simp only [aiming, List.mem_cons, List.not_mem_nil, or_false, Operation.insert.injEq, reduceCtorEq] at hnode
    rcases hnode with rfl | rfl
    · exact List.nodup_nil
    · decide
  have hwritten : Decimal.ofFloat? 1.5 = some { whole := [1], fraction? := some [5] } := by decide +kernel
  have hdecimal : ∀ x, s.HasNumber x → ∀ n, Decimal.ofFloat? x = some n → n.float? = some x := by
    intro x hx n hn
    rw [hnumber x hx] at hn ⊢
    obtain rfl := Option.some.inj (hn.symm.trans hwritten)
    decide +kernel
  have hfinite : ∀ x, s.HasNumber x → x.isFinite = true := by
    intro x hx
    rw [hnumber x hx]
    decide +kernel
  obtain ⟨s', hreload, -, hkept, hchildren, hnext, -⟩ := reload_of_history (Or.inl rfl) hinserted hfinite hdecimal
  refine ⟨rfl, s', hreload, hkept, hchildren 5, ?_⟩
  rcases hnext with ⟨hempty, -⟩ | ⟨id, hid, hgreatest, hlast⟩
  · cases hempty
  · have hids : id ∈ [5, 9] := hid
    have hcases : id = 5 ∨ id = 9 := by simpa using hids
    rcases hcases with rfl | rfl
    · exact absurd (hgreatest 9 (by decide)) (by decide)
    · exact hlast

end Reload

end ScenePrune.Scene

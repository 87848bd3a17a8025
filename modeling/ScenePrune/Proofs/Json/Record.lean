import ScenePrune.Json.Record
import ScenePrune.Proofs.Json.RoundTrip
import ScenePrune.Proofs.OrderedMap

/-! # The parts of a record are read as they are written -/
namespace ScenePrune

namespace Json

theorem id?_ofId (id : UInt32) : (ofId id).id? = some id := by
  simp [ofId, ofNat, id?, nat?, UInt32.toNat_lt_size]

theorem nullable?_ofId (id : UInt32) : nullable? Json.id? (ofId id) = some (some id) :=
  congrArg (Option.map some) (id?_ofId id)

theorem nullable?_ofOption (id? : Option UInt32) : nullable? Json.id? (ofOption ofId id?) = some id? := by
  cases id? with
  | none => rfl
  | some id => exact nullable?_ofId id

theorem list?_ofList {α : Type} {read : Json → Option α} {write : α → Json} {l : List α}
    (h : ∀ a ∈ l, read (write a) = some a) : list? read (ofList write l) = some l :=
  mapM_map_eq_some h

theorem exists_of_mem_list? {α : Type} {read : Json → Option α} {j : Json} {l : List α}
    (h : list? read j = some l) : ∀ a ∈ l, ∃ item, read item = some a := by
  unfold list? at h
  split at h
  case h_2 => cases h
  case h_1 items =>
    induction items generalizing l with
    | nil =>
      cases h
      exact nofun
    | cons item items ih =>
      rw [List.mapM_cons] at h
      obtain ⟨first, hfirst, h⟩ := Option.bind_eq_some_iff.mp h
      obtain ⟨rest, hrest, h⟩ := Option.bind_eq_some_iff.mp h
      obtain rfl := Option.some.inj h
      rintro a (_ | ⟨_, ha⟩)
      · exact ⟨item, hfirst⟩
      · exact ih hrest a ha

theorem legible_ofId (id : UInt32) : (ofId id).Legible := .number (Numeral.canonical_ofNat _)

theorem legible_ofFloat (x : Float) : (ofFloat x).Legible := by
  unfold ofFloat
  split
  case h_1 n hn => exact .number (Decimal.canonical_ofFloat? hn)
  case h_2 => exact .null

theorem legible_ofList {α : Type} {write : α → Json} (h : ∀ a, (write a).Legible) (l : List α) :
    (ofList write l).Legible := by
  refine .array fun item hitem => ?_
  obtain ⟨a, -, rfl⟩ := List.mem_map.mp hitem
  exact h a

end Json

end ScenePrune

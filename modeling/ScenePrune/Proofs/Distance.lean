import Mathlib.Order.Bounds.Basic
import Mathlib.Order.Nat

/-! # Distance along a relation

Steps of a relation are counted from the elements that it starts at. The distance of an element is the
least number of steps that lead to it. A search that goes level by level meets elements in the order of
their distance, as an element one step further out has a neighbour that is one step nearer.
-/
namespace ScenePrune

inductive ReachesIn {α : Type} (origin : α → Prop) (next : α → α → Prop) : Nat → α → Prop where
  | start {a : α} : origin a → ReachesIn origin next 0 a
  | step {d : Nat} {a b : α} : ReachesIn origin next d a → next a b → ReachesIn origin next (d + 1) b

/-- The least number of steps that lead from an origin to the element. -/
def HasDistance {α : Type} (origin : α → Prop) (next : α → α → Prop) (d : Nat) (a : α) : Prop :=
  IsLeast {k | ReachesIn origin next k a} d

variable {α : Type} {origin : α → Prop} {next : α → α → Prop} {d k : Nat} {a b : α}

theorem reachesIn_zero : ReachesIn origin next 0 a ↔ origin a := by
  constructor
  · rintro ⟨h⟩
    exact h
  · exact .start

theorem hasDistance_iff : HasDistance origin next d a ↔
    ReachesIn origin next d a ∧ ∀ k < d, ¬ ReachesIn origin next k a := by
  refine and_congr_right fun _ => ⟨fun h k hk hreaches => ?_, fun h k hreaches => ?_⟩
  · exact Nat.not_le.mpr hk (h hreaches)
  · exact Nat.not_lt.mp fun hk => h k hk hreaches

theorem HasDistance.reachesIn (h : HasDistance origin next d a) : ReachesIn origin next d a := h.1

theorem hasDistance_zero : HasDistance origin next 0 a ↔ origin a := by
  rw [hasDistance_iff, reachesIn_zero]
  exact and_iff_left fun k hk => absurd hk (Nat.not_lt_zero k)

theorem ReachesIn.exists_hasDistance (h : ReachesIn origin next k a) :
    ∃ d ≤ k, HasDistance origin next d a := by
  classical
  have hex : ∃ k, ReachesIn origin next k a := ⟨k, h⟩
  exact ⟨Nat.find hex, Nat.find_min' hex h, hasDistance_iff.mpr ⟨Nat.find_spec hex, fun _ => Nat.find_min hex⟩⟩

/-- What is further out has a neighbour that is one step nearer. -/
theorem HasDistance.exists_nearer (h : HasDistance origin next (d + 1) b) :
    ∃ a, HasDistance origin next d a ∧ next a b := by
  obtain ⟨hreaches, hleast⟩ := hasDistance_iff.mp h
  cases hreaches with
  | step ha hab =>
    refine ⟨_, hasDistance_iff.mpr ⟨ha, fun k hk hk' => ?_⟩, hab⟩
    exact hleast (k + 1) (Nat.succ_lt_succ hk) (hk'.step hab)

theorem HasDistance.step (h : HasDistance origin next d a) (hab : next a b)
    (hb : ∀ k ≤ d, ¬ ReachesIn origin next k b) : HasDistance origin next (d + 1) b :=
  hasDistance_iff.mpr ⟨h.reachesIn.step hab, fun k hk => hb k (Nat.lt_succ_iff.mp hk)⟩

/-- Distances leave no gap. -/
theorem HasDistance.exists_of_le (h : HasDistance origin next d a) (hk : k ≤ d) :
    ∃ b, HasDistance origin next k b := by
  induction d generalizing a with
  | zero => exact ⟨a, Nat.le_zero.mp hk ▸ h⟩
  | succ d ih =>
    rcases Nat.le_succ_iff.mp hk with hk | rfl
    · obtain ⟨b, hb, -⟩ := h.exists_nearer
      exact ih hb hk
    · exact ⟨a, h⟩

end ScenePrune

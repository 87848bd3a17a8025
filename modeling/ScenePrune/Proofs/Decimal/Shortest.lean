import ScenePrune.Proofs.Decimal.Numeral

/-! # Doubles are written as canonical numerals

A factor that lies in the interval of a positive double is positive, so its digits begin with one that is
not zero. Wherever the point is put, the numeral is then canonical.
-/
namespace ScenePrune.Decimal

theorem low_intervalOfBits_pos {bits : Nat} (h : bits ≠ 0) (hlt : bits < Nat.pow 2 63) :
    0 < (intervalOfBits bits).low ∧ 0 < (intervalOfBits bits).value := by
  have hmantissa : 0 < if bits / Nat.pow 2 52 % Nat.pow 2 11 = 0 then bits % Nat.pow 2 52
      else Nat.pow 2 52 + bits % Nat.pow 2 52 := by
    split
    case isTrue hbiased =>
      simp only [Nat.pow_eq] at hbiased hlt ⊢
      omega
    case isFalse => exact Nat.add_pos_left (by decide) _
  simp only [intervalOfBits]
  generalize (if bits / Nat.pow 2 52 % Nat.pow 2 11 = 0 then bits % Nat.pow 2 52
    else Nat.pow 2 52 + bits % Nat.pow 2 52) = mantissa at hmantissa
  split <;> omega

theorem ratio_fst_pos (two ten : Int) : 0 < (ratio two ten).1 :=
  Nat.mul_pos (Nat.pow_pos (by decide)) (Nat.pow_pos (by decide))

/-- Zero does not lie in the interval of a positive double. -/
theorem nearestOn?_pos {i : Interval} (hlow : 0 < i.low) {place : Int} {d : Nat}
    (h : nearestOn? i place = some d) : 0 < d := by
  have hlowest : 0 < i.low * (ratio i.exponent place).1 := Nat.mul_pos hlow (ratio_fst_pos _ _)
  unfold nearestOn? at h
  generalize ratio i.exponent place = scale at h hlowest
  obtain ⟨p, q⟩ := scale
  dsimp only at h hlowest
  generalize i.value * p / q = below at h
  have hinside : ∀ d, (if i.closed = true then decide (i.low * p ≤ d * q) && decide (d * q ≤ i.high * p)
      else decide (i.low * p < d * q) && decide (d * q < i.high * p)) = true → 0 < d := by
    intro d hd
    have hle : i.low * p ≤ d * q := by
      split at hd <;> simp only [Bool.and_eq_true, decide_eq_true_eq] at hd <;> omega
    refine Nat.pos_of_ne_zero ?_
    rintro rfl
    omega
  split at h
  case h_1 hbelow _ =>
    have hpos := hinside below hbelow
    obtain rfl := Option.some.inj h
    dsimp only [Interval.nearer]
    split <;> omega
  case h_2 hbelow _ =>
    obtain rfl := Option.some.inj h
    exact hinside below hbelow
  case h_3 =>
    obtain rfl := Option.some.inj h
    exact Nat.succ_pos _
  case h_4 => cases h

theorem factor_shortestOf_pos {i : Interval} (hlow : 0 < i.low) (hvalue : 0 < i.value) : 0 < (shortestOf i).factor := by
  unfold shortestOf
  dsimp only
  cases hfound : (List.range 17).findSome? fun digits : Nat =>
      (nearestOn? i (magnitude i - digits)).map (⟨·, magnitude i - digits⟩ : Nat → Scientific) with
  | none =>
    rw [Option.getD_none]
    exact hvalue
  | some s =>
    rw [Option.getD_some]
    obtain ⟨digits, -, hs⟩ := List.exists_of_findSome?_eq_some hfound
    obtain ⟨factor, hfactor, rfl⟩ := Option.map_eq_some_iff.mp hs
    exact nearestOn?_pos hlow hfactor

/-- Trimming leaves a beginning of the digits, with the first one if that is not zero. -/
theorem trimZeros_cons {d : Nat} {ds : List Nat} (hd : d ≠ 0) :
    ∃ kept, (trimZeros (d :: ds)).1 = d :: kept ∧ kept ⊆ ds := by
  have happend : (trimZeros (d :: ds)).1 ++ ((d :: ds).reverse.takeWhile (· = 0)).reverse = d :: ds := by
    rw [trimZeros, ← List.reverse_append, List.takeWhile_append_dropWhile, List.reverse_reverse]
  cases hkept : (trimZeros (d :: ds)).1 with
  | nil =>
    rw [hkept, List.nil_append] at happend
    have hmem : d ∈ (d :: ds).reverse.takeWhile (· = 0) := by
      rw [← List.mem_reverse, happend]
      exact List.mem_cons_self
    have hzero := List.all_eq_true.mp List.all_takeWhile d hmem
    exact absurd (of_decide_eq_true hzero) hd
  | cons first kept =>
    rw [hkept, List.cons_append, List.cons.injEq] at happend
    exact ⟨kept, by rw [happend.1], happend.2 ▸ List.subset_append_left _ _⟩

section Layouts
variable {negative : Bool} {d : Nat} {ds : List Nat} {e? : Option Int}

theorem lt_ten_of_mem_zeros {k x : Nat} (hx : x ∈ List.replicate k 0) : x < 10 := by
  rw [List.eq_of_mem_replicate hx]
  decide

theorem canonical_leading (hd : d ≠ 0) (hdigits : ∀ x ∈ d :: ds, x < 10) :
    Numeral.Canonical { negative, whole := (d :: ds).take 1, exponent? := e?
                        fraction? := if (d :: ds).length ≤ 1 then none else some ((d :: ds).drop 1) } := by
  refine ⟨fun x hx => hdigits x (List.mem_of_mem_take hx), Or.inr ⟨d, [], rfl, hd⟩, fun fraction hfraction => ?_⟩
  dsimp only at hfraction
  split at hfraction
  case isTrue => cases hfraction
  case isFalse hlong =>
    obtain rfl := Option.some.inj hfraction
    refine ⟨?_, fun x hx => hdigits x (List.mem_of_mem_drop hx)⟩
    rw [Ne, List.drop_eq_nil_iff]
    exact hlong

theorem canonical_integral (hd : d ≠ 0) (hdigits : ∀ x ∈ d :: ds, x < 10) (zeros : Nat) :
    Numeral.Canonical { negative, whole := (d :: ds) ++ List.replicate zeros 0, fraction? := some [0] } := by
  refine ⟨fun x hx => ?_, Or.inr ⟨d, _, rfl, hd⟩, ?_⟩
  · exact (List.mem_append.mp hx).elim (hdigits x) lt_ten_of_mem_zeros
  · rintro _ ⟨⟩
    simp

theorem canonical_fractional (hdigits : ∀ x ∈ d :: ds, x < 10) (zeros : Nat) :
    Numeral.Canonical { negative, whole := [0], fraction? := some (List.replicate zeros 0 ++ (d :: ds)) } := by
  refine ⟨by simp, Or.inl rfl, ?_⟩
  rintro _ ⟨⟩
  exact ⟨by simp, fun x hx => (List.mem_append.mp hx).elim lt_ten_of_mem_zeros (hdigits x)⟩

/-- The point stands after at least one digit and before at least one. -/
theorem canonical_mixed (hd : d ≠ 0) (hdigits : ∀ x ∈ d :: ds, x < 10) {before : Nat} (hpos : 0 < before)
    (hlength : before < (d :: ds).length) :
    Numeral.Canonical { negative, whole := (d :: ds).take before, fraction? := some ((d :: ds).drop before) } := by
  obtain ⟨k, rfl⟩ := Nat.exists_eq_add_of_lt hpos
  rw [Nat.zero_add] at hlength ⊢
  refine ⟨fun x hx => hdigits x (List.mem_of_mem_take hx), Or.inr ⟨d, _, rfl, hd⟩, ?_⟩
  rintro _ ⟨⟩
  refine ⟨?_, fun x hx => hdigits x (List.mem_of_mem_drop hx)⟩
  rw [Ne, List.drop_eq_nil_iff]
  exact Nat.not_le_of_lt hlength

end Layouts

theorem canonical_write (negative : Bool) {s : Scientific} (hs : 0 < s.factor) : (write negative s).Canonical := by
  obtain ⟨d, ds, hwhole, hd⟩ := Numeral.unpadded_ofNat hs
  obtain ⟨kept, hkept, hsub⟩ : ∃ kept, (trimZeros (d :: ds)).1 = d :: kept ∧ kept ⊆ ds := trimZeros_cons hd
  have hdigits : ∀ x ∈ d :: kept, x < 10 := by
    intro x hx
    refine Numeral.digits_ofNat s.factor x ?_
    rw [hwhole]
    exact List.cons_subset_cons d hsub hx
  unfold write
  rw [hwhole]
  generalize trimZeros (d :: ds) = trimmed at hkept
  obtain ⟨digits, zeros⟩ := trimmed
  obtain rfl : digits = d :: kept := hkept
  dsimp only
  generalize s.place + zeros = place
  split
  case isTrue => exact canonical_leading hd hdigits
  split
  case isFalse.isTrue => exact canonical_integral hd hdigits _
  split
  case isTrue => exact canonical_fractional hdigits _
  case isFalse => exact canonical_mixed hd hdigits (by omega) (by omega)

/-- A double that stands for a number is written as a canonical numeral. -/
theorem canonical_ofFloat? {x : Float} {n : Numeral} (h : ofFloat? x = some n) : n.Canonical := by
  unfold ofFloat? at h
  dsimp only at h
  split at h
  case isTrue =>
    obtain rfl := Option.some.inj h
    exact ⟨by simp, Or.inl rfl, by rintro _ ⟨⟩; simp⟩
  case isFalse hmagnitude =>
    split at h
    case isFalse => cases h
    case isTrue =>
      obtain rfl := Option.some.inj h
      obtain ⟨hlow, hvalue⟩ := low_intervalOfBits_pos hmagnitude (Nat.mod_lt _ (by decide))
      exact canonical_write _ (factor_shortestOf_pos hlow hvalue)

theorem isSome_ofFloat? {x : Float} (h : x.isFinite = true) : (ofFloat? x).isSome := by
  unfold ofFloat?
  simp only [h, if_true]
  split <;> rfl

end ScenePrune.Decimal

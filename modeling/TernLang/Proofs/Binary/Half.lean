import Mathlib.Tactic.Ring
import TernLang.Binary.Half

/-! Rounding to half precision. Singles and halves are whole multiples of the least single; from one
power of two to the next the halves are the multiples of a larger power, and a number is rounded to
the nearest one. -/
namespace TernLang
namespace Binary

/-- A finite number as a multiple of `2 ^ -149`, the least single. -/
def Number.units? : Number → Option Int
  | finite negative mantissa scale =>
    let units : Int := mantissa * twoPow (scale + 149).toNat
    some (if negative then -units else units)
  | _ => none

/-- Units of a number without its sign, by its fields; those of the least number are a power of two.
-/
def Format.units (f : Format) (least exponent fraction : Nat) : Nat :=
  if exponent = 0 then fraction * twoPow least else (twoPow f.fraction + fraction) * twoPow (least + (exponent - 1))

theorem Format.units?_decode (f : Format) (least : Nat) (lowest : f.leastScale = least - 149) (bits : Nat) :
    (f.decode bits).units? =
      let exponent := bits / twoPow f.fraction % twoPow f.exponent
      let units : Int := f.units least exponent (bits % twoPow f.fraction)
      if exponent = twoPow f.exponent - 1 then none
      else some (if bits / f.signPlace % 2 = 1 then -units else units) := by
  simp only [decode, units]
  generalize bits / twoPow f.fraction % twoPow f.exponent = exponent
  generalize bits % twoPow f.fraction = fraction
  split
  · split <;> rfl
  split
  · simp [Number.units?, lowest]
  · have scale : (f.leastScale + (exponent - 1) + 149).toNat = least + (exponent - 1) := by omega
    simp [Number.units?, scale]

end Binary

namespace Half
open Binary

/-- Of the multiples of a unit, `r` times it is nearest to half of a number; what is half-way is
rounded up. -/
structure Cut (unit r twice : Nat) : Prop where
  above : 2 * (r * unit) ≤ twice + unit
  below : twice < 2 * (r * unit) + unit

theorem Cut.mantissa {mantissa j r : Nat} (e : Nat)
    (cut : r = mantissa / twoPow (j + 1) + mantissa / twoPow j % 2) :
    Cut (twoPow (j + e)) r (mantissa * twoPow e) := by
  have low := Nat.div_mul_le_self mantissa (twoPow j)
  have high := Nat.lt_mul_div_succ mantissa (twoPow_pos j)
  rw [twoPow_succ, ← Nat.div_div_eq_div_mul] at cut
  generalize mantissa / twoPow j = q at *
  have twice : 2 * r = q ∨ 2 * r = q + 1 := by omega
  rw [show twoPow (j + e) = twoPow j * twoPow e from Nat.pow_add ..]
  rw [Nat.mul_comm] at high
  constructor
  · rw [← Nat.mul_assoc, ← Nat.mul_assoc, ← Nat.add_mul]
    refine Nat.mul_le_mul_right _ ?_
    rcases twice with even | odd
    · rw [even]
      omega
    · rw [odd, Nat.succ_mul]
      omega
  · rw [← Nat.mul_assoc, ← Nat.mul_assoc, ← Nat.add_mul, ← Nat.succ_mul]
    exact Nat.mul_lt_mul_of_pos_right (Nat.lt_of_lt_of_le high (Nat.mul_le_mul_right _ (by omega))) (twoPow_pos e)

/-- The value of a code whose rounded mantissa may have carried into the exponent. -/
theorem units_carry {k r : Nat} (small : r ≤ 2048) (normal : k = 0 ∨ 1024 ≤ r) :
    half.units 125 ((k * 1024 + r) / 1024) ((k * 1024 + r) % 1024) = r * twoPow (125 + k) := by
  unfold Format.units
  by_cases low : r < 1024
  · rw [if_pos (by omega), show k = 0 by omega, show (0 * 1024 + r) % 1024 = r by omega]
  rw [if_neg (by omega), show twoPow half.fraction = 1024 by rfl]
  by_cases carry : r = 2048
  · rw [show (k * 1024 + r) % 1024 = 0 by omega, show 125 + ((k * 1024 + r) / 1024 - 1) = 125 + k + 1 by omega,
      twoPow_succ, carry]
    omega
  · rw [show 1024 + (k * 1024 + r) % 1024 = r by omega, show (k * 1024 + r) / 1024 - 1 = k by omega]

theorem units_le {exponent fraction : Nat} (low : exponent ≤ 30) (small : fraction < 1024) :
    half.units 125 exponent fraction ≤ 2047 * twoPow 154 := by
  unfold Format.units
  split
  · exact Nat.mul_le_mul (by omega) (by decide)
  · exact Nat.mul_le_mul (by change 1024 + _ ≤ _; omega) (Nat.pow_le_pow_right (by decide) (by omega))

/-- A half is a multiple of the unit of a power of two, or is under that power. -/
theorem units_multiple (exponent : Nat) {fraction : Nat} (k : Nat) (small : fraction < 1024) :
    (∃ t, half.units 125 exponent fraction = t * twoPow (125 + k)) ∨
      0 < k ∧ half.units 125 exponent fraction ≤ 1024 * twoPow (125 + k) := by
  unfold Format.units
  rw [show twoPow half.fraction = 1024 by rfl]
  split
  · rcases Nat.eq_zero_or_pos k with rfl | above
    · exact .inl ⟨_, rfl⟩
    · exact .inr ⟨above, Nat.mul_le_mul (by omega) (Nat.pow_le_pow_right (by decide) (by omega))⟩
  · by_cases above : k ≤ exponent - 1
    · refine .inl ⟨(1024 + fraction) * twoPow (exponent - 1 - k), ?_⟩
      rw [Nat.mul_assoc, show 125 + (exponent - 1) = exponent - 1 - k + (125 + k) by omega]
      exact congrArg _ (Nat.pow_add ..)
    · refine .inr ⟨by omega, ?_⟩
      calc (1024 + fraction) * twoPow (125 + (exponent - 1))
        _ ≤ 1024 * 2 * twoPow (125 + (exponent - 1)) := Nat.mul_le_mul_right _ (by omega)
        _ = 1024 * twoPow (125 + (exponent - 1) + 1) := by rw [twoPow_succ]; ring
        _ ≤ 1024 * twoPow (125 + k) := Nat.mul_le_mul_left _ (Nat.pow_le_pow_right (by decide) (by omega))

/-- A finite single keeps its sign, and its units become `r` times those of the `k`th power of two.
-/
theorem roundBits_multiple (bits : Nat) (finite : bits / twoPow 23 % twoPow 8 ≠ 255) :
    ∃ k r, roundBits bits = bits / twoPow 31 % 2 * twoPow 15 + (k * 1024 + r) ∧
      let n := single.units 0 (bits / twoPow 23 % twoPow 8) (bits % twoPow 23)
      r ≤ 2048 ∧ k * 1024 + r ≤ 31744 ∧ (k * 1024 + r = 31744 ↔ 65520 * twoPow 149 ≤ n) ∧
      (k = 0 ∨ 1024 ≤ r ∧ 1024 * twoPow (125 + k) ≤ n) ∧
      (n < 65520 * twoPow 149 → Cut (twoPow (125 + k)) r (2 * n)) := by
  have fraction : bits % twoPow 23 < twoPow 23 := Nat.mod_lt _ (by decide)
  have exponent : bits / twoPow 23 % twoPow 8 < 256 := Nat.mod_lt _ (by decide)
  simp only [roundBits, if_neg finite]
  generalize bits / twoPow 23 % twoPow 8 = e at *
  generalize bits % twoPow 23 = f at *
  have twice : 0 < e → 2 * single.units 0 e f = (twoPow 23 + f) * twoPow e := by
    intro normal
    obtain ⟨e, rfl⟩ : ∃ d, e = d + 1 := ⟨e - 1, by omega⟩
    rw [Format.units, if_neg (by omega), twoPow_succ e]
    simp only [Nat.zero_add, Nat.add_sub_cancel, single]
    ring
  have under : 2 * single.units 0 e f < twoPow 24 * twoPow e := by
    rcases Nat.eq_zero_or_pos e with rfl | normal
    · simp only [Format.units, if_true, twoPow_zero, Nat.mul_one]
      exact Nat.mul_lt_mul_of_pos_left fraction (by decide) |>.trans_eq rfl
    · rw [twice normal]
      exact Nat.mul_lt_mul_of_pos_right (Nat.add_lt_add_left fraction _) (twoPow_pos e)
  generalize single.units 0 e f = n at *
  have power {d d' : Nat} (le : d ≤ d') : twoPow d ≤ twoPow d' := Nat.pow_le_pow_right (by decide) le
  by_cases huge : e ≥ 143
  · refine ⟨30, 1024, by rw [if_pos huge], ?_⟩
    have large : twoPow 23 * twoPow 143 ≤ 2 * n := by
      rw [twice (by omega)]
      exact Nat.mul_le_mul (by omega) (power huge)
    have : twoPow 23 * twoPow 143 = 131072 * twoPow 149 ∧ twoPow (125 + 30) = 64 * twoPow 149 := by decide +kernel
    exact ⟨by omega, by omega, by omega, by omega, fun small => by omega⟩
  rw [if_neg huge]
  suffices rounded : ∃ k r, _ = bits / twoPow 31 % 2 * twoPow 15 + (k * 1024 + r) ∧
      (k = 29 ∨ k < 29 ∧ e ≤ 141) ∧ r ≤ 2048 ∧
      (k = 0 ∨ 1024 ≤ r ∧ 1024 * twoPow (125 + k) ≤ n) ∧ Cut (twoPow (125 + k)) r (2 * n) by
    obtain ⟨k, r, sum, top, small, normal, cut⟩ := rounded
    refine ⟨k, r, sum, small, by omega, ?_, normal, fun _ => cut⟩
    obtain ⟨above, below⟩ := cut
    rcases top with rfl | ⟨lower, bound⟩
    · have : twoPow (125 + 29) = 32 * twoPow 149 := by decide +kernel
      rcases Nat.lt_or_eq_of_le small with less | rfl
      · have := Nat.mul_le_mul_right (twoPow (125 + 29)) (show r ≤ 2047 by omega)
        omega
      · omega
    · have := Nat.lt_of_lt_of_le under (Nat.mul_le_mul_left _ (power bound))
      have : twoPow 24 * twoPow 141 = 65536 * twoPow 149 := by decide +kernel
      omega
  by_cases tiny : e < 102
  · have less := Nat.lt_of_lt_of_le under (Nat.mul_le_mul_left _ (power (show e ≤ 101 by omega)))
    have : twoPow 24 * twoPow 101 = twoPow (125 + 0) := by decide +kernel
    exact ⟨0, 0, by simp only [if_pos tiny, Nat.zero_mul, Nat.add_zero], by omega, by omega, .inl rfl, ⟨by omega, by omega⟩⟩
  rw [if_neg tiny, twice (by omega)]
  by_cases subnormal : e ≤ 112
  · rw [if_pos subnormal]
    have cut := Cut.mantissa e (show _ = (twoPow 23 + f) / twoPow (126 - e - 1 + 1) +
      (twoPow 23 + f) / twoPow (126 - e - 1) % 2 from rfl)
    rw [show 126 - e - 1 + e = 125 by omega, show 126 - e - 1 + 1 = 126 - e by omega] at cut
    refine ⟨0, _, by rw [Nat.zero_mul, Nat.zero_add, Nat.add_assoc], by omega, ?_, .inl rfl, cut⟩
    have : (twoPow 23 + f) / twoPow (126 - e) < 2048 := by
      refine Nat.div_lt_of_lt_mul (Nat.lt_of_lt_of_le (Nat.add_lt_add_left fraction _) ?_)
      exact Nat.mul_le_mul_right 2048 (power (show 13 ≤ 126 - e by omega))
    omega
  · rw [if_neg subnormal]
    have cut := Cut.mantissa e (show _ = (twoPow 23 + f) / twoPow 13 + (twoPow 23 + f) / twoPow 12 % 2 from rfl)
    obtain ⟨k, rfl⟩ : ∃ k, e = k + 113 := ⟨e - 113, by omega⟩
    rw [show 12 + (k + 113) = 125 + k by omega] at cut
    have whole : (twoPow 23 + f) / twoPow 13 + (twoPow 23 + f) / twoPow 12 % 2 =
        1024 + f / twoPow 13 + f / twoPow 12 % 2 := by
      change (8388608 + f) / 8192 + (8388608 + f) / 4096 % 2 = 1024 + f / 8192 + f / 4096 % 2
      omega
    have : f / twoPow 13 < 1024 := Nat.div_lt_of_lt_mul fraction
    rw [whole] at cut
    refine ⟨k, _, ?_, by omega, by omega, .inr ⟨Nat.le_add_right_of_le (Nat.le_add_right ..), ?_⟩, cut⟩
    · rw [show twoPow 10 = 1024 from rfl]
      omega
    · have unit : twoPow (125 + k) = twoPow (k + 113) * 4096 := by
        rw [show 125 + k = k + 113 + 12 by omega]
        exact Nat.pow_add 2 (k + 113) 12
      have least : 8388608 * twoPow (k + 113) ≤ 2 * n :=
        Nat.le_trans (Nat.mul_le_mul_right _ (Nat.le_add_right (twoPow 23) f)) (twice (by omega)).symm.le
      omega

/-- Rounding to nearest, to the larger magnitude of two equally near, of a number in units of
`2 ^ -149`. -/
structure Rounds (negative : Bool) (v : Int) (bits : Nat) : Prop where
  sign : bits / half.signPlace = negative.toNat
  signed : if negative then v ≤ 0 else 0 ≤ v
  infinite : half.decode bits = .infinite negative ↔ 65520 * twoPow 149 ≤ v.natAbs
  nearest : v.natAbs < 65520 * twoPow 149 → ∃ w, (half.decode bits).units? = some w ∧
    ∀ other w', (half.decode other).units? = some w' → (v - w).natAbs ≤ (v - w').natAbs ∧
      ((v - w).natAbs = (v - w').natAbs → w'.natAbs ≤ w.natAbs)

theorem natAbs_units {bits : Nat} {w : Int} (finite : (half.decode bits).units? = some w) :
    ∃ exponent fraction, exponent ≤ 30 ∧ fraction < 1024 ∧
      w.natAbs = half.units 125 exponent fraction := by
  simp only [half.units?_decode 125 rfl, Option.ite_none_left_eq_some, Option.some.injEq] at finite
  obtain ⟨low, rfl⟩ := finite
  have : bits / twoPow 10 % twoPow 5 < 32 := Nat.mod_lt _ (by decide)
  refine ⟨bits / twoPow 10 % twoPow 5, bits % 1024, ?_, Nat.mod_lt _ (by decide), ?_⟩
  · change _ ≠ 31 at low
    exact Nat.le_of_lt_succ (Nat.lt_of_le_of_ne (Nat.le_of_lt_succ this) low)
  · split <;> simp <;> rfl

/-- The multiple a number is rounded to is nearest to it, whatever the signs. -/
theorem Cut.closest {k r n other : Nat} {w' : Int} (cut : Cut (twoPow (125 + k)) r (2 * n)) (negative : Prop)
    [Decidable negative] (normal : k = 0 ∨ 1024 ≤ r ∧ 1024 * twoPow (125 + k) ≤ n)
    (finite : (half.decode other).units? = some w') :
    let v : Int := if negative then -n else n
    let w : Int := if negative then -↑(r * twoPow (125 + k)) else ↑(r * twoPow (125 + k))
    (v - w).natAbs ≤ (v - w').natAbs ∧ ((v - w).natAbs = (v - w').natAbs → w'.natAbs ≤ w.natAbs) := by
  obtain ⟨exponent, fraction, -, small, size⟩ := natAbs_units finite
  obtain ⟨above, below⟩ := cut
  obtain ⟨t, multiple⟩ : ∃ t, w'.natAbs = t * twoPow (125 + k) ∨
      w'.natAbs ≤ t * twoPow (125 + k) ∧ t * twoPow (125 + k) ≤ n ∧ t ≤ r := by
    rcases units_multiple exponent k small with ⟨t, same⟩ | ⟨pos, under⟩
    · exact ⟨t, .inl (size.trans same)⟩
    · exact ⟨1024, .inr (by omega)⟩
  have apart : t * twoPow (125 + k) + twoPow (125 + k) ≤ r * twoPow (125 + k) ∨
      t * twoPow (125 + k) = r * twoPow (125 + k) ∨
      r < t ∧ r * twoPow (125 + k) + twoPow (125 + k) ≤ t * twoPow (125 + k) := by
    simp only [← Nat.succ_mul]
    rcases Nat.lt_trichotomy t r with less | rfl | more
    · exact .inl (Nat.mul_le_mul_right _ less)
    · exact .inr (.inl rfl)
    · exact .inr (.inr ⟨more, Nat.mul_le_mul_right _ more⟩)
  generalize r * twoPow (125 + k) = w at *
  generalize t * twoPow (125 + k) = m at *
  split <;> omega

theorem roundBits_rounds {bits : Nat} {v : Int} (finite : (single.decode bits).units? = some v) :
    Rounds (bits / twoPow 31 % 2 == 1) v (roundBits bits) := by
  simp only [single.units?_decode 0 rfl, Option.ite_none_left_eq_some, Option.some.injEq] at finite
  change bits / twoPow 23 % twoPow 8 ≠ 255 ∧
    (if bits / twoPow 31 % 2 = 1 then -(single.units 0 (bits / twoPow 23 % twoPow 8) (bits % twoPow 23) : Int)
      else single.units 0 (bits / twoPow 23 % twoPow 8) (bits % twoPow 23)) = v at finite
  obtain ⟨low, rfl⟩ := finite
  obtain ⟨k, r, sum, small, top, infinite, normal, cut⟩ := roundBits_multiple bits low
  have bit : bits / twoPow 31 % 2 < 2 := Nat.mod_lt _ (by decide)
  generalize bits / twoPow 31 % 2 = s at *
  generalize single.units 0 _ _ = n at *
  rw [sum]
  have size : (if s = 1 then -(n : Int) else n).natAbs = n := by split <;> omega
  have sign : (s * twoPow 15 + (k * 1024 + r)) / half.signPlace = s := by
    change (s * 32768 + (k * 1024 + r)) / 32768 = s
    omega
  have exponent : (s * twoPow 15 + (k * 1024 + r)) / twoPow half.fraction % twoPow half.exponent =
      (k * 1024 + r) / 1024 := by
    change (s * 32768 + (k * 1024 + r)) / 1024 % 32 = (k * 1024 + r) / 1024
    omega
  have fraction : (s * twoPow 15 + (k * 1024 + r)) % twoPow half.fraction = (k * 1024 + r) % 1024 := by
    change (s * 32768 + (k * 1024 + r)) % 1024 = (k * 1024 + r) % 1024
    omega
  refine ⟨?_, by simp only [beq_iff_eq]; split <;> omega, ?_, ?_⟩
  · rw [sign]
    obtain rfl | rfl : s = 0 ∨ s = 1 := by omega
    all_goals rfl
  · rw [size, ← infinite]
    simp only [Format.decode, exponent, fraction, sign, Nat.mod_eq_of_lt bit]
    by_cases full : k * 1024 + r = 31744
    · simp [full, show twoPow half.exponent = 32 from rfl]
    · rw [if_neg (by change _ ≠ 31; omega)]
      refine iff_of_false ?_ full
      split <;> nofun
  · rw [size]
    intro below
    have finite : k * 1024 + r ≠ 31744 := by omega
    refine ⟨if s = 1 then -↑(r * twoPow (125 + k)) else ↑(r * twoPow (125 + k)), ?_, fun other w' half =>
      (cut below).closest (s = 1) normal half⟩
    simp only [half.units?_decode 125 rfl, exponent, fraction, sign, Nat.mod_eq_of_lt bit]
    rw [if_neg (by change _ ≠ 31; omega), units_carry small (normal.imp_right And.left)]

/-- A half is rounded to itself. -/
theorem Rounds.exact (rounds : Rounds negative v bits) {other : Nat}
    (half : (half.decode other).units? = some v) :
    (Binary.half.decode bits).units? = some v := by
  obtain ⟨exponent, fraction, low, small, size⟩ := natAbs_units half
  have bound := units_le low small
  have : twoPow 154 = 32 * twoPow 149 := by decide +kernel
  have := twoPow_pos 149
  obtain ⟨w, val, nearest⟩ := rounds.nearest (by omega)
  have := (nearest other v half).1
  rw [val, show w = v by omega]

end Half

/-- One number is at most another, by value; an infinity is at an end. -/
def Binary.Number.AtMost (a b : Number) : Prop :=
  a = .infinite true ∨ b = .infinite false ∨ ∃ v w, a.units? = some v ∧ b.units? = some w ∧ v ≤ w

namespace Half
open Binary

/-- Were the greater number rounded below the smaller one, both would be half-way between opposite
halves, and so zero. -/
theorem Rounds.mono (rounds : Rounds negative v bits) (rounds' : Rounds negative' v' bits')
    (le : v ≤ v') :
    (half.decode bits).AtMost (half.decode bits') := by
  have signed := rounds.signed
  have signed' := rounds'.signed
  have := twoPow_pos 149
  by_cases large : 65520 * twoPow 149 ≤ v.natAbs ∧ v < 0
  · have : negative = true := by
      cases negative
      · simp at signed
        omega
      · rfl
    exact .inl (by rw [rounds.infinite.2 large.1, this])
  by_cases large' : 65520 * twoPow 149 ≤ v'.natAbs ∧ 0 ≤ v'
  · have : negative' = false := by
      cases negative'
      · rfl
      · simp at signed'
        omega
    exact .inr (.inl (by rw [rounds'.infinite.2 large'.1, this]))
  obtain ⟨w, val, nearest⟩ := rounds.nearest (by omega)
  obtain ⟨w', val', nearest'⟩ := rounds'.nearest (by omega)
  have := nearest _ _ val'
  have := nearest' _ _ val
  have := nearest 0 0 rfl
  exact .inr (.inr ⟨w, w', val, val', by omega⟩)

/-- Rounding a finite single: to nearest, exact on the halves, and monotone. -/
theorem roundBits_nearest (bits : Nat) (v : Int) (finite : (single.decode bits).units? = some v) :
    Rounds (bits / single.signPlace % 2 == 1) v (roundBits bits) ∧
      (∀ x : Binary64, x.narrow.bits.toNat = bits → (ofBinary64 x).toNat = roundBits bits) ∧
      (∀ other, (half.decode other).units? = some v →
        (half.decode (roundBits bits)).units? = some v) ∧
      ∀ bits' v', (single.decode bits').units? = some v' → v ≤ v' →
        (half.decode (roundBits bits)).AtMost (half.decode (roundBits bits')) := by
  have rounds := roundBits_rounds finite
  refine ⟨rounds, ?_, fun _ half => rounds.exact half,
    fun _ _ finite' le => rounds.mono (roundBits_rounds finite') le⟩
  rintro x rfl
  have sign : roundBits x.narrow.bits.toNat / 32768 = _ := rounds.sign
  have bit := Bool.toNat_le (x.narrow.bits.toNat / twoPow 31 % 2 == 1)
  exact Nat.mod_eq_of_lt (show roundBits x.narrow.bits.toNat < 65536 by omega)

/-- Half-way between the greatest subnormal half and the least normal one. -/
theorem least_normal_tie : (single.decode 0x387FE000).units? = some (16769024 * twoPow 111) ∧
    Rounds false (16769024 * twoPow 111) 0x400 :=
  ⟨rfl, (roundBits_nearest 0x387FE000 (16769024 * twoPow 111) rfl).1⟩

end Half
end TernLang

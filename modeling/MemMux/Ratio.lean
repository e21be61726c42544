/-
MemMux/Ratio.lean

The quotient of two counts as a `binary64` number: if the one is at most the other, it is at most one
(`toFloat_div_le_one`).

A positive float has a place, its exponent and then its mantissa, and floats compare as their places
do.  Rounding is monotone in the place (`place_mono`), which carries the order of the counts to their
conversions and the bound on the mantissas' quotient to the quotient.
-/
import MemMux.Binary64

namespace Binary64

open Float.Model.UnpackedFloat
open Float.Model (Format UnpackedFloat totalExponent)

/-! ### Places -/

/-- The exponent and the mantissa that a rounded mantissa of 53 bits, or the next power of two, gets. -/
def place (e : Int) (r : Nat) : Int × Nat := if r = 2 ^ 53 then (e + 1, 2 ^ 52) else (e, r)

/-- Places compare by the exponent, then by the mantissa. -/
def placeLe (p q : Int × Nat) : Prop := p.1 < q.1 ∨ p.1 = q.1 ∧ p.2 ≤ q.2

theorem place_mono {e e' : Int} {r r' : Nat} (hlo : 2 ^ 52 ≤ r') (hr : r ≤ 2 ^ 53)
    (hr' : r' ≤ 2 ^ 53) (h : placeLe (e, r) (e', r')) : placeLe (place e r) (place e' r') := by
  unfold place
  simp only [placeLe] at h ⊢
  split_ifs <;> simp only <;> omega

/-- The float at a place. -/
def At (p : Int × Nat) (u : UnpackedFloat) : Prop := ∃ h, u = .finite .positive p.2 p.1 h

/-! ### Monotone rounding -/

/-- A mantissa with its two residual bits, as a number. -/
def bits (em : ExtendedMantissa) : Nat :=
  4 * em.mantissa + 2 * em.roundBit.toNat + em.stickyBit.toNat

theorem bits_shiftRightOne_mono {a b : ExtendedMantissa} (h : bits a ≤ bits b) :
    bits a.shiftRightOne ≤ bits b.shiftRightOne := by
  obtain ⟨m, r, s⟩ := a
  obtain ⟨n, t, u⟩ := b
  have hm : ∀ k : Nat, 4 * (k / 2) + 2 * (k % 2 != 0).toNat = 2 * k := by
    intro k
    rcases Nat.mod_two_eq_zero_or_one k with hk | hk <;> simp [hk] <;> omega
  simp only [bits, ExtendedMantissa.shiftRightOne] at h ⊢
  rw [hm, hm]
  cases r <;> cases s <;> cases t <;> cases u <;> simp at h ⊢ <;> omega

theorem bits_shiftRight_mono {a b : ExtendedMantissa} (h : bits a ≤ bits b) (k : Nat) :
    bits (a >>> k) ≤ bits (b >>> k) := by
  show bits (k.repeat ExtendedMantissa.shiftRightOne a) ≤ bits (k.repeat _ b)
  induction k with
  | zero => exact h
  | succ k ih => exact bits_shiftRightOne_mono ih

theorem roundedMantissa_mono {a b : ExtendedMantissa} (h : bits a ≤ bits b) :
    a.roundedMantissa ≤ b.roundedMantissa := by
  obtain ⟨m, r, s⟩ := a
  obtain ⟨n, t, u⟩ := b
  simp only [bits] at h
  unfold ExtendedMantissa.roundedMantissa
  cases r <;> cases s <;> cases t <;> cases u <;>
    simp [ExtendedMantissa.accuracy, Accuracy.roundToNearestEven] at h ⊢ <;> omega

/-- A mantissa cut by `k` bits and rounded. -/
def rounded (m : Nat) (acc : Accuracy) (k : Nat) : Nat :=
  (ExtendedMantissa.ofMantissaAndAccuracy m acc >>> k).roundedMantissa

theorem rounded_exact_mono {m n : Nat} (h : m ≤ n) (k : Nat) :
    rounded m .exact k ≤ rounded n .exact k := by
  refine roundedMantissa_mono (bits_shiftRight_mono ?_ k)
  simp only [bits, ExtendedMantissa.ofMantissaAndAccuracy]
  omega

/-- Cut to 53 bits, a mantissa rounds to 53 bits or to the next power of two. -/
theorem rounded_bounds {m : Nat} (acc : Accuracy) (hm : 52 ≤ m.log2) :
    2 ^ 52 ≤ rounded m acc (m.log2 - 52) ∧ rounded m acc (m.log2 - 52) ≤ 2 ^ 53 := by
  have hcut := log2_cut hm
  have hne : m / 2 ^ (m.log2 - 52) ≠ 0 := by
    intro h
    simp [h] at hcut
  obtain ⟨hlo, hhi⟩ := (Nat.log2_eq_iff hne).mp hcut
  obtain ⟨hge, hle⟩ :=
    roundedMantissa_bounds (ExtendedMantissa.ofMantissaAndAccuracy m acc >>> (m.log2 - 52))
  rw [mantissa_shiftRight, mantissa_ofMantissaAndAccuracy] at hge hle
  exact ⟨Nat.le_trans hlo hge, Nat.le_trans hle hhi⟩

/-- **Where rounding puts a float** of at least 53 bits. -/
theorem at_roundWithAccuracy {m : Nat} {e : Int} (acc : Accuracy) (hm : 52 ≤ m.log2)
    (he : -1074 ≤ e + m.log2 - 52) :
    At (place (e + m.log2 - 52) (rounded m acc (m.log2 - 52)))
      (roundWithAccuracy Format.binary64 .positive m e acc) := by
  obtain ⟨hlo, hhi⟩ := rounded_bounds acc hm
  have hshift : (e + m.log2 - 52 - e).toNat = m.log2 - 52 := by omega
  have hfirst : shiftToTargetExponent Format.binary64 m e acc
      = (ExtendedMantissa.ofMantissaAndAccuracy m acc >>> (m.log2 - 52), e + m.log2 - 52) := by
    rw [shiftToTargetExponent, targetExponent_eq he, shiftToExponent, hshift]
    exact Prod.ext rfl (by omega)
  generalize hr : rounded m acc (m.log2 - 52) = r at hlo hhi ⊢
  generalize e + m.log2 - 52 = e₁ at he hfirst ⊢
  have hround : (ExtendedMantissa.ofMantissaAndAccuracy m acc >>> (m.log2 - 52)).roundedMantissa = r :=
    hr
  have hlog : 52 ≤ r.log2 := (Nat.le_log2 (by omega)).mpr hlo
  obtain ⟨hm₂, he₂⟩ := @shiftToTargetExponent_eq r e₁ .exact hlog (by omega)
  have hplace : ((shiftToTargetExponent Format.binary64 r e₁ .exact).2,
      (shiftToTargetExponent Format.binary64 r e₁ .exact).1.mantissa) = place e₁ r := by
    rw [hm₂, he₂, place]
    split_ifs with h53
    · rw [h53, Nat.log2_two_pow]
      exact Prod.ext (by simp only; omega) (show 2 ^ 53 / 2 ^ (53 - 52) = 2 ^ 52 by decide)
    · have hl : r.log2 = 52 := (Nat.log2_eq_iff (by omega)).mpr ⟨hlo, by omega⟩
      rw [hl, Nat.sub_self, Nat.pow_zero, Nat.div_one]
      exact Prod.ext (by simp only; omega) rfl
  have hpos : 0 < (place e₁ r).2 := by
    unfold place
    split_ifs <;> simp only <;> omega
  rw [← hplace] at hpos ⊢
  refine ⟨hpos, ?_⟩
  rw [roundWithAccuracy, hfirst]
  dsimp only
  rw [hround, dif_neg hpos.ne']

/-! ### Counts -/

/-- The mantissa of a count, cut or filled up to 53 bits. -/
def countMantissa (n : Nat) : Nat :=
  if n.log2 < 52 then n <<< (52 - n.log2) else rounded n .exact (n.log2 - 52)

theorem countMantissa_bounds {n : Nat} (h : n ≠ 0) :
    2 ^ 52 ≤ countMantissa n ∧ countMantissa n ≤ 2 ^ 53 := by
  unfold countMantissa
  split_ifs with hlog
  · have hl : (n <<< (52 - n.log2)).log2 = 52 := by
      rw [log2_shiftLeft h]
      omega
    have hne : n <<< (52 - n.log2) ≠ 0 := by
      intro h0
      simp [h0] at hl
    obtain ⟨hlo, hhi⟩ := (Nat.log2_eq_iff hne).mp hl
    exact ⟨hlo, Nat.le_of_lt hhi⟩
  · exact rounded_bounds .exact (by omega)

theorem countMantissa_mono {n k : Nat} (h : n ≤ k) (hlog : n.log2 = k.log2) :
    countMantissa n ≤ countMantissa k := by
  unfold countMantissa
  rw [hlog]
  split_ifs
  · rw [Nat.shiftLeft_eq, Nat.shiftLeft_eq]
    exact Nat.mul_le_mul_right _ h
  · exact rounded_exact_mono h _

/-- The place of a count. -/
def countPlace (n : Nat) : Int × Nat := place ((n.log2 : Int) - 52) (countMantissa n)

/-- Conversion keeps the order. -/
theorem countPlace_mono {n k : Nat} (hn : n ≠ 0) (h : n ≤ k) :
    placeLe (countPlace n) (countPlace k) := by
  have hk : k ≠ 0 := by omega
  refine place_mono (countMantissa_bounds hk).1 (countMantissa_bounds hn).2
    (countMantissa_bounds hk).2 ?_
  have hlog : n.log2 ≤ k.log2 := by
    rw [Nat.le_log2 hk]
    exact Nat.le_trans (Nat.log2_self_le hn) h
  rcases Nat.lt_or_eq_of_le hlog with hlt | heq
  · exact .inl (by simp only; omega)
  · exact .inr ⟨by simp only [heq], countMantissa_mono h heq⟩

theorem at_round {n : Nat} (h : n ≠ 0) :
    At (countPlace n) (round Format.binary64 .positive n 0) := by
  have htarget : Format.binary64.targetExponent (totalExponent n 0) = n.log2 - 52 := by
    rw [targetExponent_eq (by omega)]
    omega
  rw [Float.Model.UnpackedFloat.round, htarget, decreaseExponent, countPlace, countMantissa]
  split_ifs with hlog
  · have hsh : ((0 : Int) - (n.log2 - 52)).toNat = 52 - n.log2 := by omega
    have hl : (n <<< (52 - n.log2)).log2 = 52 := by
      rw [log2_shiftLeft h]
      omega
    have hat := @at_roundWithAccuracy (n <<< (52 - n.log2)) (0 - (52 - n.log2 : Nat)) .exact
      (by omega) (by omega)
    have hexp : (0 : Int) - (52 - n.log2 : Nat) + (n <<< (52 - n.log2)).log2 - 52 = n.log2 - 52 := by
      omega
    have hsame : rounded (n <<< (52 - n.log2)) .exact ((n <<< (52 - n.log2)).log2 - 52)
        = n <<< (52 - n.log2) := by
      rw [hl]
      rfl
    rw [hexp, hsame] at hat
    rw [hsh]
    exact hat
  · have hsh : ((0 : Int) - (n.log2 - 52)).toNat = 0 := by omega
    have hat := @at_roundWithAccuracy n 0 .exact (by omega) (by omega)
    rw [Int.zero_add] at hat
    rw [hsh, Nat.shiftLeft_zero]
    exact hat

/-! ### Packing -/

/-- A place that a packed float can have. -/
def Packs (p : Int × Nat) : Prop := -1074 ≤ p.1 ∧ p.1 ≤ 970 ∧ 2 ^ 52 ≤ p.2 ∧ p.2 < 2 ^ 53

/-- Packing and unpacking keeps the place. -/
theorem at_unpack_pack {p : Int × Nat} {u : UnpackedFloat} (h : At p u) (hp : Packs p) :
    At p (unpack Format.binary64 (pack Format.binary64 u)) := by
  obtain ⟨hpos, rfl⟩ := h
  obtain ⟨hlow, hhigh, hlo, hhi⟩ := hp
  have hlog : p.2.log2 = 52 := (Nat.log2_eq_iff hpos.ne').mpr ⟨hlo, hhi⟩
  exact ⟨hpos, unpack_pack_finite .positive hpos hlog hlow hhigh⟩

theorem place_bounds {e : Int} {r : Nat} (hlo : 2 ^ 52 ≤ r) (hhi : r ≤ 2 ^ 53) :
    e ≤ (place e r).1 ∧ (place e r).1 ≤ e + 1 ∧ 2 ^ 52 ≤ (place e r).2 ∧ (place e r).2 < 2 ^ 53 := by
  unfold place
  split_ifs <;> simp only <;> omega

theorem packs_place {e : Int} {r : Nat} (hlow : -1074 ≤ e) (hhigh : e < 970) (hlo : 2 ^ 52 ≤ r)
    (hhi : r ≤ 2 ^ 53) : Packs (place e r) := by
  obtain ⟨h₁, h₂, h₃, h₄⟩ := place_bounds (e := e) hlo hhi
  exact ⟨hlow.trans h₁, h₂.trans hhigh, h₃, h₄⟩

theorem countPlace_bounds {n : Nat} (h : n ≠ 0) (hlt : n < 2 ^ 64) :
    -52 ≤ (countPlace n).1 ∧ (countPlace n).1 ≤ 12 ∧ 2 ^ 52 ≤ (countPlace n).2 ∧
      (countPlace n).2 < 2 ^ 53 := by
  have hlog : n.log2 < 64 := (Nat.log2_lt h).mpr hlt
  obtain ⟨hlo, hhi⟩ := countMantissa_bounds h
  obtain ⟨h₁, h₂, h₃, h₄⟩ := place_bounds (e := (n.log2 : Int) - 52) hlo hhi
  exact ⟨le_trans (by omega) h₁, h₂.trans (by omega), h₃, h₄⟩

/-- **Where the conversion of a count is.** -/
theorem at_toFloat {n : UInt64} (h : n ≠ 0) : At (countPlace n.toNat) n.toFloat.toModel.unpack := by
  have hn : n.toNat ≠ 0 := fun h0 => h (UInt64.toNat_inj.mp h0)
  have hcmp : compare (n.toNat : Int) 0 = .gt := Int.compare_eq_gt.mpr (by omega)
  obtain ⟨h₁, h₂, h₃, h₄⟩ := countPlace_bounds hn n.toNat_lt
  refine at_unpack_pack ?_ ⟨le_trans (by decide) h₁, h₂.trans (by decide), h₃, h₄⟩
  show At _ (normalize Format.binary64 n.toNat 0 .positive)
  rw [Float.Model.UnpackedFloat.normalize, hcmp]
  exact at_round hn

/-! ### The quotient -/

/-- The place of one. -/
def onePlace : Int × Nat := (-52, 2 ^ 52)

theorem divCore_eq {m₁ m₂ : Nat} {e₁ e₂ : Int} (h₁ : m₁.log2 = 52) (h₂ : m₂.log2 = 52)
    (he : -1000 ≤ e₁ - e₂) :
    divCore Format.binary64 m₁ e₁ m₂ e₂
      = (m₁ * 2 ^ 53 / m₂, e₁ - e₂ - 53, accuracyOfFraction (m₁ * 2 ^ 53 % m₂) m₂) := by
  have htarget : min (e₁ - e₂) (Format.binary64.targetExponent
      (totalExponent m₁ e₁ - totalExponent m₂ e₂)) = e₁ - e₂ - 53 := by
    simp only [Format.targetExponent, totalExponent, h₁, h₂, Format.mantissaBits,
      Format.minExponent]
    omega
  have hshift : (e₁ - e₂ - (e₁ - e₂ - 53)).toNat = 53 := by omega
  simp only [divCore, htarget, hshift, Nat.shiftLeft_eq]

theorem place_le_one {e : Int} {r : Nat} (he : e ≤ -53) :
    placeLe (place e r) onePlace := by
  unfold place placeLe onePlace
  split_ifs <;> simp only <;> omega

/-- The quotient of full mantissas has 53 or 54 bits; the 54th takes a dividend that is no smaller. -/
theorem quotient_bounds {m₁ m₂ : Nat} (h₁ : 2 ^ 52 ≤ m₁ ∧ m₁ < 2 ^ 53)
    (h₂ : 2 ^ 52 ≤ m₂ ∧ m₂ < 2 ^ 53) :
    2 ^ 52 ≤ m₁ * 2 ^ 53 / m₂ ∧ m₁ * 2 ^ 53 / m₂ < 2 ^ 54 ∧
      (2 ^ 53 ≤ m₁ * 2 ^ 53 / m₂ → m₂ ≤ m₁) := by
  have hpos : 0 < m₂ := by omega
  refine ⟨(Nat.le_div_iff_mul_le hpos).mpr (by omega), (Nat.div_lt_iff_lt_mul hpos).mpr (by omega),
    fun h => ?_⟩
  have hmul := (Nat.le_div_iff_mul_le hpos).mp h
  omega

/-- **The quotient of two floats in order** has a place, which is at most that of one. -/
theorem at_div_le {p q : Int × Nat} {u v : UnpackedFloat} (hu : At p u) (hv : At q v)
    (hp : 2 ^ 52 ≤ p.2 ∧ p.2 < 2 ^ 53) (hq : 2 ^ 52 ≤ q.2 ∧ q.2 < 2 ^ 53)
    (hdiff : -900 ≤ p.1 - q.1) (h : placeLe p q) :
    ∃ r, At r (div Format.binary64 u v) ∧ Packs r ∧ placeLe r onePlace := by
  obtain ⟨e₁, m₁⟩ := p
  obtain ⟨e₂, m₂⟩ := q
  obtain ⟨hpos₁, rfl⟩ := hu
  obtain ⟨hpos₂, rfl⟩ := hv
  simp only at hpos₁ hpos₂ hp hq hdiff
  simp only [placeLe] at h
  have h₁ : m₁.log2 = 52 := (Nat.log2_eq_iff hpos₁.ne').mpr hp
  have h₂ : m₂.log2 = 52 := (Nat.log2_eq_iff hpos₂.ne').mpr hq
  obtain ⟨hlo, hhi, hge⟩ := quotient_bounds hp hq
  have hdiv : div Format.binary64 (.finite .positive m₁ e₁ hpos₁) (.finite .positive m₂ e₂ hpos₂)
      = roundWithAccuracy Format.binary64 .positive (m₁ * 2 ^ 53 / m₂) (e₁ - e₂ - 53)
          (accuracyOfFraction (m₁ * 2 ^ 53 % m₂) m₂) := by
    rw [div, divCore_eq h₁ h₂ (by omega)]
    rfl
  rw [hdiv]
  have hne : m₁ * 2 ^ 53 / m₂ ≠ 0 := by omega
  have hlog : 52 ≤ (m₁ * 2 ^ 53 / m₂).log2 := (Nat.le_log2 hne).mpr hlo
  have hlog' : (m₁ * 2 ^ 53 / m₂).log2 < 54 := (Nat.log2_lt hne).mpr hhi
  have hat := @at_roundWithAccuracy _ (e₁ - e₂ - 53) (accuracyOfFraction (m₁ * 2 ^ 53 % m₂) m₂)
    hlog (by omega)
  obtain ⟨hrlo, hrhi⟩ := rounded_bounds (accuracyOfFraction (m₁ * 2 ^ 53 % m₂) m₂) hlog
  refine ⟨_, hat, packs_place (by omega) (by omega) hrlo hrhi, ?_⟩
  by_cases h54 : 2 ^ 53 ≤ m₁ * 2 ^ 53 / m₂
  · have hle := hge h54
    rcases h with hlt | ⟨heq, hle'⟩
    · exact place_le_one (by omega)
    · -- equal floats: the quotient is one exactly
      obtain rfl : m₁ = m₂ := Nat.le_antisymm hle' hle
      rw [Nat.mul_mod_right, Nat.mul_div_cancel_left _ hpos₁, heq, Int.sub_self]
      show placeLe (place (-52) (rounded (2 ^ 53) .exact 1)) onePlace
      exact .inr ⟨rfl, Nat.le_refl _⟩
  · exact place_le_one (by
      have : (m₁ * 2 ^ 53 / m₂).log2 = 52 := (Nat.log2_eq_iff hne).mpr ⟨hlo, by omega⟩
      omega)

/-- A float at a place that is at most that of another is at most the other. -/
theorem compare_isLE_of_placeLe {p q : Int × Nat} {u v : UnpackedFloat} (hu : At p u) (hv : At q v)
    (h : placeLe p q) : (u.compare v).any (·.isLE) = true := by
  obtain ⟨hp, rfl⟩ := hu
  obtain ⟨hq, rfl⟩ := hv
  rcases h with hlt | ⟨heq, hle⟩
  · simp [UnpackedFloat.compare, compare_lt_iff_lt.mpr hlt]
  · rw [heq]
    rcases Nat.lt_or_eq_of_le hle with hlt | heq'
    · simp [UnpackedFloat.compare, compare_lt_iff_lt.mpr hlt]
    · simp [UnpackedFloat.compare, heq']

theorem at_one : At onePlace (1.0 : Float).toModel.unpack := by
  rw [one_eq_pack]
  exact at_unpack_pack ⟨by decide, rfl⟩ ⟨by decide, by decide, by decide, by decide⟩

theorem div_zero {m : Nat} {e : Int} (h : 0 < m) :
    unpack Format.binary64 (pack Format.binary64
      (div Format.binary64 (.zero .positive) (.finite .positive m e h))) = .zero .positive := by
  have hpack : pack Format.binary64 (.zero .positive)
      = packComponents Format.binary64 .positive (BitVec.ofNat _ 0) (BitVec.ofNat _ 0) := rfl
  show unpack Format.binary64 (pack Format.binary64 (.zero .positive)) = .zero .positive
  rw [hpack, unpack]
  simp only [unpackExponent_packComponents, unpackMantissa_packComponents,
    unpackSign_packComponents]
  rfl

/-- **The quotient of two counts in order is at most one.** -/
theorem toFloat_div_le_one {a b : UInt64} (h : a ≤ b) (hb : b ≠ 0) :
    a.toFloat / b.toFloat ≤ 1.0 := by
  rw [le_iff_compare]
  show ((unpack Format.binary64 (pack Format.binary64
    (div Format.binary64 a.toFloat.toModel.unpack b.toFloat.toModel.unpack))).compare _).any _ = true
  have hb' : b.toNat ≠ 0 := fun h0 => hb (UInt64.toNat_inj.mp h0)
  by_cases ha : a = 0
  · obtain ⟨hpos, hb''⟩ := at_toFloat hb
    have hzero : a.toFloat.toModel.unpack = .zero .positive := by
      rw [ha]
      rfl
    obtain ⟨hone, hone'⟩ := at_one
    rw [hzero, hb'', hone', div_zero]
    rfl
  · have ha' : a.toNat ≠ 0 := fun h0 => ha (UInt64.toNat_inj.mp h0)
    obtain ⟨hlow, -, hmantissa⟩ := countPlace_bounds ha' a.toNat_lt
    obtain ⟨-, hhigh, hmantissa'⟩ := countPlace_bounds hb' b.toNat_lt
    obtain ⟨r, hr, hpacks, hle⟩ := at_div_le (at_toFloat ha) (at_toFloat hb) hmantissa hmantissa'
      (by omega) (countPlace_mono ha' (UInt64.le_iff_toNat_le.mp h))
    exact compare_isLE_of_placeLe (at_unpack_pack hr hpacks) at_one hle

end Binary64

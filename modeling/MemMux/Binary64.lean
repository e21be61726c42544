/-
MemMux/Binary64.lean

Facts about the IEEE `binary64` numbers, over the logical model of `Float` in Lean's core library.

Two things are needed of them elsewhere.  A count that fits 64 bits, divided by itself, is
exactly one (`ofNat_div_self`): its conversion rounds to a normal float, and a finite float
divided by itself is one whatever its mantissa and exponent.  And floats that are not NaN compare
as their places in a linear order do (`compare_eq_of_ne`), the two zeros sharing one.
-/
import Mathlib

namespace Binary64

open Float.Model.UnpackedFloat
open Float.Model (Format UnpackedFloat totalExponent)

/-! ### Rounding -/

/-- A finite float with a full mantissa and an exponent between two bounds. -/
def Normal (lo hi : Int) (u : UnpackedFloat) : Prop :=
  ∃ s m e h, u = .finite s m e h ∧ m.log2 = 52 ∧ lo ≤ e ∧ e ≤ hi

theorem Normal.mono {lo hi lo' hi' : Int} {u : UnpackedFloat} (h : Normal lo hi u)
    (hlo : lo' ≤ lo) (hhi : hi ≤ hi') : Normal lo' hi' u := by
  obtain ⟨s, m, e, hpos, hu, hm, hle, hge⟩ := h
  exact ⟨s, m, e, hpos, hu, hm, hlo.trans hle, hge.trans hhi⟩

theorem mantissa_shiftRight (em : ExtendedMantissa) (k : Nat) :
    (em >>> k).mantissa = em.mantissa / 2 ^ k := by
  show (k.repeat ExtendedMantissa.shiftRightOne em).mantissa = _
  induction k with
  | zero => simp [Nat.repeat]
  | succ k ih =>
      rw [Nat.repeat, ExtendedMantissa.shiftRightOne, ih, Nat.div_div_eq_div_mul, Nat.pow_succ]

theorem mantissa_ofMantissaAndAccuracy (m : Nat) (acc : Accuracy) :
    (ExtendedMantissa.ofMantissaAndAccuracy m acc).mantissa = m := by
  unfold ExtendedMantissa.ofMantissaAndAccuracy
  split <;> rfl

theorem targetExponent_eq {m : Nat} {e : Int} (h : -1074 ≤ e + m.log2 - 52) :
    Format.binary64.targetExponent (totalExponent m e) = e + m.log2 - 52 := by
  simp only [Format.targetExponent, totalExponent, Format.mantissaBits, Format.minExponent]
  omega

/-- A mantissa of at least 53 bits is cut to 53 of them. -/
theorem shiftToTargetExponent_eq {m : Nat} {e : Int} (acc : Accuracy) (hm : 52 ≤ m.log2)
    (he : -1074 ≤ e + m.log2 - 52) :
    (shiftToTargetExponent Format.binary64 m e acc).1.mantissa = m / 2 ^ (m.log2 - 52) ∧
      (shiftToTargetExponent Format.binary64 m e acc).2 = e + m.log2 - 52 := by
  have hshift : (e + m.log2 - 52 - e).toNat = m.log2 - 52 := by omega
  rw [shiftToTargetExponent, targetExponent_eq he, shiftToExponent, hshift]
  refine ⟨?_, by omega⟩
  rw [mantissa_shiftRight, mantissa_ofMantissaAndAccuracy]

theorem log2_cut {m : Nat} (hm : 52 ≤ m.log2) : (m / 2 ^ (m.log2 - 52)).log2 = 52 := by
  have hne : m ≠ 0 := by
    rintro rfl
    simp at hm
  obtain ⟨hle, hlt⟩ := (Nat.log2_eq_iff hne).mp rfl
  have hpos : 0 < 2 ^ (m.log2 - 52) := Nat.two_pow_pos _
  have hsplit : 2 ^ 52 * 2 ^ (m.log2 - 52) = 2 ^ m.log2 := by
    rw [← Nat.pow_add, Nat.add_sub_cancel' hm]
  have hlow : 2 ^ 52 ≤ m / 2 ^ (m.log2 - 52) := by
    rw [Nat.le_div_iff_mul_le hpos, hsplit]
    exact hle
  have hhigh : m / 2 ^ (m.log2 - 52) < 2 ^ 53 := by
    rw [Nat.div_lt_iff_lt_mul hpos, Nat.pow_succ, Nat.mul_right_comm, hsplit, ← Nat.pow_succ]
    exact hlt
  exact (Nat.log2_eq_iff (by omega)).mpr ⟨hlow, hhigh⟩

/-- Rounding moves a mantissa up by one at most. -/
theorem roundedMantissa_bounds (em : ExtendedMantissa) :
    em.mantissa ≤ em.roundedMantissa ∧ em.roundedMantissa ≤ em.mantissa + 1 := by
  unfold ExtendedMantissa.roundedMantissa Accuracy.roundToNearestEven
  split <;> omega

/-- A float rounded from a mantissa of at least 53 bits is normal. -/
theorem normal_roundWithAccuracy (s : Sign) {m : Nat} {e : Int} (acc : Accuracy)
    (hm : 52 ≤ m.log2) (hlow : -1074 ≤ e + m.log2 - 52) :
    Normal (e + m.log2 - 52) (e + m.log2 - 51) (roundWithAccuracy Format.binary64 s m e acc) := by
  obtain ⟨hm₁, he₁⟩ := shiftToTargetExponent_eq acc hm hlow
  generalize hc : shiftToTargetExponent Format.binary64 m e acc = c at hm₁ he₁
  obtain ⟨em₁, e₁⟩ := c
  have hcut : em₁.mantissa.log2 = 52 := by rw [hm₁]; exact log2_cut hm
  obtain ⟨hge, hle⟩ := roundedMantissa_bounds em₁
  have hbits : em₁.mantissa ≠ 0 := by
    rintro h
    simp [h] at hcut
  obtain ⟨hpow, hlt⟩ := (Nat.log2_eq_iff hbits).mp hcut
  -- the rounded mantissa may need one bit more, which the second shift takes off again
  have hr : em₁.roundedMantissa.log2 = 52 ∨ em₁.roundedMantissa.log2 = 53 := by
    rcases Nat.lt_or_ge em₁.roundedMantissa (2 ^ 53) with h | h
    · exact .inl ((Nat.log2_eq_iff (by omega)).mpr ⟨by omega, h⟩)
    · exact .inr ((Nat.log2_eq_iff (by omega)).mpr ⟨h, by omega⟩)
  simp only at he₁
  have hr52 : 52 ≤ em₁.roundedMantissa.log2 := by omega
  obtain ⟨hm₂, he₂⟩ := @shiftToTargetExponent_eq em₁.roundedMantissa e₁ .exact hr52 (by omega)
  have hfinal : (shiftToTargetExponent Format.binary64 em₁.roundedMantissa e₁ .exact).1.mantissa.log2
      = 52 := by
    rw [hm₂]
    exact log2_cut hr52
  have hne :
      (shiftToTargetExponent Format.binary64 em₁.roundedMantissa e₁ .exact).1.mantissa ≠ 0 := by
    intro h
    simp [h] at hfinal
  refine ⟨s, _, (shiftToTargetExponent Format.binary64 em₁.roundedMantissa e₁ .exact).2,
    Nat.pos_of_ne_zero hne, ?_, hfinal, ?_, ?_⟩
  · rw [roundWithAccuracy, hc]
    simp only [dif_neg hne]
  · omega
  · omega

/-! ### Packing -/

/-- The sign bit stands in front of the exponent. -/
theorem unpackSign_packComponents {spec : Format} (s : Sign) (b : BitVec spec.exponentBits)
    (m : BitVec spec.mantissaBitsWithoutImplicit) :
    unpackSign (packComponents spec s b m) = s.toBitVec := by
  refine BitVec.eq_of_getLsbD_eq fun i hi => ?_
  obtain rfl : i = 0 := Nat.lt_one_iff.mp hi
  have hbeyond : ¬spec.mantissaBitsWithoutImplicit + spec.exponentBits
      < spec.mantissaBitsWithoutImplicit := by omega
  simp [unpackSign, packComponents, BitVec.getLsbD_append, BitVec.getElem_append, hbeyond]

/-- A normal float is packed and unpacked unchanged. -/
theorem unpack_pack_finite (s : Sign) {m : Nat} {e : Int} (hpos : 0 < m) (hm : m.log2 = 52)
    (hlow : -1074 ≤ e) (hhigh : e ≤ 970) :
    unpack Format.binary64 (pack Format.binary64 (.finite s m e hpos)) = .finite s m e hpos := by
  obtain ⟨b, hb⟩ : ∃ b, b = (e + 1023 + 52).toNat := ⟨_, rfl⟩
  -- a normal exponent is neither too large nor a subnormal one
  have hpack : pack Format.binary64 (.finite s m e hpos)
      = packComponents Format.binary64 s (BitVec.ofNat _ b) (BitVec.ofNat _ m) := by
    have hsmall : ¬ 2 ^ 11 ≤ (e + 1023 + 52).toNat + 1 := by omega
    have hfull : m.log2 + 1 = Format.binary64.mantissaBits := by rw [hm]; rfl
    show (if 2 ^ 11 ≤ (e + 1023 + 52).toNat + 1 then _
      else if m.log2 + 1 = Format.binary64.mantissaBits then _ else _) = _
    rw [if_neg hsmall, if_pos hfull, hb]
    rfl
  have hexp : (BitVec.ofNat Format.binary64.exponentBits b).toNat = b := by
    rw [BitVec.toNat_ofNat]
    exact Nat.mod_eq_of_lt (by show b < 2 ^ 11; omega)
  -- nor is it one that stands for an infinity or a zero
  have hne : BitVec.ofNat Format.binary64.exponentBits b ≠ -1#_ := by
    intro h
    have := congrArg BitVec.toNat h
    rw [hexp] at this
    have : b = 2047 := this
    omega
  have hne' : BitVec.ofNat Format.binary64.exponentBits b ≠ 0#_ := by
    intro h
    have := congrArg BitVec.toNat h
    rw [hexp] at this
    have : b = 0 := this
    omega
  -- the leading bit is put back in front of the stored ones
  have hmant : (1#1 ++ BitVec.ofNat Format.binary64.mantissaBitsWithoutImplicit m).toNat = m := by
    obtain ⟨hle, hlt⟩ := (Nat.log2_eq_iff hpos.ne').mp hm
    have hlow52 : m % 2 ^ 52 < 2 ^ 52 := Nat.mod_lt _ (by decide)
    have hor : 1 <<< 52 ||| m % 2 ^ 52 = 2 ^ 52 * 1 + m % 2 ^ 52 :=
      (Nat.two_pow_add_eq_or_of_lt hlow52 1).symm
    rw [BitVec.toNat_append, BitVec.toNat_ofNat]
    show 1 <<< 52 ||| m % 2 ^ 52 = m
    rw [hor]
    omega
  have hsign : Sign.ofBitVec s.toBitVec = s := by cases s <;> rfl
  have hexponent : (b : Int) - (1023 + 52) = e := by omega
  rw [hpack, unpack]
  simp only [unpackExponent_packComponents, if_neg hne, if_neg hne', unpackMantissa_packComponents,
    unpackSign_packComponents, hsign, hmant, hexp]
  congr 1

theorem normal_unpack_pack {lo hi : Int} {u : UnpackedFloat} (h : Normal lo hi u)
    (hlo : -1074 ≤ lo) (hhi : hi ≤ 970) :
    Normal lo hi (unpack Format.binary64 (pack Format.binary64 u)) := by
  obtain ⟨s, m, e, hpos, rfl, hm, hlow, hhigh⟩ := h
  exact ⟨s, m, e, hpos, unpack_pack_finite s hpos hm (hlo.trans hlow) (hhigh.trans hhi), hm, hlow,
    hhigh⟩

/-! ### Division -/

/-- A finite float divided by itself is one, whatever its mantissa and exponent. -/
theorem div_self_finite (s : Sign) (m : Nat) (e : Int) (h : 0 < m) :
    div Format.binary64 (.finite s m e h) (.finite s m e h)
      = .finite .positive (2 ^ 52) (-52) (by decide) := by
  have hcore : divCore Format.binary64 m e m e = (2 ^ 53, -53, .exact) := by
    have hmin : min (e - e) (Format.binary64.targetExponent (totalExponent m e - totalExponent m e))
        = -53 := by
      rw [Int.sub_self, Int.sub_self]
      rfl
    have hsh : (e - e - -53).toNat = 53 := by
      rw [Int.sub_self]
      rfl
    simp only [divCore, hmin, hsh, Nat.shiftLeft_eq, Nat.mul_mod_right, accuracyOfFraction,
      if_true, Nat.mul_div_cancel_left _ h]
  have hsign : s / s = .positive := by cases s <;> rfl
  rw [div, hcore, hsign]
  rfl

/-- One, as it is packed. -/
theorem one_eq_pack : (1.0 : Float)
    = .ofModel (Float.Model.pack (.finite .positive (2 ^ 52) (-52) (by decide))) := by
  decide +kernel

theorem div_self_of_normal {lo hi : Int} {x : Float} (h : Normal lo hi x.toModel.unpack) :
    x / x = 1.0 := by
  obtain ⟨s, m, e, hpos, hx, -⟩ := h
  rw [one_eq_pack]
  show Float.ofModel (Float.Model.pack (div Format.binary64 x.toModel.unpack x.toModel.unpack)) = _
  rw [hx, div_self_finite]

/-! ### Natural numbers -/

theorem log2_shiftLeft {n : Nat} (h : n ≠ 0) (k : Nat) : (n <<< k).log2 = n.log2 + k := by
  obtain ⟨hle, hlt⟩ := (Nat.log2_eq_iff h).mp rfl
  rw [Nat.shiftLeft_eq]
  have hpos : 0 < 2 ^ k := Nat.two_pow_pos k
  refine (Nat.log2_eq_iff (Nat.mul_ne_zero h hpos.ne')).mpr ⟨?_, ?_⟩
  · rw [Nat.pow_add]
    exact Nat.mul_le_mul_right _ hle
  · rw [Nat.add_right_comm, Nat.pow_add]
    exact Nat.mul_lt_mul_of_pos_right hlt hpos

/-- A positive integer of at most 64 digits is rounded to a normal float. -/
theorem normal_round {n : Nat} (hpos : n ≠ 0) (hlog : n.log2 < 64) :
    Normal (-52) 12 (round Format.binary64 .positive n 0) := by
  have htarget : Format.binary64.targetExponent (totalExponent n 0) = n.log2 - 52 := by
    rw [targetExponent_eq (by omega)]
    omega
  rw [Float.Model.UnpackedFloat.round, htarget, decreaseExponent]
  rcases Nat.lt_or_ge n.log2 52 with h | h
  · have hsh : ((0 : Int) - (n.log2 - 52)).toNat = 52 - n.log2 := by omega
    have hl : (n <<< (52 - n.log2)).log2 = 52 := by
      rw [log2_shiftLeft hpos]
      omega
    rw [hsh]
    exact (normal_roundWithAccuracy _ _ (by omega) (by omega)).mono (by omega) (by omega)
  · have hsh : ((0 : Int) - (n.log2 - 52)).toNat = 0 := by omega
    rw [hsh, Nat.shiftLeft_zero]
    exact (normal_roundWithAccuracy _ _ h (by omega)).mono (by omega) (by omega)

theorem normal_toFloat {n : UInt64} (h : n ≠ 0) : Normal (-52) 12 n.toFloat.toModel.unpack := by
  have hn : n.toNat ≠ 0 := fun h0 => h (UInt64.toNat_inj.mp h0)
  have hcmp : compare (n.toNat : Int) 0 = .gt := Int.compare_eq_gt.mpr (by omega)
  have hlog : n.toNat.log2 < 64 := (Nat.log2_lt hn).mpr n.toNat_lt
  refine normal_unpack_pack ?_ (by decide) (by decide)
  show Normal (-52) 12 (normalize Format.binary64 n.toNat 0 .positive)
  rw [Float.Model.UnpackedFloat.normalize, hcmp]
  exact normal_round hn hlog

/-- A normal float times one, as the conversion of a short literal computes it. -/
theorem normal_mul_one {lo hi : Int} {u : UnpackedFloat} (h : Normal lo hi u) (hlo : -1074 ≤ lo) :
    Normal lo (hi + 1) (mul Format.binary64 u (.finite .positive (2 ^ 52) (-52) (by decide))) := by
  obtain ⟨s, m, e, hpos, rfl, hm, hlow, hhigh⟩ := h
  have hl : (m * 2 ^ 52).log2 = 104 := by
    rw [← Nat.shiftLeft_eq, log2_shiftLeft hpos.ne', hm]
  rw [mul]
  exact (normal_roundWithAccuracy _ _ (by omega) (by omega)).mono (by omega) (by omega)

theorem ofScientific_zero {n : Nat} (h : n ≠ 0) :
    ofScientific Format.binary64 n 0
      = roundWithAccuracy Format.binary64 .positive (n <<< 53) (-53) .exact := by
  have hbig : ¬ (0 : Int) > 2 ^ Format.binary64.exponentBits := by decide
  have hsmall : ¬ (0 : Int) < -((2 ^ Format.binary64.exponentBits : Int) + n.log2) := by
    show ¬ (0 : Int) < -(2 ^ 11 + n.log2)
    omega
  rw [ofScientific, dif_neg h, if_neg hbig, if_neg hsmall, if_pos (le_refl _), mul]
  show roundWithAccuracy Format.binary64 .positive (n <<< 53 * 1) (-53 + 0) .exact = _
  rw [Nat.mul_one, Int.add_zero]

theorem normal_ofNat {n : Nat} (hpos : n ≠ 0) (hlt : n < 2 ^ 64) :
    Normal (-52) 13 (Float.ofNat n).toModel.unpack := by
  show Normal (-52) 13 (Float.ofScientific n false 0).toModel.unpack
  rw [Float.ofScientific]
  split
  · next h =>
    have hn : n.toUInt64 ≠ 0 := by
      intro h0
      have h0' := congrArg UInt64.toNat h0
      rw [UInt64.toNat_ofNat_of_lt' hlt] at h0'
      exact hpos h0'
    have hone : (Float.exactlyRepresentablePowersOfTen[0]).toModel.unpack
        = .finite .positive (2 ^ 52) (-52) (by decide) := by
      rfl
    refine normal_unpack_pack ?_ (by decide) (by decide)
    show Normal (-52) 13 (mul Format.binary64 n.toUInt64.toFloat.toModel.unpack
      (Float.exactlyRepresentablePowersOfTen[0]).toModel.unpack)
    rw [hone]
    exact normal_mul_one (normal_toFloat hn) (by decide)
  · next h =>
    have hlog : n.log2 < 64 := (Nat.log2_lt hpos).mpr hlt
    have hsh : (n <<< 53).log2 = n.log2 + 53 := log2_shiftLeft hpos 53
    refine normal_unpack_pack ?_ (by decide) (by decide)
    show Normal (-52) 13 (ofScientific Format.binary64 n 0)
    rw [ofScientific_zero hpos]
    exact (normal_roundWithAccuracy _ _ (by omega) (by omega)).mono (by omega) (by omega)

/-- **A count of at most 64 bits divided by itself is one.** -/
theorem ofNat_div_self {n : Nat} (hpos : n ≠ 0) (hlt : n < 2 ^ 64) :
    Float.ofNat n / Float.ofNat n = 1.0 :=
  div_self_of_normal (normal_ofNat hpos hlt)

/-! ### Comparison -/

/-- The place of a number among the floats: its class, then its exponent and mantissa. -/
def rank : UnpackedFloat → Int ×ₗ Int ×ₗ Int
  | .infinity .negative => toLex (-2, toLex (0, 0))
  | .finite .negative m e _ => toLex (-1, toLex (-e, -(m : Int)))
  | .zero _ => toLex (0, toLex (0, 0))
  | .notANumber => toLex (0, toLex (0, 0))
  | .finite .positive m e _ => toLex (1, toLex (e, (m : Int)))
  | .infinity .positive => toLex (2, toLex (0, 0))

theorem compare_toLex (a b : Int) (x y : Int ×ₗ Int) :
    compare (toLex (a, x)) (toLex (b, y)) = (compare a b).then (compare x y) := by
  rw [Prod.Lex.compare_def]
  rfl

theorem compare_toLex' (a b x y : Int) :
    compare (toLex (a, x)) (toLex (b, y)) = (compare a b).then (compare x y) := by
  rw [Prod.Lex.compare_def]
  rfl

theorem compare_neg (a b : Int) : compare (-a) (-b) = (compare a b).swap := by
  rcases lt_trichotomy a b with h | h | h
  · rw [compare_lt_iff_lt.mpr h, compare_gt_iff_gt.mpr (Int.neg_lt_neg h)]
    rfl
  · rw [compare_eq_iff_eq.mpr h, compare_eq_iff_eq.mpr (congrArg _ h)]
    rfl
  · rw [compare_gt_iff_gt.mpr h, compare_lt_iff_lt.mpr (Int.neg_lt_neg h)]
    rfl

theorem compare_cast (a b : Nat) : compare (a : Int) b = compare a b := by
  rcases lt_trichotomy a b with h | h | h
  · rw [compare_lt_iff_lt.mpr h, compare_lt_iff_lt.mpr (Int.ofNat_lt.mpr h)]
  · rw [compare_eq_iff_eq.mpr h, compare_eq_iff_eq.mpr (congrArg _ h)]
  · rw [compare_gt_iff_gt.mpr h, compare_gt_iff_gt.mpr (Int.ofNat_lt.mpr h)]

/-- Two numbers compare as their places do. -/
theorem compare_eq_of_ne {u v : UnpackedFloat} (hu : u ≠ .notANumber) (hv : v ≠ .notANumber) :
    u.compare v = some (compare (rank u) (rank v)) := by
  rcases u with ⟨_ | _⟩ | _ | _ | ⟨_ | _, m, e, hm⟩ <;>
    rcases v with ⟨_ | _⟩ | _ | _ | ⟨_ | _, n, f, hn⟩ <;>
    first
    | exact absurd rfl hu
    | exact absurd rfl hv
    | (simp only [rank, compare_toLex, compare_toLex']; rfl)
    | skip
  · simp only [rank, compare_toLex, compare_toLex', compare_neg, compare_cast,
      UnpackedFloat.compare, Ordering.swap_then]
    rfl
  · simp only [rank, compare_toLex, compare_toLex', compare_cast, UnpackedFloat.compare]
    rfl

/-- A NaN compares with nothing. -/
theorem ne_of_compare_isSome {u v : UnpackedFloat} (h : (u.compare v).isSome) :
    u ≠ .notANumber ∧ v ≠ .notANumber := by
  refine ⟨?_, ?_⟩
  · rintro rfl
    exact Bool.false_ne_true h
  · rintro rfl
    cases u <;> exact Bool.false_ne_true h

theorem lt_iff_compare {x y : Float} :
    x < y ↔ x.toModel.unpack.compare y.toModel.unpack = some .lt := by
  show decide ((x.toModel.unpack.compare y.toModel.unpack == some .lt) = true) = true ↔ _
  rw [decide_eq_true_iff, beq_iff_eq]

theorem le_iff_compare {x y : Float} :
    x ≤ y ↔ (x.toModel.unpack.compare y.toModel.unpack).any (·.isLE) = true := by
  show decide ((x.toModel.unpack.compare y.toModel.unpack).any (·.isLE) = true) = true ↔ _
  rw [decide_eq_true_iff]

theorem beq_iff_compare {x y : Float} :
    (x == y) = true ↔ x.toModel.unpack.compare y.toModel.unpack = some .eq := by
  show (x.toModel.unpack.compare y.toModel.unpack == some .eq) = true ↔ _
  rw [beq_iff_eq]

end Binary64

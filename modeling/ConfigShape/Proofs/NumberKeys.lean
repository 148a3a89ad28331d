import Mathlib.Algebra.Order.Field.Power
import Mathlib.Algebra.Order.Field.Rat
import Mathlib.Tactic.NormNum
import ConfigShape.Proofs.IndexText

namespace ConfigShape

namespace Double

def magnitude (d : Double) : ℚ := d.significand * 2 ^ d.exponent

def value (d : Double) : ℚ := if d.negative then -d.magnitude else d.magnitude

theorem magnitude_nonneg (d : Double) : 0 ≤ d.magnitude := by
  unfold magnitude
  positivity

theorem pow_toNat (e : Int) : (2 : ℚ) ^ e * 2 ^ (-e).toNat = 2 ^ e.toNat := by
  rw [← zpow_natCast, ← zpow_natCast, ← zpow_add₀ (by norm_num)]
  congr 1
  omega

theorem denominator_pos (d : Double) : 0 < d.denominator := Nat.pow_pos (by omega)

theorem magnitude_mul_denominator (d : Double) : d.magnitude * d.denominator = d.numerator := by
  have hpow := pow_toNat d.exponent
  simp only [magnitude, numerator, denominator, Nat.pow_eq, Nat.cast_mul, Nat.cast_pow,
    Nat.cast_ofNat]
  rw [mul_assoc, hpow]

theorem magnitude_eq_natCast_iff (d : Double) (n : Nat) :
    d.magnitude = n ↔ d.numerator = n * d.denominator := by
  have hden : (d.denominator : ℚ) ≠ 0 := Nat.cast_ne_zero.mpr d.denominator_pos.ne'
  rw [← Nat.cast_inj (R := ℚ), Nat.cast_mul, ← magnitude_mul_denominator]
  exact (mul_left_inj' hden).symm

theorem toInt?_eq_some_iff_numerator (d : Double) (z : Int) :
    d.toInt? = some z ↔
      ∃ n : Nat, d.numerator = n * d.denominator ∧ z = if d.negative then -(n : Int) else n := by
  constructor
  · intro h
    unfold toInt? at h
    split at h
    · rename_i hdvd
      have hn := (Nat.div_mul_cancel (Nat.dvd_of_mod_eq_zero hdvd)).symm
      exact ⟨_, hn, (Option.some.inj h).symm⟩
    · cases h
  · rintro ⟨n, hn, rfl⟩
    rw [toInt?, hn, Nat.mul_mod_left, if_pos rfl, Nat.mul_div_cancel n d.denominator_pos]

theorem abs_value (d : Double) : |d.value| = d.magnitude := by
  unfold value
  split
  · rw [abs_neg, abs_of_nonneg d.magnitude_nonneg]
  · exact abs_of_nonneg d.magnitude_nonneg

theorem value_eq_intCast_iff (d : Double) (z : Int) :
    d.value = z ↔ ∃ n : Nat, d.magnitude = n ∧ z = if d.negative then -(n : Int) else n := by
  constructor
  · intro h
    have hn : d.magnitude = z.natAbs := by rw [← abs_value, h, Nat.cast_natAbs, Int.cast_abs]
    refine ⟨z.natAbs, hn, Int.cast_injective (α := ℚ) ?_⟩
    rw [← h, value, hn]
    split <;> simp
  · rintro ⟨n, hn, rfl⟩
    rw [value, hn]
    split <;> simp

theorem toInt?_eq_some_iff (d : Double) (z : Int) : d.toInt? = some z ↔ d.value = z := by
  rw [toInt?_eq_some_iff_numerator, value_eq_intCast_iff]
  simp only [magnitude_eq_natCast_iff]

end Double

def YamlNumber.value? : YamlNumber → Option ℚ
  | .int i => some i.val
  | .float d => some d.value
  | .infinite _ | .nan => none

def YamlNumber.IsLeastFloat (n : YamlNumber) : Prop :=
  ∃ d : Double, n = .float d ∧ d.value = (-0x8000_0000_0000_0000 : Int)

namespace Raw

theorem keyOfNumber_int_eq_index_iff (i : Integer) (z : Int) :
    keyOfNumber (.int i) = .index z ↔ i.val = z ∧ z < 0x8000_0000_0000_0000 := by
  rw [keyOfNumber]
  split <;> simp <;> omega

theorem keyOfNumber_float_eq_index_iff (d : Double) (z : Int) :
    keyOfNumber (.float d) = .index z ↔ d.value = z ∧ z.natAbs < 0x8000_0000_0000_0000 := by
  rw [keyOfNumber, ← Double.toInt?_eq_some_iff]
  cases d.toInt? with
  | none => simp
  | some i =>
      by_cases hi : i.natAbs < 0x8000_0000_0000_0000
      · simp only [hi, if_true, RawKey.index.injEq, Option.some.injEq]
        constructor
        · rintro rfl
          exact ⟨rfl, hi⟩
        · exact And.left
      · simp only [hi, if_false, reduceCtorEq, Option.some.injEq, false_iff, not_and]
        rintro rfl
        exact hi

/-- The numbers whose value is a signed integer of 64 bits are the index of that value, but the
double of the least one is not. -/
theorem keyOfNumber_eq_index_iff (n : YamlNumber) (z : Int) :
    keyOfNumber n = .index z ↔
      n.value? = some (z : ℚ) ∧ (-0x8000_0000_0000_0000 ≤ z ∧ z < 0x8000_0000_0000_0000) ∧
        ¬ n.IsLeastFloat := by
  cases n with
  | int i =>
      have hlow := i.lower
      have hfloat : ¬ (YamlNumber.int i).IsLeastFloat := by
        rintro ⟨d, hd, -⟩
        cases hd
      rw [keyOfNumber_int_eq_index_iff]
      simp only [YamlNumber.value?, Option.some.injEq, Int.cast_inj, hfloat, not_false_eq_true,
        and_true]
      omega
  | float d =>
      have hfloat : (YamlNumber.float d).IsLeastFloat ↔
          d.value = (-0x8000_0000_0000_0000 : Int) := by
        simp [YamlNumber.IsLeastFloat]
      rw [keyOfNumber_float_eq_index_iff, hfloat, YamlNumber.value?, Option.some.injEq]
      refine and_congr_right fun hz => ?_
      rw [hz, Int.cast_inj]
      omega
  | infinite negative => simp [keyOfNumber, YamlNumber.value?]
  | nan => simp [keyOfNumber, YamlNumber.value?]

theorem keyOfNumber_eq_name_or (n : YamlNumber) :
    keyOfNumber n = .name n.text ∨ ∃ z, keyOfNumber n = .index z := by
  cases n with
  | int i =>
      rw [keyOfNumber]
      split
      · exact Or.inr ⟨_, rfl⟩
      · exact Or.inl rfl
  | float d =>
      rw [keyOfNumber]
      split
      · split
        · exact Or.inr ⟨_, rfl⟩
        · exact Or.inl rfl
      · exact Or.inl rfl
  | infinite negative => exact Or.inl rfl
  | nan => exact Or.inl rfl

/-- A number is the index of its exact value, if that is a signed integer of 64 bits, and otherwise
a name, its text. So it collides with the string that spells that integer. All this is so but for
the double of the least integer, which is a name. -/
theorem number_keys_by_value (n : YamlNumber) :
    (∀ z : Int, keyOfNumber n = .index z ↔
      n.value? = some (z : ℚ) ∧ (-0x8000_0000_0000_0000 ≤ z ∧ z < 0x8000_0000_0000_0000) ∧
        ¬ n.IsLeastFloat) ∧
    (keyOfNumber n = .name n.text ↔
      ∀ z : Int, n.value? = some (z : ℚ) →
        (-0x8000_0000_0000_0000 ≤ z ∧ z < 0x8000_0000_0000_0000) → n.IsLeastFloat) ∧
    (∀ (path : String) (z : Int), n.value? = some (z : ℚ) →
      (-0x8000_0000_0000_0000 ≤ z ∧ z < 0x8000_0000_0000_0000) →
      (keyOfYaml path (.number n) = keyOfYaml path (.string (toString z)) ↔
        ¬ n.IsLeastFloat)) := by
  have hindex := keyOfNumber_eq_index_iff n
  refine ⟨hindex, ?_, fun path z hz hrange => ?_⟩
  · constructor
    · intro hname z hz hrange
      by_contra hleast
      rw [(hindex z).mpr ⟨hz, hrange, hleast⟩] at hname
      cases hname
    · intro h
      refine (keyOfNumber_eq_name_or n).resolve_right ?_
      rintro ⟨z, hkey⟩
      obtain ⟨hz, hrange, hleast⟩ := (hindex z).mp hkey
      exact hleast (h z hz hrange)
  · rw [keyOfYaml, keyOfYaml, RawKey.ofName_toString z hrange, Except.ok.injEq, hindex]
    exact ⟨fun h => h.2.2, fun h => ⟨hz, hrange, h⟩⟩

theorem number_keys_by_value_greatest :
    keyOfYaml "$" (.number (.float ⟨false, 1086 * Double.binade - 1, by decide⟩)) =
      keyOfYaml "$" (.string "9223372036854774784") := by
  have hvalue : (YamlNumber.float ⟨false, 1086 * Double.binade - 1, by decide⟩).value? =
      some ((9223372036854774784 : Int) : ℚ) :=
    congrArg some ((Double.toInt?_eq_some_iff _ _).mp (by decide))
  have hleast : ¬ (YamlNumber.float ⟨false, 1086 * Double.binade - 1, by decide⟩).IsLeastFloat := by
    rintro ⟨d, hd, hneg⟩
    cases hd
    rw [← Double.toInt?_eq_some_iff] at hneg
    revert hneg
    decide
  exact ((number_keys_by_value _).2.2 "$" 9223372036854774784 hvalue (by decide)).mpr hleast

/-- The double of the least signed integer is not the key that the integer is. -/
theorem not_all_whole_numbers_indices :
    ¬ ∀ (n : YamlNumber) (z : Int), n.value? = some (z : ℚ) →
      (-0x8000_0000_0000_0000 ≤ z ∧ z < 0x8000_0000_0000_0000) → keyOfNumber n = .index z := by
  intro h
  have hvalue : (⟨true, 1086 * Double.binade, by decide⟩ : Double).value =
      (-0x8000_0000_0000_0000 : Int) := (Double.toInt?_eq_some_iff _ _).mp (by decide)
  have hkey := h (.float ⟨true, 1086 * Double.binade, by decide⟩) _ (congrArg some hvalue) (by decide)
  rw [keyOfNumber_float_eq_index_iff] at hkey
  exact absurd hkey.2 (by decide)

end Raw

end ConfigShape

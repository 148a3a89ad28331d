import ConfigShape.Raw.Yaml

namespace ConfigShape

namespace RawKey

def digitsAfter (n : Nat) (ds : List Char) : Nat := ds.foldl (fun n c => n * 10 + (c.toNat - 48)) n

theorem isAsciiDigit_eq_isDigit (c : Char) : isAsciiDigit c = c.isDigit := by
  simp [isAsciiDigit, Char.isDigit, Char.le_def]

theorem digits?_eq_some_iff (cs : List Char) (n : Nat) :
    digits? cs = some n ↔ cs ≠ [] ∧ (∀ c ∈ cs, c.isDigit = true) ∧ digitsAfter 0 cs = n := by
  cases cs with
  | nil => simp [digits?]
  | cons c cs => simp [digits?, digitsAfter, isAsciiDigit_eq_isDigit]

theorem digitsAfter_toDigits (n : Nat) : digitsAfter 0 (Nat.toDigits 10 n) = n := by
  have h := Nat.ofDigitChars_ten_toDigits (n := n)
  simp only [Nat.ofDigitChars_eq_foldl, Nat.mul_comm 10] at h
  exact h

theorem digit_bounds {c : Char} (h : c.isDigit = true) : 48 ≤ c.toNat ∧ c.toNat ≤ 57 :=
  Char.isDigit_iff_toNat.mp h

theorem digitChar_of_isDigit {c : Char} (h : c.isDigit = true) :
    (c.toNat - 48).digitChar = c := by
  have hb := digit_bounds h
  apply Char.toNat_inj.mp
  rw [Nat.toNat_digitChar_of_lt_ten (by omega)]
  omega

theorem toDigits_append_digits (n : Nat) (hn : 0 < n) (ds : List Char)
    (hd : ∀ c ∈ ds, c.isDigit = true) :
    Nat.toDigits 10 n ++ ds = Nat.toDigits 10 (digitsAfter n ds) := by
  induction ds generalizing n with
  | nil => simp [digitsAfter]
  | cons d ds ih =>
      have hdig : d.isDigit = true := hd d (by simp)
      have hb := digit_bounds hdig
      have he : Nat.toDigits 10 (n * 10 + (d.toNat - 48)) = Nat.toDigits 10 n ++ [d] := by
        have hlt : d.toNat - 48 < 10 := by omega
        rw [Nat.mul_comm, ← Nat.toDigits_append_toDigits (by omega) hn hlt,
          Nat.toDigits_of_lt_base hlt, digitChar_of_isDigit hdig]
      have hs := ih (n * 10 + (d.toNat - 48)) (by omega) (fun c hc => hd c (by simp [hc]))
      rw [he, List.append_assoc] at hs
      exact hs

/-- Digits without a zero in front are the decimal text of their value. -/
theorem toDigits_of_digits? {c : Char} {cs : List Char} {n : Nat} (hz : c ≠ '0')
    (h : digits? (c :: cs) = some n) : Nat.toDigits 10 n = c :: cs := by
  obtain ⟨-, hd, hv⟩ := (digits?_eq_some_iff _ n).mp h
  have hdig : c.isDigit = true := hd c (by simp)
  have hb := digit_bounds hdig
  have hpos : 0 < c.toNat - 48 := by
    have hne : c.toNat ≠ 48 := fun he => hz (Char.toNat_inj.mp he)
    omega
  have hs := toDigits_append_digits (c.toNat - 48) hpos cs (fun d hd' => hd d (by simp [hd']))
  rw [Nat.toDigits_of_lt_base (by omega), digitChar_of_isDigit hdig] at hs
  have he : digitsAfter (c.toNat - 48) cs = n := by
    simpa only [digitsAfter, List.foldl_cons, Nat.zero_mul, Nat.zero_add] using hv
  rw [← he, ← hs, List.singleton_append]

theorem digits?_toDigits (n : Nat) : digits? (Nat.toDigits 10 n) = some n := by
  rw [digits?_eq_some_iff]
  exact ⟨Nat.toDigits_ne_nil,
    fun c hc => Nat.isDigit_of_mem_toDigits (by omega) (by omega) hc, digitsAfter_toDigits n⟩

theorem toDigits_eq_cons (n : Nat) (hn : 0 < n) :
    ∃ c cs, Nat.toDigits 10 n = c :: cs ∧ c ≠ '0' ∧ c ≠ '-' := by
  induction n using Nat.strongRecOn with
  | _ n ih =>
      by_cases h : n < 10
      · refine ⟨n.digitChar, [], Nat.toDigits_of_lt_base h, ?_, ?_⟩
        · simp only [ne_eq, Nat.digitChar_eq_zero]
          omega
        · exact Nat.digitChar_ne '-' (by decide)
      · obtain ⟨c, cs, he, hz, hm⟩ := ih (n / 10) (by omega) (by omega)
        refine ⟨c, cs ++ [(n % 10).digitChar], ?_, hz, hm⟩
        rw [Nat.toDigits_of_base_le (by omega) (by omega), he, List.cons_append]

theorem toList_toString_natCast (n : Nat) : (toString (n : Int)).toList = Nat.toDigits 10 n := by
  simp [Int.repr_eq_if]

theorem toList_toString_neg (n : Nat) (hn : 0 < n) :
    (toString (-(n : Int))).toList = '-' :: Nat.toDigits 10 n := by
  have h : ¬ (0 : Int) ≤ -(n : Int) := by omega
  rw [Int.toString_eq_repr, Int.repr_eq_if, if_neg h]
  simp

theorem canonicalInt?_cons {c : Char} {cs : List Char} {n : Nat} (hz : c ≠ '0') (hm : c ≠ '-')
    (h : digits? (c :: cs) = some n) : canonicalInt? (c :: cs) = some (n : Int) := by
  unfold canonicalInt?
  split <;> simp_all

theorem canonicalInt?_minus_cons {c : Char} {cs : List Char} {n : Nat} (hz : c ≠ '0')
    (h : digits? (c :: cs) = some n) : canonicalInt? ('-' :: c :: cs) = some (-(n : Int)) := by
  unfold canonicalInt?
  split <;> simp_all

theorem canonicalInt?_toString (i : Int) : canonicalInt? (toString i).toList = some i := by
  obtain ⟨n, rfl | rfl⟩ := Int.eq_nat_or_neg i
  · rw [toList_toString_natCast]
    rcases Nat.eq_zero_or_pos n with rfl | hn
    · rfl
    · obtain ⟨c, cs, he, hz, hm⟩ := toDigits_eq_cons n hn
      rw [he]
      exact canonicalInt?_cons hz hm (he ▸ digits?_toDigits n)
  · rcases Nat.eq_zero_or_pos n with rfl | hn
    · rfl
    · obtain ⟨c, cs, he, hz, hm⟩ := toDigits_eq_cons n hn
      rw [toList_toString_neg n hn, he]
      exact canonicalInt?_minus_cons hz (he ▸ digits?_toDigits n)

theorem toString_of_canonicalInt? {cs : List Char} {i : Int} (h : canonicalInt? cs = some i) :
    (toString i).toList = cs := by
  unfold canonicalInt? at h
  split at h
  · cases h
    rfl
  · cases h
  · cases h
  · rename_i ds hz
    cases ds with
    | nil => simp [digits?] at h
    | cons c cs =>
        have hc : c ≠ '0' := fun he => hz cs (by rw [he])
        cases hn : digits? (c :: cs) with
        | none => simp [hn] at h
        | some n =>
            have hd := toDigits_of_digits? hc hn
            have hpos : 0 < n := by
              rcases Nat.eq_zero_or_pos n with rfl | hp
              · exact absurd (List.cons.inj hd).1.symm hc
              · exact hp
            have hi : -(n : Int) = i := by simpa [hn] using h
            rw [← hi, toList_toString_neg n hpos, hd]
  · rename_i hzero _ _
    cases cs with
    | nil => simp [digits?] at h
    | cons c cs =>
        have hc : c ≠ '0' := fun he => hzero cs (by rw [he])
        cases hn : digits? (c :: cs) with
        | none => simp [hn] at h
        | some n =>
            have hi : (n : Int) = i := by simpa [hn] using h
            rw [← hi, toList_toString_natCast, toDigits_of_digits? hc hn]

theorem canonicalInt?_eq_some_iff (cs : List Char) (i : Int) :
    canonicalInt? cs = some i ↔ cs = (toString i).toList := by
  constructor
  · intro h
    exact (toString_of_canonicalInt? h).symm
  · rintro rfl
    exact canonicalInt?_toString i

/-- The decimal text of a signed integer of 64 bits: no plus sign, no needless zeros. -/
def IsIndexText (s : String) : Prop :=
  ∃ i : Int, (-0x8000_0000_0000_0000 ≤ i ∧ i < 0x8000_0000_0000_0000) ∧ s = toString i

theorem isIndexText_iff (s : String) : IsIndexText s ↔
    ∃ i : Int, (-0x8000_0000_0000_0000 ≤ i ∧ i < 0x8000_0000_0000_0000) ∧
      canonicalInt? s.toList = some i := by
  simp only [IsIndexText, canonicalInt?_eq_some_iff, String.toList_inj]

theorem not_isIndexText_empty : ¬ IsIndexText "" := by
  rw [isIndexText_iff]
  rintro ⟨i, -, hi⟩
  cases hi

theorem ofName_toString (i : Int) (hi : -0x8000_0000_0000_0000 ≤ i ∧ i < 0x8000_0000_0000_0000) :
    ofName (toString i) = .index i := by
  simp only [ofName, canonicalInt?_toString, if_pos hi]

theorem ofName_eq_index_iff (s : String) (i : Int) :
    ofName s = .index i ↔
      (-0x8000_0000_0000_0000 ≤ i ∧ i < 0x8000_0000_0000_0000) ∧ s = toString i := by
  constructor
  · intro h
    unfold ofName at h
    split at h
    · rename_i hj
      split at h
      · rename_i hr
        cases h
        exact ⟨hr, String.toList_inj.mp ((canonicalInt?_eq_some_iff _ i).mp hj)⟩
      · cases h
    · cases h
  · rintro ⟨hi, rfl⟩
    exact ofName_toString i hi

theorem text_ofName (s : String) : (ofName s).text = s := by
  cases hk : ofName s with
  | index i => exact ((ofName_eq_index_iff s i).mp hk).2.symm
  | name t =>
      unfold ofName at hk
      split at hk
      · split at hk <;> cases hk
        rfl
      · cases hk
        rfl

theorem ofName_eq_name_iff (s t : String) : ofName s = .name t ↔ t = s ∧ ¬ IsIndexText s := by
  constructor
  · intro h
    refine ⟨by rw [← text_ofName s, h]; rfl, ?_⟩
    rintro ⟨i, hi⟩
    rw [(ofName_eq_index_iff s i).mpr hi] at h
    cases h
  · rintro ⟨rfl, hs⟩
    cases hk : ofName t with
    | index i => exact absurd ⟨i, (ofName_eq_index_iff t i).mp hk⟩ hs
    | name u => rw [← text_ofName t, hk]; rfl

theorem mem_toString {i : Int} {c : Char} (h : c ∈ (toString i).toList) :
    c = '-' ∨ c.isDigit = true := by
  obtain ⟨n, rfl | rfl⟩ := Int.eq_nat_or_neg i
  · rw [toList_toString_natCast] at h
    exact Or.inr (Nat.isDigit_of_mem_toDigits (by omega) (by omega) h)
  · rcases Nat.eq_zero_or_pos n with rfl | hn
    · rw [show (toString (-((0 : Nat) : Int))).toList = ['0'] from rfl, List.mem_singleton] at h
      exact Or.inr (by rw [h]; rfl)
    · rw [toList_toString_neg n hn, List.mem_cons] at h
      rcases h with h | h
      · exact Or.inl h
      · exact Or.inr (Nat.isDigit_of_mem_toDigits (by omega) (by omega) h)

theorem not_isIndexText_of_mem {s : String} {c : Char} (h : c ∈ s.toList) (hm : c ≠ '-')
    (hd : c.isDigit = false) : ¬ IsIndexText s := by
  rintro ⟨i, -, rfl⟩
  rcases mem_toString h with rfl | hc
  · exact hm rfl
  · rw [hd] at hc
    cases hc

theorem not_isIndexText_of_zero {s : String} {c : Char} {cs : List Char}
    (h : s.toList = '0' :: c :: cs) : ¬ IsIndexText s := by
  rw [isIndexText_iff, h]
  rintro ⟨i, -, hi⟩
  cases hi

theorem not_isIndexText_of_minus_zero {s : String} {cs : List Char}
    (h : s.toList = '-' :: '0' :: cs) : ¬ IsIndexText s := by
  rw [isIndexText_iff, h]
  rintro ⟨i, -, hi⟩
  cases hi

theorem isIndexText_toString_iff (i : Int) : IsIndexText (toString i) ↔
    -0x8000_0000_0000_0000 ≤ i ∧ i < 0x8000_0000_0000_0000 := by
  simp only [isIndexText_iff, canonicalInt?_toString, Option.some.injEq, exists_eq_right']

/-- A key is written as the name that it was read from, so that no two names are one key. The text
of every signed integer of 64 bits is read as that integer, and any other text is a name: one with
a character that integers are not written with, one with a needless zero in front, and that of an
integer out of range. -/
theorem ofName_inverts_text :
    (∀ s, (ofName s).text = s) ∧ Function.Injective ofName ∧
    (∀ i : Int, -0x8000_0000_0000_0000 ≤ i ∧ i < 0x8000_0000_0000_0000 →
      ofName (RawKey.index i).text = .index i) ∧
    (∀ s, ofName s = .name s ↔ ∀ i : Int, -0x8000_0000_0000_0000 ≤ i ∧
      i < 0x8000_0000_0000_0000 → s ≠ toString i) ∧
    (∀ s, ∀ c ∈ s.toList, c ≠ '-' ∧ c.isDigit = false → ofName s = .name s) ∧
    (∀ s c cs, s.toList = '0' :: c :: cs → ofName s = .name s) ∧
    (∀ s cs, s.toList = '-' :: '0' :: cs → ofName s = .name s) ∧
    (∀ i : Int, i < -0x8000_0000_0000_0000 ∨ 0x8000_0000_0000_0000 ≤ i →
      ofName (toString i) = .name (toString i)) := by
  have hname {s : String} (h : ¬ IsIndexText s) : ofName s = .name s :=
    (ofName_eq_name_iff s s).mpr ⟨rfl, h⟩
  refine ⟨text_ofName, Function.LeftInverse.injective text_ofName, ofName_toString,
    fun s => ?_, fun s c hc h => hname (not_isIndexText_of_mem hc h.1 h.2),
    fun s c cs h => hname (not_isIndexText_of_zero h),
    fun s cs h => hname (not_isIndexText_of_minus_zero h), fun i hi => hname ?_⟩
  · rw [ofName_eq_name_iff, and_iff_right rfl, IsIndexText]
    exact ⟨fun h i hi he => h ⟨i, hi, he⟩, fun h ⟨i, hi, he⟩ => h i hi he⟩
  · rw [isIndexText_toString_iff]
    omega

theorem ofName_inverts_text_limits :
    ofName "-9223372036854775808" = .index (-0x8000_0000_0000_0000) ∧
    ofName "9223372036854775807" = .index 0x7FFF_FFFF_FFFF_FFFF ∧
    ofName "-9223372036854775809" = .name "-9223372036854775809" ∧
    ofName "9223372036854775808" = .name "9223372036854775808" ∧
    ofName "007" = .name "007" ∧ ofName "-0" = .name "-0" ∧ ofName "+1" = .name "+1" ∧
    ofName "1\n" = .name "1\n" ∧ ofName "٣" = .name "٣" := by
  obtain ⟨-, -, hindex, -, hforeign, hzero, hminus, hrange⟩ := ofName_inverts_text
  have hleast : (RawKey.index (-0x8000_0000_0000_0000)).text = "-9223372036854775808" := by rfl
  have hbelow : toString (-0x8000_0000_0000_0001 : Int) = "-9223372036854775809" := by rfl
  refine ⟨hleast ▸ hindex _ (by omega), hindex 0x7FFF_FFFF_FFFF_FFFF (by omega),
    hbelow ▸ hrange _ (by omega), hrange 0x8000_0000_0000_0000 (by omega), hzero _ _ ['7'] rfl,
    hminus _ [] rfl, hforeign _ '+' ?_ ?_, hforeign _ '\n' ?_ ?_, hforeign _ '٣' ?_ ?_⟩
  all_goals decide

end RawKey

/-- Every number with a fraction part or an exponent shows it by a point or by the letter. -/
theorem Decimal.write_mark (layout : Decimal.Layout) (x : Decimal) :
    '.' ∈ Decimal.write layout x ∨ 'e' ∈ Decimal.write layout x := by
  unfold Decimal.write
  split
  · simp
  · dsimp only
    split
    · left
      unfold Decimal.positional
      split <;> simp
    · right
      simp [Decimal.scientific]

theorem Double.text_mark (layout : Decimal.Layout) (d : Double) :
    '.' ∈ (d.text layout).toList ∨ 'e' ∈ (d.text layout).toList := by
  rcases Decimal.write_mark layout (Decimal.shortest d) with h | h <;>
    cases hn : d.negative <;> simp [Double.text, hn, h]

namespace RawKey

theorem not_isIndexText_double (layout : Decimal.Layout) (d : Double) :
    ¬ IsIndexText (d.text layout) := by
  rcases Double.text_mark layout d with h | h
  · exact not_isIndexText_of_mem h (by decide) (by decide)
  · exact not_isIndexText_of_mem h (by decide) (by decide)

theorem not_isIndexText_integer (i : Integer) (hi : 0x8000_0000_0000_0000 ≤ i.val) :
    ¬ IsIndexText i.text := by
  rintro ⟨j, hj, he⟩
  have hji : j = i.val := by
    have hs : canonicalInt? (toString i.val).toList = some j :=
      (canonicalInt?_eq_some_iff _ j).mpr (congrArg String.toList he)
    rw [canonicalInt?_toString] at hs
    exact (Option.some.inj hs).symm
  omega

theorem keyOfNumber_name {n : YamlNumber} {s : String} (h : Raw.keyOfNumber n = .name s) :
    ¬ IsIndexText s := by
  cases n with
  | int i =>
      simp only [Raw.keyOfNumber] at h
      split at h
      · cases h
      · cases h
        exact not_isIndexText_integer i (by omega)
  | float d =>
      simp only [Raw.keyOfNumber] at h
      split at h
      · split at h
        · cases h
        · cases h
          exact not_isIndexText_double _ d
      · cases h
        exact not_isIndexText_double _ d
  | infinite negative =>
      cases h
      cases negative
      · exact not_isIndexText_of_mem (c := '.') (by decide) (by decide) (by decide)
      · exact not_isIndexText_of_mem (c := '.') (by decide) (by decide) (by decide)
  | nan =>
      cases h
      exact not_isIndexText_of_mem (c := '.') (by decide) (by decide) (by decide)

end RawKey

end ConfigShape

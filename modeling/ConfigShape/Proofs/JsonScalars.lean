import ConfigShape.Json.Printer
import ConfigShape.Json.Reader
import ConfigShape.Proofs.IndexText

namespace ConfigShape

namespace Utf8

def ofChars (cs : List Char) : List UInt8 := cs.flatMap String.utf8EncodeChar

theorem encode_ofList (cs : List Char) : encode (String.ofList cs) = ofChars cs := by
  simp [encode, ofChars, List.utf8Encode]

theorem encode_eq_ofChars (s : String) : encode s = ofChars s.toList := by
  rw [← encode_ofList, String.ofList_toList]

@[simp] theorem ofChars_nil : ofChars [] = [] := rfl

theorem ofChars_cons (c : Char) (cs : List Char) :
    ofChars (c :: cs) = String.utf8EncodeChar c ++ ofChars cs := List.flatMap_cons

theorem ofChars_append (cs ds : List Char) : ofChars (cs ++ ds) = ofChars cs ++ ofChars ds :=
  List.flatMap_append

theorem utf8EncodeChar_of_lt {c : Char} (h : c.toNat < 128) :
    String.utf8EncodeChar c = [UInt8.ofNat c.toNat] := by
  have hv : c.val.toNat ≤ 127 := Nat.le_of_lt_succ h
  simp only [String.utf8EncodeChar, hv, if_true]
  rfl

theorem le_of_mem_utf8EncodeChar {c : Char} (h : 128 ≤ c.toNat) {b : UInt8}
    (hb : b ∈ String.utf8EncodeChar c) : 128 ≤ b.toNat := by
  have hv : ¬ c.val.toNat ≤ 127 := Nat.not_le.mpr h
  simp only [String.utf8EncodeChar, hv, if_false] at hb
  split at hb
  · simp only [List.mem_cons, List.not_mem_nil, or_false] at hb
    rcases hb with rfl | rfl <;> simp only [UInt8.toNat_ofNat'] <;> omega
  · split at hb
    · simp only [List.mem_cons, List.not_mem_nil, or_false] at hb
      rcases hb with rfl | rfl | rfl <;> simp only [UInt8.toNat_ofNat'] <;> omega
    · simp only [List.mem_cons, List.not_mem_nil, or_false] at hb
      rcases hb with rfl | rfl | rfl | rfl <;> simp only [UInt8.toNat_ofNat'] <;> omega

end Utf8

namespace Json

open Utf8

/-- The bytes up to the closing quote are read as `bytes`, with `rest` left, when there is fuel for
every byte. -/
def ReadsString (s bytes rest : List UInt8) : Prop :=
  ∀ fuel, s.length ≤ fuel → stringBytes fuel s = .ok (bytes, rest)

theorem readsString_quote (rest : List UInt8) : ReadsString (34 :: rest) [] rest := by
  intro fuel h
  cases fuel with
  | zero => cases h
  | succ fuel => rw [stringBytes, if_pos rfl]

theorem ReadsString.cons {s bytes rest : List UInt8} (h : ReadsString s bytes rest) {b : UInt8}
    (hquote : b ≠ 34) (hslash : b ≠ 92) (hlow : ¬ b < 32) :
    ReadsString (b :: s) (b :: bytes) rest := by
  intro fuel hfuel
  cases fuel with
  | zero => cases hfuel
  | succ fuel =>
      have hs := h fuel (Nat.le_of_succ_le_succ hfuel)
      rw [stringBytes, if_neg hquote, if_neg hslash, if_neg hlow, hs]
      rfl

theorem ReadsString.append {s bytes rest : List UInt8} (h : ReadsString s bytes rest)
    {bs : List UInt8} (hbs : ∀ b ∈ bs, b ≠ 34 ∧ b ≠ 92 ∧ ¬ b < 32) :
    ReadsString (bs ++ s) (bs ++ bytes) rest := by
  induction bs with
  | nil => exact h
  | cons b bs ih =>
      rw [List.forall_mem_cons] at hbs
      exact (ih hbs.2).cons hbs.1.1 hbs.1.2.1 hbs.1.2.2

theorem ReadsString.escape {s bytes rest : List UInt8} (h : ReadsString s bytes rest)
    {t made : List UInt8} (ht : escape t = .ok (made, s)) (hlen : s.length ≤ t.length) :
    ReadsString (92 :: t) (made ++ bytes) rest := by
  intro fuel hfuel
  cases fuel with
  | zero => cases hfuel
  | succ fuel =>
      have hs : s.length ≤ fuel := Nat.le_trans hlen (Nat.le_of_succ_le_succ hfuel)
      rw [stringBytes, if_neg (by decide), if_pos rfl, ht]
      simp only [bind, Except.bind, h fuel hs]

theorem hexDigit?_hexChar {d : Nat} (h : d < 16) :
    hexDigit? (UInt8.ofNat (hexChar d).toNat) = some d := by
  revert h
  revert d
  decide

theorem hexChar_lt {d : Nat} (h : d < 16) : (hexChar d).toNat < 128 := by
  revert h
  revert d
  decide

theorem escape_control {n : Nat} (h : n < 32) (s : List UInt8) :
    escape (117 :: 48 :: 48 :: UInt8.ofNat (hexChar (n / 16)).toNat ::
      UInt8.ofNat (hexChar (n % 16)).toNat :: s) = .ok (bytesOfCode n, s) := by
  have hzero : hexDigit? 48 = some 0 := by decide
  have hhigh := hexDigit?_hexChar (d := n / 16) (by omega)
  have hlow := hexDigit?_hexChar (d := n % 16) (by omega)
  have hvalue : ((0 * 16 + 0) * 16 + n / 16) * 16 + n % 16 = n := by omega
  have hquad : hexQuad (48 :: 48 :: UInt8.ofNat (hexChar (n / 16)).toNat ::
      UInt8.ofNat (hexChar (n % 16)).toNat :: s) = .ok (n, s) := by
    simp only [hexQuad, hzero, hhigh, hlow, hvalue]
  have hword : escape (117 :: 48 :: 48 :: UInt8.ofNat (hexChar (n / 16)).toNat ::
      UInt8.ofNat (hexChar (n % 16)).toNat :: s) = unicodeEscape (48 :: 48 ::
      UInt8.ofNat (hexChar (n / 16)).toNat :: UInt8.ofNat (hexChar (n % 16)).toNat :: s) := rfl
  have hsurrogate : ¬ (0xDC00 ≤ n ∧ n ≤ 0xDFFF) := by omega
  have hfirst : ¬ (0xD800 ≤ n ∧ n ≤ 0xDBFF) := by omega
  rw [hword, unicodeEscape, hquad]
  simp [bind, Except.bind, hsurrogate, hfirst]

theorem plain_of_mem_utf8EncodeChar {c : Char} (hquote : c ≠ '"') (hslash : c ≠ '\\')
    (hlow : ¬ c.toNat < 32) : ∀ b ∈ String.utf8EncodeChar c, b ≠ 34 ∧ b ≠ 92 ∧ ¬ b < 32 := by
  intro b hb
  have hcode : b.toNat ≠ 34 ∧ b.toNat ≠ 92 ∧ ¬ b.toNat < 32 := by
    by_cases hc : c.toNat < 128
    · have hb : b = UInt8.ofNat c.toNat := by
        rwa [utf8EncodeChar_of_lt hc, List.mem_singleton] at hb
      have hvalue : b.toNat = c.toNat := by
        rw [hb, UInt8.toNat_ofNat']
        omega
      rw [hvalue]
      exact ⟨fun h => hquote (Char.toNat_inj.mp h), fun h => hslash (Char.toNat_inj.mp h), hlow⟩
    · have := le_of_mem_utf8EncodeChar (Nat.le_of_not_lt hc) hb
      omega
  refine ⟨?_, ?_, ?_⟩
  · rintro rfl
    exact hcode.1 rfl
  · rintro rfl
    exact hcode.2.1 rfl
  · intro h
    exact hcode.2.2 (UInt8.lt_iff_toNat_lt.mp h)

def named : List Char := ['"', '\\', '\x08', '\x0c', '\n', '\r', '\t']

theorem escaped_of_not_mem_named {c : Char} (h : c ∉ named) :
    escaped c = if c.toNat < 32 then
      ['\\', 'u', '0', '0', hexChar (c.toNat / 16), hexChar (c.toNat % 16)] else [c] := by
  simp only [named, List.mem_cons, List.not_mem_nil, or_false, not_or] at h
  simp only [escaped, h, if_false]

theorem ReadsString.namedChar {s bytes rest : List UInt8} (h : ReadsString s bytes rest) {c : Char}
    (hc : c ∈ named) :
    ReadsString (ofChars (escaped c) ++ s) (String.utf8EncodeChar c ++ bytes) rest := by
  have hletter : ∃ letter, ofChars (escaped c) ++ s = 92 :: letter :: s ∧
      Json.escape (letter :: s) = .ok (String.utf8EncodeChar c, s) := by
    simp only [named, List.mem_cons, List.not_mem_nil, or_false] at hc
    rcases hc with rfl | rfl | rfl | rfl | rfl | rfl | rfl <;> exact ⟨_, rfl, rfl⟩
  obtain ⟨letter, hbytes, hescape⟩ := hletter
  rw [hbytes]
  exact h.escape hescape (Nat.le_succ _)

theorem ReadsString.controlChar {s bytes rest : List UInt8} (h : ReadsString s bytes rest)
    {c : Char} (hc : c.toNat < 32) :
    ReadsString (ofChars ['\\', 'u', '0', '0', hexChar (c.toNat / 16), hexChar (c.toNat % 16)] ++ s)
      (String.utf8EncodeChar c ++ bytes) rest := by
  have hhigh := utf8EncodeChar_of_lt (hexChar_lt (d := c.toNat / 16) (by omega))
  have hlow := utf8EncodeChar_of_lt (hexChar_lt (d := c.toNat % 16) (by omega))
  have hbytes : ofChars ['\\', 'u', '0', '0', hexChar (c.toNat / 16), hexChar (c.toNat % 16)] ++ s =
      92 :: 117 :: 48 :: 48 :: UInt8.ofNat (hexChar (c.toNat / 16)).toNat ::
        UInt8.ofNat (hexChar (c.toNat % 16)).toNat :: s := by
    simp only [ofChars_cons, hhigh, hlow]
    rfl
  have hcode : bytesOfCode c.toNat = String.utf8EncodeChar c := by
    rw [bytesOfCode, Char.ofNat_toNat]
  rw [hbytes, ← hcode]
  exact h.escape (escape_control hc s) (by simp only [List.length_cons]; omega)

/-- A character of a string is read as its own bytes, however it is written. -/
theorem ReadsString.char {s bytes rest : List UInt8} (h : ReadsString s bytes rest) (c : Char) :
    ReadsString (ofChars (escaped c) ++ s) (String.utf8EncodeChar c ++ bytes) rest := by
  by_cases hnamed : c ∈ named
  · exact h.namedChar hnamed
  rw [escaped_of_not_mem_named hnamed]
  split
  · rename_i hlow
    exact h.controlChar hlow
  · rename_i hlow
    have hquote : c ≠ '"' := fun he => hnamed (he ▸ List.mem_cons_self)
    have hslash : c ≠ '\\' := fun he => hnamed (he ▸ List.mem_cons_of_mem _ List.mem_cons_self)
    have hbytes : ofChars [c] = String.utf8EncodeChar c := List.append_nil _
    rw [hbytes]
    exact h.append (plain_of_mem_utf8EncodeChar hquote hslash hlow)

theorem readsString_chars (cs : List Char) (rest : List UInt8) :
    ReadsString (ofChars (cs.flatMap escaped ++ ['"']) ++ rest) (ofChars cs) rest := by
  induction cs with
  | nil => exact readsString_quote rest
  | cons c cs ih =>
      rw [List.flatMap_cons, List.append_assoc, ofChars_append, List.append_assoc, ofChars_cons]
      exact ih.char c

def afterQuote (text : String) : List UInt8 := ofChars (text.toList.flatMap escaped ++ ['"'])

theorem ofChars_quote (text : String) : ofChars (quote text) = 34 :: afterQuote text := rfl

theorem quoted_afterQuote (text : String) (rest : List UInt8) :
    quoted (afterQuote text ++ rest) = .ok (text, rest) := by
  have hread := readsString_chars text.toList rest _ (Nat.le_refl _)
  have htext : Utf8.decode? (ofChars text.toList) = some text := by
    rw [← encode_eq_ofChars, decode?_encode]
  rw [quoted, afterQuote, hread]
  simp only [bind, Except.bind, htext]

theorem isDigit_ofNat_toNat {c : Char} (h : c.isDigit = true) :
    isDigit (UInt8.ofNat c.toNat) = true := by
  have hb := RawKey.digit_bounds h
  have hlow : (48 : UInt8).toNat = 48 := rfl
  have hhigh : (57 : UInt8).toNat = 57 := rfl
  simp only [isDigit, Bool.and_eq_true, decide_eq_true_eq, UInt8.le_iff_toNat_le, hlow, hhigh,
    UInt8.toNat_ofNat']
  omega

theorem toNat_ofNat_toNat {c : Char} (h : c.isDigit = true) :
    (UInt8.ofNat c.toNat).toNat = c.toNat := by
  have hb := RawKey.digit_bounds h
  rw [UInt8.toNat_ofNat']
  omega

theorem ofChars_digit_cons {c : Char} (h : c.isDigit = true) (cs : List Char) :
    ofChars (c :: cs) = UInt8.ofNat c.toNat :: ofChars cs := by
  have hb := RawKey.digit_bounds h
  rw [ofChars_cons, utf8EncodeChar_of_lt (by omega), List.singleton_append]

theorem le_digitsAfter (n : Nat) (ds : List Char) : n ≤ RawKey.digitsAfter n ds := by
  induction ds generalizing n with
  | nil => exact Nat.le_refl n
  | cons d ds ih =>
      have hstep := ih (n * 10 + (d.toNat - 48))
      exact Nat.le_trans (by omega) hstep

/-- No number goes on with the next byte. -/
def NumberEnds : List UInt8 → Prop
  | [] => True
  | b :: _ => isDigit b = false ∧ b ≠ 46 ∧ b ≠ 101 ∧ b ≠ 69

theorem digitsWithin_digits {rest : List UInt8} (hrest : NumberEnds rest) (n count : Nat)
    (ds : List Char) (hd : ∀ c ∈ ds, c.isDigit = true)
    (hfit : RawKey.digitsAfter n ds < UInt64.size) :
    digitsWithin n count (ofChars ds ++ rest) =
      (RawKey.digitsAfter n ds, count + ds.length, rest) := by
  induction ds generalizing n count with
  | nil =>
      cases rest with
      | nil => rfl
      | cons b rest => simp [digitsWithin, hrest.1, RawKey.digitsAfter]
  | cons d ds ih =>
      rw [List.forall_mem_cons] at hd
      have hnext : n * 10 + (d.toNat - 48) < UInt64.size :=
        Nat.lt_of_le_of_lt (le_digitsAfter _ ds) hfit
      rw [ofChars_digit_cons hd.1, List.cons_append, digitsWithin, isDigit_ofNat_toNat hd.1,
        toNat_ofNat_toNat hd.1, Bool.true_and, decide_eq_true hnext, if_pos rfl,
        ih (n * 10 + (d.toNat - 48)) (count + 1) hd.2 hfit, List.length_cons]
      simp only [RawKey.digitsAfter, List.foldl_cons, Nat.add_assoc, Nat.add_comm 1]

theorem afterWhole_of_ends {rest : List UInt8} (h : NumberEnds rest) (negative : Bool) (n : Nat) :
    afterWhole negative n rest = .ok (wholeNumber negative n, rest) := by
  cases rest with
  | nil => rfl
  | cons b rest => simp [afterWhole, h.2.1, h.2.2.1, h.2.2.2]

theorem unsignedNumber_toDigits {rest : List UInt8} (hrest : NumberEnds rest) (negative : Bool)
    {n : Nat} (hn : n < UInt64.size) :
    unsignedNumber negative (ofChars (Nat.toDigits 10 n) ++ rest) =
      .ok (wholeNumber negative n, rest) := by
  rcases Nat.eq_zero_or_pos n with rfl | hpos
  · cases rest with
    | nil => rfl
    | cons b rest =>
        change (if isDigit b then stopAhead .invalidNumber (b :: rest)
          else afterWhole negative 0 (b :: rest)) = _
        rw [hrest.1, afterWhole_of_ends hrest]
        rfl
  · obtain ⟨c, cs, he, hzero, -⟩ := RawKey.toDigits_eq_cons n hpos
    have hdigits : ∀ d ∈ c :: cs, d.isDigit = true := fun d hd =>
      Nat.isDigit_of_mem_toDigits (by omega) (by omega) (he ▸ hd)
    rw [List.forall_mem_cons] at hdigits
    have hvalue : RawKey.digitsAfter (c.toNat - 48) cs = n := by
      have h := RawKey.digitsAfter_toDigits n
      rw [he] at h
      simpa [RawKey.digitsAfter] using h
    have hb : UInt8.ofNat c.toNat ≠ 48 := by
      intro hb
      have h := congrArg UInt8.toNat hb
      rw [toNat_ofNat_toNat hdigits.1] at h
      exact hzero (Char.toNat_inj.mp h)
    have hread := digitsWithin_digits hrest (c.toNat - 48) 0 cs hdigits.2 (by rw [hvalue]; exact hn)
    have hdigit := isDigit_ofNat_toNat hdigits.1
    rw [he, ofChars_digit_cons hdigits.1, List.cons_append, unsignedNumber.eq_def]
    split
    · rename_i hnil
      cases hnil
    · rename_i hcons
      exact absurd (List.cons.inj hcons).1 hb
    · rename_i hcons
      obtain ⟨rfl, rfl⟩ := List.cons.inj hcons
      simp only [hdigit, toNat_ofNat_toNat hdigits.1, hread, hvalue, if_true]
      cases rest with
      | nil => rfl
      | cons b rest => simp only [hrest.1, Bool.false_eq_true, if_false, afterWhole_of_ends hrest]

theorem ofInt_val (i : Integer) : Number.ofInt i.val = .int i := by
  rw [Number.ofInt, Integer.ofInt?_val]

theorem wholeNumber_of_val {i : Integer} {n : Nat} (h : i.val = n) :
    wholeNumber false n = .int i := by
  rw [← ofInt_val, h, wholeNumber, if_neg Bool.false_ne_true]

theorem wholeNumber_of_neg_val {i : Integer} {n : Nat} (hn : 0 < n) (h : i.val = -(n : Int)) :
    wholeNumber true n = .int i := by
  rw [← ofInt_val, h, wholeNumber, if_pos rfl, if_neg (Nat.ne_of_gt hn)]

theorem numeral_of_digit {b : UInt8} (hb : isDigit b = true) (s : List UInt8) :
    numeral (b :: s) = unsignedNumber false (b :: s) := by
  unfold numeral
  split
  · rename_i hcons
    rw [(List.cons.inj hcons).1] at hb
    cases hb
  · rfl

/-- An integer is read from the byte it begins with, a sign or a digit. -/
theorem numeral_integer {rest : List UInt8} (hrest : NumberEnds rest) (i : Integer) :
    ∃ b s, ofChars (toString i.val).toList = b :: s ∧ (b = 45 ∨ isDigit b = true) ∧
      numeral (b :: s ++ rest) = .ok (.int i, rest) := by
  have hlower := i.lower
  have hupper := i.upper
  obtain ⟨n, hn⟩ := Int.eq_nat_or_neg i.val
  have hfit : n < UInt64.size := by
    have hsize : UInt64.size = 0x1_0000_0000_0000_0000 := rfl
    omega
  by_cases hneg : 0 < n ∧ i.val = -(n : Int)
  · refine ⟨45, ofChars (Nat.toDigits 10 n), ?_, .inl rfl, ?_⟩
    · rw [hneg.2, RawKey.toList_toString_neg n hneg.1, ofChars_cons,
        utf8EncodeChar_of_lt (by decide)]
      rfl
    · rw [List.cons_append, numeral, unsignedNumber_toDigits hrest true hfit,
        wholeNumber_of_neg_val hneg.1 hneg.2]
  · have hpos : i.val = n := by omega
    have hdigits : ∀ c ∈ Nat.toDigits 10 n, c.isDigit = true := fun c hc =>
      Nat.isDigit_of_mem_toDigits (by omega) (by omega) hc
    have hread := unsignedNumber_toDigits hrest false hfit
    rw [wholeNumber_of_val hpos] at hread
    cases he : Nat.toDigits 10 n with
    | nil => exact absurd he Nat.toDigits_ne_nil
    | cons c cs =>
        rw [he] at hdigits hread
        rw [List.forall_mem_cons] at hdigits
        have hb := isDigit_ofNat_toNat hdigits.1
        rw [ofChars_digit_cons hdigits.1] at hread
        refine ⟨UInt8.ofNat c.toNat, ofChars cs, ?_, .inr hb, ?_⟩
        · rw [hpos, RawKey.toList_toString_natCast, he, ofChars_digit_cons hdigits.1]
        · rw [List.cons_append, numeral_of_digit hb]
          exact hread

end Json

end ConfigShape

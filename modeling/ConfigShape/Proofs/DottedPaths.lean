import ConfigShape.Proofs.ReadBack

namespace ConfigShape

namespace Key

/-- Digits that are an index in a path and a name among keys: zeros stand in front, or the value is
too large for a signed integer of 64 bits. -/
def Disputed (s : String) : Prop :=
  ∃ n, RawKey.digits? s.toList = some n ∧ n < UInt64.size ∧
    (s.toList.head? = some '0' ∧ 1 < s.toList.length ∨ 0x8000_0000_0000_0000 ≤ n)

def Signed (s : String) : Prop :=
  s.toList.head? = some '+' ∧ ∃ n, RawKey.digits? s.toList.tail = some n ∧ n < UInt64.size

instance (s : String) : Decidable (Disputed s) :=
  match hn : RawKey.digits? s.toList with
  | some n => decidable_of_iff (n < UInt64.size ∧
      (s.toList.head? = some '0' ∧ 1 < s.toList.length ∨ 0x8000_0000_0000_0000 ≤ n))
      (by simp [Disputed, hn])
  | none => isFalse (by simp [Disputed, hn])

instance (s : String) : Decidable (Signed s) :=
  match hn : RawKey.digits? s.toList.tail with
  | some n => decidable_of_iff (s.toList.head? = some '+' ∧ n < UInt64.size)
      (by simp [Signed, hn])
  | none => isFalse (by simp [Signed, hn])

def reread (k : Key) : Key := ofSegment k.text.toList

def withoutPlus (cs : List Char) : List Char :=
  match cs with
  | '+' :: rest => rest
  | _ => cs

theorem index?_eq_some_iff (cs : List Char) (i : UInt64) :
    index? cs = some i ↔ RawKey.digits? (withoutPlus cs) = some i.toNat := by
  -- digits and their value are the same here and among keys
  change (if !(withoutPlus cs).isEmpty && (withoutPlus cs).all RawKey.isAsciiDigit &&
    RawKey.digitsAfter 0 (withoutPlus cs) < UInt64.size then
      some (UInt64.ofNat (RawKey.digitsAfter 0 (withoutPlus cs))) else none) = some i ↔ _
  generalize withoutPlus cs = ds
  have hlt : i.toNat < UInt64.size := i.toNat_lt_size
  simp only [RawKey.digits?_eq_some_iff, Option.ite_none_right_eq_some, Bool.and_eq_true,
    Bool.not_eq_true', List.isEmpty_eq_false_iff, List.all_eq_true, decide_eq_true_eq,
    RawKey.isAsciiDigit_eq_isDigit, Option.some.injEq]
  constructor
  · rintro ⟨⟨⟨hne, hdigits⟩, hsize⟩, rfl⟩
    exact ⟨hne, hdigits, (UInt64.toNat_ofNat_of_lt' hsize).symm⟩
  · rintro ⟨hne, hdigits, hvalue⟩
    exact ⟨⟨⟨hne, hdigits⟩, hvalue ▸ hlt⟩, by rw [hvalue, UInt64.ofNat_toNat]⟩

theorem withoutPlus_of_digits? {cs : List Char} {n : Nat} (h : RawKey.digits? cs = some n) :
    withoutPlus cs = cs := by
  obtain ⟨-, hdigits, -⟩ := (RawKey.digits?_eq_some_iff cs n).mp h
  unfold withoutPlus
  split
  · exact absurd (hdigits '+' List.mem_cons_self) (by decide)
  · rfl

theorem index?_of_digits? {cs : List Char} {i : UInt64} (h : RawKey.digits? cs = some i.toNat) :
    index? cs = some i := by
  rw [index?_eq_some_iff, withoutPlus_of_digits? h, h]

/-- The text of an unsigned integer of 64 bits, where a plus sign and zeros may stand in front. -/
def Numeric (s : String) : Prop :=
  ∃ ds, (s.toList = ds ∨ s.toList = '+' :: ds) ∧ ds ≠ [] ∧ (∀ c ∈ ds, c.isDigit = true) ∧
    Nat.ofDigitChars 10 ds 0 < 0x1_0000_0000_0000_0000

theorem numeric_iff (s : String) : Numeric s ↔ ∃ i, index? s.toList = some i := by
  have hvalue (ds : List Char) : Nat.ofDigitChars 10 ds 0 = RawKey.digitsAfter 0 ds := by
    simp only [Nat.ofDigitChars_eq_foldl, Nat.mul_comm 10]
    rfl
  simp only [Numeric, hvalue, index?_eq_some_iff]
  constructor
  · rintro ⟨ds, hs, hne, hdigits, hlt⟩
    have hds := (RawKey.digits?_eq_some_iff ds _).mpr ⟨hne, hdigits, rfl⟩
    refine ⟨UInt64.ofNat (RawKey.digitsAfter 0 ds), ?_⟩
    rw [UInt64.toNat_ofNat_of_lt' hlt]
    rcases hs with hs | hs
    · rw [hs, withoutPlus_of_digits? hds, hds]
    · rw [hs, withoutPlus, hds]
  · rintro ⟨i, hi⟩
    obtain ⟨hne, hdigits, hword⟩ := (RawKey.digits?_eq_some_iff _ _).mp hi
    refine ⟨withoutPlus s.toList, ?_, hne, hdigits, hword ▸ i.toNat_lt_size⟩
    unfold withoutPlus
    split
    · rename_i hplus
      exact Or.inr hplus
    · exact Or.inl rfl

theorem index?_eq_none_iff (s : String) : index? s.toList = none ↔ ¬ Numeric s := by
  rw [numeric_iff, ← Option.isSome_iff_exists, Option.not_isSome_iff_eq_none]

theorem index?_toDigits (i : UInt64) : index? (Nat.toDigits 10 i.toNat) = some i :=
  index?_of_digits? (RawKey.digits?_toDigits i.toNat)

theorem toList_text_index (i : UInt64) : (Key.index i).text.toList = Nat.toDigits 10 i.toNat := by
  simp [text]

theorem text_index_plain (i : UInt64) :
    (Key.index i).text ≠ "" ∧ '.' ∉ (Key.index i).text.toList := by
  rw [ne_eq, ← String.toList_eq_nil_iff, toList_text_index]
  refine ⟨Nat.toDigits_ne_nil, fun h => ?_⟩
  have hdigit := Nat.isDigit_of_mem_toDigits (by decide) (by decide) h
  cases hdigit

theorem reread_index (i : UInt64) : reread (.index i) = .index i := by
  rw [reread, toList_text_index, ofSegment, index?_toDigits]

theorem reread_name_eq_iff (s : String) : reread (.name s) = .name s ↔ index? s.toList = none := by
  rw [reread, text, ofSegment]
  cases index? s.toList <;> simp

theorem padded_or_large {s : String} {n : Nat} (hn : RawKey.digits? s.toList = some n)
    (hs : ¬ RawKey.IsIndexText s) :
    s.toList.head? = some '0' ∧ 1 < s.toList.length ∨ 0x8000_0000_0000_0000 ≤ n := by
  have hindex (hlt : n < 0x8000_0000_0000_0000) : s.toList ≠ Nat.toDigits 10 n := by
    intro he
    refine hs ⟨n, ⟨by omega, by omega⟩, String.toList_inj.mp ?_⟩
    rw [he, RawKey.toList_toString_natCast]
  cases hcs : s.toList with
  | nil =>
      rw [hcs] at hn
      cases hn
  | cons c ds =>
      rw [hcs] at hn hindex
      by_cases hc : c = '0'
      · subst hc
        cases ds with
        | nil =>
            cases hn
            exact absurd rfl (hindex (by decide))
        | cons d ds => exact Or.inl ⟨rfl, by simp⟩
      · refine Or.inr (Nat.le_of_not_lt fun hlt => hindex hlt ?_)
        rw [RawKey.toDigits_of_digits? hc hn]

theorem disputed_or_signed {s : String} {i : UInt64} (hi : index? s.toList = some i)
    (hs : ¬ RawKey.IsIndexText s) : Disputed s ∨ Signed s := by
  have hlt : i.toNat < UInt64.size := i.toNat_lt_size
  rw [index?_eq_some_iff] at hi
  unfold withoutPlus at hi
  split at hi
  · rename_i ds hplus
    refine Or.inr ⟨?_, i.toNat, ?_, hlt⟩
    · rw [hplus, List.head?_cons]
    · rw [hplus, List.tail_cons, hi]
  · exact Or.inl ⟨i.toNat, hi, hlt, padded_or_large hi hs⟩

theorem exists_index?_of_disputed {s : String} (h : Disputed s) : ∃ i, index? s.toList = some i := by
  obtain ⟨n, hdigits, hlt, -⟩ := h
  refine ⟨UInt64.ofNat n, index?_of_digits? ?_⟩
  rw [UInt64.toNat_ofNat_of_lt' hlt, hdigits]

end Key

namespace KeyPath

theorem splitDots_eq_splitOn (cs : List Char) : splitDots cs = cs.splitOn '.' := by
  induction cs with
  | nil => rfl
  | cons c rest ih =>
      rw [splitDots, List.splitOn_cons_eq_if_modifyHead, ih]
      by_cases hc : c = '.'
      · simp [hc]
      · rw [if_neg hc, if_neg (by simpa using hc)]
        cases hrest : rest.splitOn '.' with
        | nil => exact absurd hrest (List.splitOn_ne_nil _ _)
        | cons part parts => rfl

theorem not_mem_of_mem_splitDots {cs part : List Char} (h : part ∈ splitDots cs) :
    '.' ∉ part := by
  induction cs generalizing part with
  | nil => simp_all [splitDots]
  | cons c rest ih =>
      rw [splitDots] at h
      split at h
      · rcases List.mem_cons.mp h with rfl | h
        · exact List.not_mem_nil
        · exact ih h
      · rename_i hc
        cases hrest : splitDots rest with
        | nil =>
            simp only [hrest, List.mem_singleton] at h
            simpa [h] using fun he => hc he.symm
        | cons first parts =>
            simp only [hrest, List.mem_cons] at h ih
            rcases h with rfl | h
            · rw [List.mem_cons, not_or]
              exact ⟨fun he => hc he.symm, ih (Or.inl rfl)⟩
            · exact ih (Or.inr h)

/-- The keys of a path come back one by one, if their texts are not empty and have no dots. -/
theorem ofDotted_text {path : KeyPath} (h : ∀ k ∈ path, k.text ≠ "" ∧ '.' ∉ k.text.toList) :
    ofDotted path.text = path.map Key.reread := by
  by_cases hne : path = []
  · subst hne
    rfl
  · have hparts : splitDots path.text.toList = path.map (fun k => k.text.toList) := by
      rw [splitDots_eq_splitOn, text, String.toList_intercalate, List.map_map]
      refine List.splitOn_intercalate '.' ?_ (by simpa using hne)
      rw [List.forall_mem_map]
      exact fun k hk => (h k hk).2
    have hkept : (path.map (fun k => k.text.toList)).filter (fun part => !part.isEmpty) =
        path.map (fun k => k.text.toList) := by
      rw [List.filter_eq_self, List.forall_mem_map]
      intro k hk
      simpa using (h k hk).1
    rw [ofDotted, hparts, hkept, List.map_map]
    rfl

theorem ofDotted_of_not_mem {s : String} (hne : s ≠ "") (h : '.' ∉ s.toList) :
    ofDotted s = [Key.ofSegment s.toList] := by
  have hone : ∀ k ∈ [Key.name s], k.text ≠ "" ∧ '.' ∉ k.text.toList := by
    rw [List.forall_mem_singleton]
    exact ⟨hne, h⟩
  have hread := ofDotted_text hone
  rw [text, List.map_singleton, String.intercalate_singleton] at hread
  exact hread

def IsPlain (s : String) : Prop := s ≠ "" ∧ '.' ∉ s.toList ∧ Key.index? s.toList = none

theorem isPlain_of_mem_ofDotted {s t : String} (h : Key.name t ∈ ofDotted s) : IsPlain t := by
  obtain ⟨part, hmem, hpart⟩ := List.mem_map.mp h
  obtain ⟨hsplit, hne⟩ := List.mem_filter.mp hmem
  rw [Key.ofSegment] at hpart
  split at hpart
  · cases hpart
  · rename_i hindex
    cases hpart
    rw [IsPlain, String.toList_ofList]
    exact ⟨by simpa using hne, not_mem_of_mem_splitDots hsplit, hindex⟩

theorem ofDotted_eq_name_iff (s : String) : ofDotted s = [.name s] ↔ IsPlain s := by
  constructor
  · intro h
    refine isPlain_of_mem_ofDotted (s := s) ?_
    rw [h]
    exact List.mem_singleton_self _
  · rintro ⟨hne, hdot, hindex⟩
    rw [ofDotted_of_not_mem hne hdot, Key.ofSegment, hindex, String.ofList_toList]

end KeyPath

namespace Node

theorem item?_cons_eq_some_iff {n m : Node} {k : Key} {path : KeyPath} :
    n.item? (k :: path) = some m ↔
      ∃ next, n.get? k = some next ∧ next.isNull = false ∧ next.item? path = some m := by
  rw [item?]
  cases n.get? k with
  | none => simp
  | some next => cases hnull : next.isNull <;> simp [hnull]

theorem Canonical.get? {n next : Node} {k : Key} (h : n.Canonical) (hk : n.get? k = some next) :
    next.Canonical ∧ ∀ s, k = .name s → ¬ RawKey.IsIndexText s := by
  cases n with
  | scalar s => cases hk
  | seq items =>
      cases k with
      | name s => cases hk
      | index i =>
          refine ⟨(canonicalItems_iff items).mp h next (List.mem_of_getElem? hk), ?_⟩
          rintro s ⟨⟩
  | map es =>
      cases k with
      | index i => cases hk
      | name s =>
          obtain ⟨hs, hnext⟩ := (canonicalEntries_iff es).mp h.2 _ (Entries.mem_of_get? hk)
          refine ⟨hnext, ?_⟩
          rintro t ⟨⟩
          exact hs

theorem Canonical.not_isIndexText_of_item? {n m : Node} {path : KeyPath} (h : n.Canonical)
    (hm : n.item? path = some m) {s : String} (hs : Key.name s ∈ path) :
    ¬ RawKey.IsIndexText s := by
  induction path generalizing n with
  | nil => cases hs
  | cons k path ih =>
      obtain ⟨next, hnext, -, hm⟩ := item?_cons_eq_some_iff.mp hm
      obtain ⟨hcanonical, hname⟩ := h.get? hnext
      rcases List.mem_cons.mp hs with hk | hs
      · exact hname s hk.symm
      · exact ih hcanonical hm hs

/-- A key by which something is found is read again as itself if the key that is read finds
something too, since names lead into maps alone and indices into sequences. -/
theorem reread_of_get? {n next other : Node} {k : Key} (hk : n.get? k = some next)
    (hr : n.get? k.reread = some other) : k.reread = k := by
  cases k with
  | index i => exact Key.reread_index i
  | name s =>
      cases n with
      | scalar | seq => cases hk
      | map es =>
          -- a name that is read as an index would find nothing in a map
          rw [Key.reread_name_eq_iff]
          rw [Key.reread, Key.ofSegment] at hr
          cases hi : Key.index? (Key.name s).text.toList with
          | none => exact hi
          | some i =>
              rw [hi] at hr
              cases hr

theorem map_reread_of_item? {n m r : Node} {path : KeyPath} (hm : n.item? path = some m)
    (hr : n.item? (path.map Key.reread) = some r) : path.map Key.reread = path := by
  induction path generalizing n with
  | nil => rfl
  | cons k path ih =>
      rw [List.map_cons] at hr
      obtain ⟨next, hnext, -, hm⟩ := item?_cons_eq_some_iff.mp hm
      obtain ⟨other, hother, -, hr⟩ := item?_cons_eq_some_iff.mp hr
      have hk := reread_of_get? hnext hother
      rw [hk, hnext] at hother
      cases hother
      rw [List.map_cons, hk, ih hm hr]

end Node

namespace KeyPath

theorem ofDotted_text_of_names {path : KeyPath}
    (h : ∀ s, Key.name s ∈ path → s ≠ "" ∧ '.' ∉ s.toList) :
    ofDotted path.text = path.map Key.reread := by
  refine ofDotted_text fun k hk => ?_
  cases k with
  | name s => exact h s hk
  | index i => exact Key.text_index_plain i

theorem map_reread_of_not_index {path : KeyPath}
    (h : ∀ s, Key.name s ∈ path → Key.index? s.toList = none) : path.map Key.reread = path := by
  refine (List.map_congr_left fun k hk => ?_).trans (List.map_id path)
  cases k with
  | name s => exact (Key.reread_name_eq_iff s).mpr (h s hk)
  | index i => exact Key.reread_index i

theorem ofDotted_text_eq_self_iff (path : KeyPath) :
    ofDotted path.text = path ↔ ∀ s, Key.name s ∈ path → IsPlain s := by
  constructor
  · intro h s hs
    rw [← h] at hs
    exact isPlain_of_mem_ofDotted hs
  · intro h
    rw [ofDotted_text_of_names fun s hs => ⟨(h s hs).1, (h s hs).2.1⟩]
    exact map_reread_of_not_index fun s hs => (h s hs).2.2

/-- A path that was read from a text is read again from what is written of it. Of all paths those
come back whose names are neither empty nor cut at a dot nor the text of an unsigned integer of 64
bits, whatever their indices. -/
theorem dotted_paths_come_back :
    (∀ s, ofDotted (ofDotted s).text = ofDotted s) ∧
    ∀ path : KeyPath, ofDotted path.text = path ↔
      ∀ s, Key.name s ∈ path → s ≠ "" ∧ '.' ∉ s.toList ∧ ¬ Key.Numeric s := by
  refine ⟨fun s => ?_, fun path => ?_⟩
  · rw [ofDotted_text_eq_self_iff]
    exact fun t => isPlain_of_mem_ofDotted
  · rw [ofDotted_text_eq_self_iff]
    simp only [IsPlain, Key.index?_eq_none_iff]

theorem dotted_paths_come_back_limits :
    ofDotted (ofDotted "..jobs.+018446744073709551615.").text =
      ofDotted "..jobs.+018446744073709551615." ∧
    ofDotted (text [.index 0xFFFF_FFFF_FFFF_FFFF, .name "18446744073709551616", .index 0]) =
      [.index 0xFFFF_FFFF_FFFF_FFFF, .name "18446744073709551616", .index 0] ∧
    ofDotted (text [.name "jobs", .name "007"]) ≠ [.name "jobs", .name "007"] := by
  obtain ⟨hread, hback⟩ := dotted_paths_come_back
  refine ⟨hread _, (hback _).mpr fun s hs => ?_, fun h => ?_⟩
  · have hs : s = "18446744073709551616" := by simpa using hs
    subst hs
    refine ⟨by decide, by decide, ?_⟩
    rw [← Key.index?_eq_none_iff]
    decide
  · have hpadded := ((hback _).mp h "007" (by simp)).2.2
    rw [← Key.index?_eq_none_iff] at hpadded
    cases hpadded

/-- A path by which something is found in a decoded document finds it again when it is written with
dots and read, if no name on it is an index to the reader of paths alone. If one of the names is
digits with zeros in front or digits that need the 64th bit, nothing is found. -/
theorem item?_ofDotted_text {text : String} {n : Node}
    (hd : Node.ofJsonText text = .ok n ∨ Node.ofYamlText text = .ok n) {path : KeyPath} {m : Node}
    (hm : n.item? path = some m) (hp : ∀ s, Key.name s ∈ path → s ≠ "" ∧ '.' ∉ s.toList) :
    ((∀ s, Key.name s ∈ path → ¬ Key.Disputed s ∧ ¬ Key.Signed s) →
      n.item? (ofDotted path.text) = some m) ∧
    ((∃ s, Key.name s ∈ path ∧ Key.Disputed s) → n.item? (ofDotted path.text) = none) := by
  obtain ⟨hcanonical, -⟩ := Node.canonical_of_decoded hd
  rw [ofDotted_text_of_names hp]
  refine ⟨fun h => ?_, fun ⟨s, hs, hdisputed⟩ => ?_⟩
  · have hnames : ∀ s, Key.name s ∈ path → Key.index? s.toList = none := by
      intro s hs
      obtain ⟨hdisputed, hsigned⟩ := h s hs
      refine Option.eq_none_iff_forall_ne_some.mpr fun i hi => ?_
      have hindex := hcanonical.not_isIndexText_of_item? hm hs
      exact (Key.disputed_or_signed hi hindex).elim hdisputed hsigned
    rw [map_reread_of_not_index hnames, hm]
  · refine Option.eq_none_iff_forall_ne_some.mpr fun r hr => ?_
    have hsame : Key.reread (.name s) = .name s :=
      List.map_inj_left.mp ((Node.map_reread_of_item? hm hr).trans (List.map_id path).symm) _ hs
    obtain ⟨i, hi⟩ := Key.exists_index?_of_disputed hdisputed
    rw [Key.reread_name_eq_iff, hi] at hsame
    cases hsame

theorem item?_ofDotted_text_digits :
    ∃ n, Node.ofJsonText "\x7b\"99999999999999999999\":[\x7b\"a\":\"x\"\x7d],\"007\":\"y\"\x7d" =
        .ok n ∧
      n.item? (ofDotted (text [.name "99999999999999999999", .index 0, .name "a"])) =
        some (.string "x") ∧
      n.item? [.name "007"] = some (.string "y") ∧
      n.item? (ofDotted (text [.name "007"])) = none := by
  let n : Node := .map [("99999999999999999999", .seq [.map [("a", .string "x")]]),
    ("007", .string "y")]
  have hd : Node.ofJsonText
      "\x7b\"99999999999999999999\":[\x7b\"a\":\"x\"\x7d],\"007\":\"y\"\x7d" = .ok n := rfl
  have hlong : n.item? [.name "99999999999999999999", .index 0, .name "a"] =
    some (.string "x") := rfl
  have hpadded : n.item? [.name "007"] = some (.string "y") := rfl
  have hpart (s : String) (hs : Key.name s ∈ [.name "99999999999999999999", .index 0, .name "a"]) :
      s = "99999999999999999999" ∨ s = "a" := by simpa using hs
  refine ⟨n, hd, (item?_ofDotted_text (.inl hd) hlong fun s hs => ?_).1 fun s hs => ?_, hpadded,
    (item?_ofDotted_text (.inl hd) hpadded (by simp)).2 ⟨"007", by simp, by decide⟩⟩
  · rcases hpart s hs with rfl | rfl <;> decide
  · rcases hpart s hs with rfl | rfl <;> decide

/-- A key with a zero in front is written as it is and read as an index. -/
theorem not_all_dotted_texts_found :
    ¬ ∀ (text : String) (n m : Node) (path : KeyPath),
      Node.ofJsonText text = .ok n ∨ Node.ofYamlText text = .ok n → n.item? path = some m →
      (∀ s, Key.name s ∈ path → s ≠ "" ∧ '.' ∉ s.toList) →
      n.item? (ofDotted path.text) = some m := by
  intro h
  have hd : Node.ofJsonText "\x7b\"01\":\"x\"\x7d" = .ok (.map [("01", .string "x")]) := rfl
  have hfound := h _ _ (.string "x") [.name "01"] (.inl hd) rfl (by simp)
  cases hfound

end KeyPath

end ConfigShape

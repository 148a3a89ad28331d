import ConfigShape.Proofs.IndexText
import ConfigShape.Proofs.Lifting
import ConfigShape.Raw.Json

namespace ConfigShape

/-- The keys are the texts of the first indices in order, as many as there are keys. There are not
more than signed indices of 64 bits, which no object in memory comes near. -/
def CountsUp (ks : List String) : Prop :=
  ks = (List.range ks.length).map toString ∧ ks.length ≤ 0x8000_0000_0000_0000

instance (ks : List String) : Decidable (CountsUp ks) :=
  inferInstanceAs (Decidable (ks = (List.range ks.length).map toString ∧ _))

namespace Raw

theorem texts_ofJsonMembers (members : List (String × Json)) :
    (ofJsonMembers members).map (fun e => e.1.text) = Entries.keys members := by
  induction members with
  | nil => rfl
  | cons m rest ih =>
      obtain ⟨k, v⟩ := m
      simp only [ofJsonMembers, List.map_cons, ih, RawKey.text_ofName]
      rfl

theorem countsFrom_ofJsonItems (i : Int) (items : List Json) :
    countsFrom i (ofJsonItems i items) = true := by
  induction items generalizing i with
  | nil => rfl
  | cons v rest ih => simp [ofJsonItems, countsFrom, ih]

theorem keysCount_ofJsonItems {items : List Json} (h : items ≠ []) :
    keysCount (ofJsonItems 0 items) = true := by
  cases items with
  | nil => exact absurd rfl h
  | cons v rest => exact countsFrom_ofJsonItems 0 (v :: rest)

theorem countsFrom_ofJsonMembers_iff (n : Nat) (members : List (String × Json)) :
    countsFrom (n : Int) (ofJsonMembers members) = true ↔
      Entries.keys members = (List.range' n members.length).map toString ∧
      (members ≠ [] → n + members.length ≤ 0x8000_0000_0000_0000) := by
  induction members generalizing n with
  | nil => simp [ofJsonMembers, countsFrom, Entries.keys]
  | cons m rest ih =>
      obtain ⟨k, v⟩ := m
      have hcast : (n : Int) + 1 = ((n + 1 : Nat) : Int) := rfl
      have htext : toString (n : Int) = toString n := rfl
      have hnil : rest = [] ↔ rest.length = 0 := List.length_eq_zero_iff.symm
      simp only [ofJsonMembers, countsFrom, Bool.and_eq_true, beq_iff_eq, hcast, ih,
        RawKey.ofName_eq_index_iff, htext, Entries.keys, List.map_cons, List.length_cons,
        List.range'_succ, List.cons.injEq, ne_eq, hnil, reduceCtorEq, not_false_eq_true,
        true_implies]
      constructor
      · rintro ⟨⟨hn, hk⟩, hrest, hlen⟩
        refine ⟨⟨hk, hrest⟩, ?_⟩
        by_cases h : rest.length = 0
        · omega
        · have := hlen h
          omega
      · rintro ⟨⟨hk, hrest⟩, hlen⟩
        exact ⟨⟨by omega, hk⟩, hrest, fun _ => by omega⟩

theorem keysCount_ofJsonMembers_iff (members : List (String × Json)) :
    keysCount (ofJsonMembers members) = true ↔ members ≠ [] ∧ CountsUp (Entries.keys members) := by
  cases members with
  | nil => simp [ofJsonMembers, keysCount]
  | cons m rest =>
      have h := countsFrom_ofJsonMembers_iff 0 (m :: rest)
      simp only [Nat.zero_add, ← List.range_eq_range'] at h
      have hlen : (Entries.keys (m :: rest)).length = (m :: rest).length := List.length_map _
      have hempty : (ofJsonMembers (m :: rest)).isEmpty = false := rfl
      rw [CountsUp, hlen, keysCount, hempty]
      simpa using h

theorem keysAreNames_ofJsonMembers_iff (members : List (String × Json)) :
    keysAreNames (ofJsonMembers members) = true ↔
      members ≠ [] ∧ ∀ k ∈ Entries.keys members, ¬ RawKey.IsIndexText k := by
  rw [keysAreNames_iff]
  refine and_congr ?_ ?_
  · cases members <;> simp [ofJsonMembers]
  · induction members with
    | nil => simp [ofJsonMembers, Entries.keys]
    | cons m rest ih =>
        obtain ⟨k, v⟩ := m
        have hk : (∃ s, RawKey.ofName k = .name s) ↔ ¬ RawKey.IsIndexText k := by
          simp [RawKey.ofName_eq_name_iff]
        simp only [Entries.keys] at ih
        simp only [ofJsonMembers, List.forall_mem_cons, hk, ih, Entries.keys, List.map_cons]

end Raw

end ConfigShape

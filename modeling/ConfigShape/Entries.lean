namespace ConfigShape

/-- Entries in the order in which their keys first arrived. -/
abbrev Entries (α : Type) := List (String × α)

namespace Entries

variable {α β : Type}

def keys (es : Entries α) : List String := es.map Prod.fst

def values (es : Entries α) : List α := es.map Prod.snd

def Distinct (es : Entries α) : Prop := es.keys.Nodup

def get? (key : String) : Entries α → Option α
  | [] => none
  | (k, v) :: rest => if k = key then some v else get? key rest

def contains (key : String) (es : Entries α) : Bool := (get? key es).isSome

/-- A key that is present keeps its place and takes the new value; another goes last. -/
def insert (key : String) (value : α) : Entries α → Entries α
  | [] => [(key, value)]
  | (k, v) :: rest => if k = key then (k, value) :: rest else (k, v) :: insert key value rest

def erase (key : String) : Entries α → Entries α
  | [] => []
  | (k, v) :: rest => if k = key then rest else (k, v) :: erase key rest

def extend (es new : Entries α) : Entries α :=
  new.foldl (fun acc e => insert e.1 e.2 acc) es

def ofList (es : List (String × α)) : Entries α := extend [] es

def modify (key : String) (f : α → α) : Entries α → Entries α
  | [] => []
  | (k, v) :: rest => if k = key then (k, f v) :: rest else (k, v) :: modify key f rest

def position? (key : String) (es : Entries α) : Option Nat := es.findIdx? (fun e => e.1 == key)

@[simp] theorem get?_nil (key : String) : get? key ([] : Entries α) = none := rfl

@[simp] theorem get?_cons (key k : String) (v : α) (rest : Entries α) :
    get? key ((k, v) :: rest) = if k = key then some v else get? key rest := rfl

theorem get?_insert (key k : String) (value : α) (es : Entries α) :
    get? k (insert key value es) = if k = key then some value else get? k es := by
  induction es with
  | nil => simp [insert, eq_comm]
  | cons e rest ih =>
    obtain ⟨k', v⟩ := e
    by_cases h : k' = key <;> by_cases hk : k = key <;> simp_all [insert, eq_comm]

theorem mem_keys_iff_get? (key : String) (es : Entries α) :
    key ∈ keys es ↔ (get? key es).isSome := by
  induction es with
  | nil => simp [keys]
  | cons e rest ih =>
    obtain ⟨k, v⟩ := e
    by_cases h : k = key
    · simp [keys, h]
    · have h' : key ≠ k := fun e => h e.symm
      simpa [keys, h, h'] using ih

theorem keys_insert (key : String) (value : α) (es : Entries α) :
    keys (insert key value es) = if key ∈ keys es then keys es else keys es ++ [key] := by
  induction es with
  | nil => simp [insert, keys]
  | cons e rest ih =>
    obtain ⟨k, v⟩ := e
    by_cases h : k = key
    · simp [insert, keys, h]
    · have h' : key ≠ k := fun e => h e.symm
      simp only [keys] at ih
      by_cases hk : key ∈ rest.map Prod.fst <;> simp [insert, keys, h, h', ih, hk]

theorem distinct_insert (key : String) (value : α) {es : Entries α} (h : Distinct es) :
    Distinct (insert key value es) := by
  simp only [Distinct, keys_insert]
  by_cases hk : key ∈ keys es
  · rw [if_pos hk]
    exact h
  · simp only [hk, if_false, List.nodup_append]
    refine ⟨h, by simp, ?_⟩
    intro a ha b hb e
    simp only [List.mem_singleton] at hb
    exact hk (hb ▸ e ▸ ha)

theorem get?_erase (key k : String) {es : Entries α} (h : Distinct es) :
    get? k (erase key es) = if k = key then none else get? k es := by
  induction es with
  | nil => simp [erase]
  | cons e rest ih =>
    obtain ⟨k', v⟩ := e
    simp only [Distinct, keys, List.map_cons, List.nodup_cons] at h
    have ih := ih h.2
    by_cases hk : k' = key
    · subst hk
      by_cases hk' : k = k'
      · subst hk'
        have hn : get? k rest = none := by
          cases hg : get? k rest with
          | none => rfl
          | some w => exact absurd ((mem_keys_iff_get? k rest).2 (by simp [hg])) h.1
        simp [erase, hn]
      · have : k' ≠ k := fun e => hk' e.symm
        simp [erase, hk', this]
    · by_cases hk' : k = key <;> by_cases hkk : k' = k <;> simp_all [erase]

theorem keys_erase_sublist (key : String) (es : Entries α) :
    (keys (erase key es)).Sublist (keys es) := by
  induction es with
  | nil => exact List.Sublist.refl _
  | cons e rest ih =>
    obtain ⟨k, v⟩ := e
    by_cases h : k = key
    · simp [erase, keys, h]
    · simpa [erase, keys, h] using ih

theorem distinct_erase (key : String) {es : Entries α} (h : Distinct es) :
    Distinct (erase key es) :=
  List.Nodup.sublist (keys_erase_sublist key es) h

end Entries

end ConfigShape

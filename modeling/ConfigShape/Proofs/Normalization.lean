import ConfigShape.Node.Normalize
import ConfigShape.Proofs.Entries

namespace ConfigShape.Node

theorem get?_settle (key k : String) (es : Entries Node) :
    Entries.get? k (settle key es) =
      if k = key then some (.seq (((Entries.get? key es).map toItems).getD []))
      else Entries.get? k es := by
  rw [settle]
  cases Entries.get? key es <;> exact Entries.get?_insert key k _ es

theorem keys_settle (key : String) (es : Entries Node) :
    Entries.keys (settle key es) =
      if key ∈ Entries.keys es then Entries.keys es else Entries.keys es ++ [key] := by
  rw [settle]
  cases Entries.get? key es <;> exact Entries.keys_insert key _ es

theorem settle_eq_self {key : String} {es : Entries Node} {items : List Node}
    (h : Entries.get? key es = some (.seq items)) : settle key es = es := by
  simp only [settle, h, toItems]
  exact Entries.insert_of_get? h

theorem settle_singleton (key : String) (n : Node) : settle key [(key, n)] = wrap key n := by
  simp only [settle, Entries.get?_cons, if_true, Entries.insert, wrap]

theorem toItems_map {es : Entries Node} (h : es ≠ []) : (Node.map es).toItems = [.map es] := by
  cases es with
  | nil => exact absurd rfl h
  | cons e rest => rfl

theorem toEntries_cons (key? : Option String) {es : Entries Node} (h : es ≠ []) :
    (Node.map es).toEntries key? = es := by
  cases es with
  | nil => exact absurd rfl h
  | cons e rest => rfl

theorem toEntries_cases (key? : Option String) (n : Node) :
    (∃ es, es ≠ [] ∧ n = .map es ∧ n.toEntries key? = es) ∨
    (∃ key, key? = some key ∧ n.toEntries key? = wrap key n) ∨
    (key? = none ∧ n.toEntries key? = []) := by
  unfold toEntries
  split
  · exact Or.inl ⟨_, List.cons_ne_nil _ _, rfl, rfl⟩
  · cases key? with
    | none => exact Or.inr (Or.inr ⟨rfl, rfl⟩)
    | some key => exact Or.inr (Or.inl ⟨key, rfl, rfl⟩)

theorem keys_toEntries {key? : Option String} {n : Node} {k : String}
    (hk : k ∈ Entries.keys (n.toEntries key?)) :
    key? = some k ∨ ∃ fs, n = .map fs ∧ k ∈ Entries.keys fs := by
  rcases toEntries_cases key? n with ⟨fs, -, hn, h⟩ | ⟨key, rfl, h⟩ | ⟨-, h⟩
  · rw [h] at hk
    exact Or.inr ⟨fs, hn, hk⟩
  · rw [h] at hk
    have he : k = key := List.mem_singleton.mp hk
    exact Or.inl (by rw [he])
  · rw [h] at hk
    cases hk

theorem toEntries_eq_nil {key? : Option String} {n : Node} (h : n.toEntries key? = []) :
    key? = none := by
  rcases toEntries_cases key? n with ⟨fs, hne, -, hfs⟩ | ⟨key, -, hw⟩ | ⟨hnone, -⟩
  · exact absurd (hfs.symm.trans h) hne
  · cases hw.symm.trans h
  · exact hnone

theorem toPrefixMap_cases (key : String) (others : List String) (n : Node) :
    (∃ es, n = .map es ∧ isOwnMap key others es = true ∧
      n.toPrefixMap (some key) others = .map (settle key es)) ∨
    n.toPrefixMap (some key) others = .map (wrap key n) := by
  unfold toPrefixMap
  dsimp only
  split
  · rename_i e rest
    split
    · rename_i hown
      exact Or.inl ⟨e :: rest, rfl, hown, rfl⟩
    · rw [settle_singleton]
      exact Or.inr rfl
  · exact Or.inr rfl

theorem toPrefixMap_some (key : String) (others : List String) (n : Node) :
    ∃ es items, n.toPrefixMap (some key) others = .map es ∧
      Entries.get? key es = some (.seq items) := by
  rcases toPrefixMap_cases key others n with ⟨es, -, -, h⟩ | h
  · exact ⟨_, _, h, by rw [get?_settle, if_pos rfl]⟩
  · exact ⟨_, _, h, by rw [wrap, Entries.get?_cons, if_pos rfl]⟩

theorem get?_of_toPrefixMap {key : String} {others : List String} {n : Node} {es : Entries Node}
    (h : n.toPrefixMap (some key) others = .map es) :
    ∃ items, Entries.get? key es = some (.seq items) := by
  obtain ⟨fs, items, hfs, hg⟩ := toPrefixMap_some key others n
  rw [hfs] at h
  cases h
  exact ⟨items, hg⟩

theorem toPrefixMap_of_isOwnMap {key : String} {others : List String} {es : Entries Node}
    (h : isOwnMap key others es = true) :
    (Node.map es).toPrefixMap (some key) others = .map (settle key es) := by
  cases es with
  | nil => simp [isOwnMap, Entries.contains] at h
  | cons e rest => simp only [toPrefixMap, h, if_true]

theorem toPrefixMap_own {key : String} {es : Entries Node} (h : key ∈ Entries.keys es)
    (others : List String) : (Node.map es).toPrefixMap (some key) others = .map (settle key es) := by
  refine toPrefixMap_of_isOwnMap ?_
  rw [isOwnMap, (Entries.contains_iff key es).mpr h, Bool.true_or]

theorem keys_toPrefixMap {key? : Option String} {others : List String} {n : Node}
    {es : Entries Node} (h : n.toPrefixMap key? others = .map es) {k : String} (hk : k ∈ es.keys) :
    key? = some k ∨ ∃ fs, n = .map fs ∧ k ∈ Entries.keys fs := by
  cases key? with
  | none => exact Or.inr ⟨es, h, hk⟩
  | some key =>
      have hlast (hkey : k ∈ [key]) : some key = some k := by rw [List.mem_singleton.mp hkey]
      rcases toPrefixMap_cases key others n with ⟨fs, hn, -, hfs⟩ | hw
      · rw [hfs] at h
        cases h
        rw [keys_settle] at hk
        split at hk
        · exact Or.inr ⟨fs, hn, hk⟩
        · rcases List.mem_append.mp hk with hk | hk
          · exact Or.inr ⟨fs, hn, hk⟩
          · exact Or.inl (hlast hk)
      · rw [hw] at h
        cases h
        exact Or.inl (hlast hk)

end ConfigShape.Node

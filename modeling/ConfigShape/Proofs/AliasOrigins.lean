import Mathlib.Data.List.Perm.Subperm
import Mathlib.Logic.Relation
import ConfigShape.Proofs.AliasSurvival

namespace ConfigShape.AliasTable

/-- The entries that are left hold the values of different entries of the map. The key of such an
entry is the key that now has its value, or leads there from alias to alias. -/
structure MovedFrom (table : AliasTable) (es left : Entries Node) (origin : String → String) :
    Prop where
  value : ∀ k n, left.get? k = some n → es.get? (origin k) = some n
  own : ∀ j ∈ left.keys, ∀ k ∈ left.keys, origin j = origin k → j = k
  led : ∀ k ∈ left.keys, Relation.ReflTransGen table.Leads (origin k) k

def Untouched (table : AliasTable) (es : Entries Node) (k : String) : Prop :=
  ¬ table.IsAlias k ∧ ∀ a ∈ es.keys, ¬ table.Leads a k

instance (table : AliasTable) (es : Entries Node) (k : String) :
    Decidable (table.Untouched es k) :=
  inferInstanceAs (Decidable (¬ table.IsAlias k ∧ ∀ a ∈ es.keys, ¬ table.Leads a k))

namespace MovedFrom

variable {table : AliasTable} {es left : Entries Node} {origin : String → String}

theorem refl (table : AliasTable) (es : Entries Node) : MovedFrom table es es id where
  value _ _ h := h
  own _ _ _ _ h := h
  led _ _ := .refl

theorem erase (h : MovedFrom table es left origin) (hd : left.Distinct) (a : String) :
    MovedFrom table es (left.erase a) origin where
  value k n hn := by
    rw [Entries.get?_erase a k hd] at hn
    split at hn
    · cases hn
    · exact h.value k n hn
  own j hj k hk := by
    rw [Entries.mem_keys_erase hd] at hj hk
    exact h.own j hj.1 k hk.1
  led k hk := h.led k ((Entries.mem_keys_erase hd a k).mp hk).1

theorem move (h : MovedFrom table es left origin) (hd : left.Distinct) {a c : String} {n : Node}
    (hl : table.Leads a c) (hn : left.get? a = some n) :
    MovedFrom table es ((left.erase a).insert c n) (Function.update origin c (origin a)) := by
  have ha : a ∈ left.keys := Entries.mem_keys_of_get? hn
  have hrest {k : String} (hk : k ∈ Entries.keys ((left.erase a).insert c n)) (hkc : k ≠ c) :
      k ∈ left.keys ∧ k ≠ a := by
    rw [Entries.mem_keys_insert, Entries.mem_keys_erase hd] at hk
    exact hk.resolve_right hkc
  refine ⟨fun k m hm => ?_, fun j hj k hk he => ?_, fun k hk => ?_⟩
  · rw [Entries.get?_insert] at hm
    by_cases hkc : k = c
    · subst hkc
      rw [if_pos rfl] at hm
      cases hm
      rw [Function.update_self]
      exact h.value a n hn
    · rw [if_neg hkc] at hm
      rw [Function.update_of_ne hkc]
      exact (h.erase hd a).value k m hm
  · -- the key `a` is gone, so that no other entry has its origin
    by_cases hjc : j = c <;> by_cases hkc : k = c
    · rw [hjc, hkc]
    · rw [hjc, Function.update_self, Function.update_of_ne hkc] at he
      exact absurd (h.own a ha k (hrest hk hkc).1 he).symm (hrest hk hkc).2
    · rw [hkc, Function.update_self, Function.update_of_ne hjc] at he
      exact absurd (h.own j (hrest hj hjc).1 a ha he) (hrest hj hjc).2
    · rw [Function.update_of_ne hjc, Function.update_of_ne hkc] at he
      exact h.own j (hrest hj hjc).1 k (hrest hk hkc).1 he
  · by_cases hkc : k = c
    · subst hkc
      rw [Function.update_self]
      exact (h.led a ha).tail hl
    · rw [Function.update_of_ne hkc]
      exact h.led k (hrest hk hkc).1

theorem step (h : MovedFrom table es left origin) (hd : left.Distinct) (given : Entries Node)
    {p : String × String} (hp : p ∈ table) :
    ∃ origin, MovedFrom table es (AliasTable.step given left p) origin := by
  obtain ⟨a, c⟩ := p
  rcases step_cases given left a c with ⟨-, hs⟩ | ⟨-, -, -, hs⟩ | ⟨n, hne, hn, -, hs⟩
  · rw [hs]
    exact ⟨origin, h⟩
  · rw [hs]
    exact ⟨origin, h.erase hd a⟩
  · rw [hs]
    exact ⟨_, h.move hd ⟨hp, hne⟩ hn⟩

theorem length_le (h : MovedFrom table es left origin) (hd : left.Distinct) :
    left.length ≤ es.length := by
  have hnodup : (left.keys.map origin).Nodup := List.Nodup.map_on h.own hd
  have hsubset : left.keys.map origin ⊆ es.keys := by
    intro a ha
    obtain ⟨k, hk, rfl⟩ := List.mem_map.mp ha
    obtain ⟨n, hn⟩ := Entries.exists_get? hk
    exact Entries.mem_keys_of_get? (h.value k n hn)
  have hlength := (List.subperm_of_subset hnodup hsubset).length_le
  simpa [Entries.keys] using hlength

end MovedFrom

theorem exists_movedFrom (table : AliasTable) {es : Entries Node} (he : es.Distinct) :
    ∃ origin, MovedFrom table es (table.resolve es) origin := by
  refine resolve_induction (motive := fun left => ∃ origin, MovedFrom table es left origin) he
    ⟨id, .refl table es⟩ fun left p hd hp ih => ?_
  obtain ⟨origin, h⟩ := ih
  exact h.step hd es hp

theorem filter_step (keep : String → Bool) {given : Entries Node} {p : String × String}
    (hk : p.1 ≠ p.2 → p.1 ∈ given.keys → keep p.1 = false ∧ keep p.2 = false) (es : Entries Node) :
    (step given es p).filter (fun e => keep e.1) = es.filter (fun e => keep e.1) := by
  obtain ⟨a, c⟩ := p
  by_cases hi : a = c ∨ a ∉ given.keys
  · rw [step_of_idle given es hi]
  · simp only [not_or, not_not] at hi
    obtain ⟨ha, hc⟩ := hk hi.1 hi.2
    rcases step_cases given es a c with ⟨-, hs⟩ | ⟨-, -, -, hs⟩ | ⟨n, -, -, -, hs⟩
    · rw [hs]
    · rw [hs, Entries.filter_erase ha]
    · rw [hs, Entries.filter_insert hc, Entries.filter_erase ha]

theorem filter_resolve (table : AliasTable) {es : Entries Node} (he : es.Distinct) :
    (table.resolve es).filter (fun e => Untouched table es e.1) =
      es.filter (fun e => Untouched table es e.1) := by
  refine resolve_induction (motive := fun left => left.filter (fun e => Untouched table es e.1) =
    es.filter (fun e => Untouched table es e.1)) he rfl fun left p _ hp ih => ?_
  refine (filter_step (fun k => Untouched table es k) (fun hne ha => ?_) left).trans ih
  have hleads : table.Leads p.1 p.2 := ⟨hp, hne⟩
  simp only [decide_eq_false_iff_not]
  exact ⟨fun h => h.1 ⟨p.2, hleads⟩, fun h => h.2 p.1 ha hleads⟩

theorem mem_keys_of_reached {table before after : AliasTable} {a c : String}
    (ht : table.Distinct) (hsplit : table = before ++ (a, c) :: after) {es : Entries Node}
    (he : es.Distinct) (ha : a ∈ es.keys) : a ∈ (before.resolve es).keys := by
  have hfirst : table = (before ++ [(a, c)]) ++ after := by simp [hsplit]
  have hd : Entries.Distinct (before ++ [(a, c)]) := by
    rw [hfirst] at ht
    rw [Entries.Distinct, Entries.keys, List.map_append] at ht
    exact (List.nodup_append.mp ht).1
  obtain ⟨hbefore, hfresh⟩ := distinct_of_concat hd
  exact mem_keys_of_unprocessed hbefore he hfresh ha

/-- Whatever the table, each entry that is left has its value from an entry of its own, so that none
is made and none is there twice. The entries of keys that no alias is about are left as they are, in
their order. An alias that the map has still holds a value when the pairs before its own are done,
and its own pair, unless it is for itself, takes it out. -/
theorem resolveAliases_moves {table : AliasTable} (ht : table.Distinct) {es : Entries Node}
    (he : es.Distinct) :
    ∃ left : Entries Node, (Node.map es).resolveAliases table = .map left ∧
      (∃ origin, MovedFrom table es left origin) ∧ left.length ≤ es.length ∧
      left.filter (fun e => Untouched table es e.1) =
        es.filter (fun e => Untouched table es e.1) ∧
      ∀ before a c after, table = before ++ (a, c) :: after → a ∈ es.keys →
        (∃ n, Entries.get? a (resolve before es) = some n) ∧
        (a ≠ c → a ∉ Entries.keys (step es (resolve before es) (a, c))) := by
  obtain ⟨origin, horigin⟩ := exists_movedFrom table he
  refine ⟨table.resolve es, rfl, ⟨origin, horigin⟩,
    horigin.length_le (distinct_resolve table he), filter_resolve table he,
    fun before a c after hsplit ha => ?_⟩
  have hreached := mem_keys_of_reached ht hsplit he ha
  refine ⟨Entries.exists_get? hreached, fun hac => ?_⟩
  rw [mem_keys_step (distinct_resolve before he) hac ha hreached]
  tauto

theorem resolveAliases_moves_ring :
    (Node.map [("a", .null), ("x", .seq []), ("c", .string "C"), ("b", .string "B")]).resolveAliases
        [("a", "b"), ("b", "c"), ("c", "a")] = .map [("x", .seq []), ("a", .string "B")] ∧
      (∃ origin, MovedFrom [("a", "b"), ("b", "c"), ("c", "a")]
        [("a", .null), ("x", .seq []), ("c", .string "C"), ("b", .string "B")]
        [("x", .seq []), ("a", .string "B")] origin) ∧
      ∃ n, Entries.get? "c" (resolve [("a", "b"), ("b", "c")]
        [("a", .null), ("x", .seq []), ("c", .string "C"), ("b", .string "B")]) = some n := by
  have ht : Entries.Distinct [("a", "b"), ("b", "c"), ("c", "a")] := by decide
  have he : Entries.Distinct
      [("a", Node.null), ("x", .seq []), ("c", .string "C"), ("b", .string "B")] := by decide
  obtain ⟨left, hleft, horigin, -, -, hreached⟩ := resolveAliases_moves ht he
  obtain rfl : left = [("x", .seq []), ("a", .string "B")] := (Node.map.inj hleft).symm
  exact ⟨hleft, horigin, (hreached [("a", "b"), ("b", "c")] "c" "a" [] rfl (by decide)).1⟩

end ConfigShape.AliasTable

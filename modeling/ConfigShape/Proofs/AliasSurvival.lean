import Mathlib.Data.List.Induction
import ConfigShape.Proofs.Entries
import ConfigShape.Node.Alias

namespace ConfigShape.AliasTable

def Leads (table : AliasTable) (a c : String) : Prop := (a, c) ∈ table ∧ a ≠ c

def IsAlias (table : AliasTable) (a : String) : Prop := ∃ c, table.Leads a c

/-- The alias is in the map, and its target, if it is there too, stands before it. -/
def Wins (es : Entries Node) (a c : String) : Prop :=
  a ∈ es.keys ∧ (c ∈ es.keys → es.Precedes c a)

instance (table : AliasTable) (a c : String) : Decidable (table.Leads a c) :=
  inferInstanceAs (Decidable ((a, c) ∈ table ∧ a ≠ c))

instance (table : AliasTable) (a : String) : Decidable (table.IsAlias a) :=
  decidable_of_iff (∃ p ∈ table, p.1 = a ∧ a ≠ p.2) (by simp [IsAlias, Leads])

instance (es : Entries Node) (a c : String) : Decidable (Wins es a c) :=
  inferInstanceAs (Decidable (a ∈ es.keys ∧ (c ∈ es.keys → es.Precedes c a)))

theorem wins_iff {es : Entries Node} {a c : String} (hne : a ≠ c) :
    Wins es a c ↔ a ∈ es.keys ∧ ¬ es.Precedes a c := by
  refine and_congr_right fun ha => ⟨fun h hp => ?_, fun h hc => ?_⟩
  · exact hp.asymm (h hp.right_mem)
  · exact (Entries.precedes_or ha hc hne).resolve_left h

theorem givesWay_iff (es : Entries Node) (a c : String) :
    givesWay es a c = true ↔ es.Precedes a c := by
  unfold givesWay Entries.Precedes
  cases es.position? a <;> cases es.position? c <;> simp

theorem Leads.left_mem {table : AliasTable} {a c : String} (h : table.Leads a c) :
    a ∈ table.keys := Entries.mem_keys_of_mem h.1

theorem IsAlias.mem_keys {table : AliasTable} {a : String} (h : table.IsAlias a) :
    a ∈ table.keys := by
  obtain ⟨c, hc⟩ := h
  exact hc.left_mem

theorem Leads.unique {table : AliasTable} (ht : table.Distinct) {a c d : String}
    (hc : table.Leads a c) (hd : table.Leads a d) : c = d := by
  have h := (Entries.get?_eq_some_iff ht a c).mpr hc.1
  rw [(Entries.get?_eq_some_iff ht a d).mpr hd.1] at h
  exact (Option.some.inj h).symm

theorem leads_concat_iff (table : AliasTable) (x y a c : String) :
    Leads (table ++ [(x, y)]) a c ↔ table.Leads a c ∨ (a = x ∧ c = y ∧ x ≠ y) := by
  simp only [Leads, List.mem_append, List.mem_singleton, Prod.mk.injEq]
  constructor
  · rintro ⟨h | ⟨rfl, rfl⟩, hne⟩
    · exact Or.inl ⟨h, hne⟩
    · exact Or.inr ⟨rfl, rfl, hne⟩
  · rintro (⟨h, hne⟩ | ⟨rfl, rfl, hne⟩)
    · exact ⟨Or.inl h, hne⟩
    · exact ⟨Or.inr ⟨rfl, rfl⟩, hne⟩

theorem isAlias_concat_iff (table : AliasTable) (x y a : String) :
    IsAlias (table ++ [(x, y)]) a ↔ table.IsAlias a ∨ (a = x ∧ x ≠ y) := by
  simp only [IsAlias, leads_concat_iff, exists_or]
  refine or_congr_right ⟨?_, ?_⟩
  · rintro ⟨c, hx, -, hne⟩
    exact ⟨hx, hne⟩
  · rintro ⟨hx, hne⟩
    exact ⟨y, hx, rfl, hne⟩

theorem distinct_of_concat {table : AliasTable} {p : String × String}
    (h : Entries.Distinct (table ++ [p])) : table.Distinct ∧ p.1 ∉ table.keys := by
  simp only [Entries.Distinct, Entries.keys, List.map_append, List.map_cons, List.map_nil,
    List.nodup_append] at h
  exact ⟨h.1, fun hp => h.2.2 p.1 hp p.1 (by simp) rfl⟩

theorem step_cases (given es : Entries Node) (a c : String) :
    ((a = c ∨ a ∉ given.keys ∨ a ∉ es.keys) ∧ step given es (a, c) = es) ∨
    (a ≠ c ∧ a ∈ es.keys ∧ given.Precedes a c ∧ step given es (a, c) = es.erase a) ∨
    (∃ v, a ≠ c ∧ es.get? a = some v ∧ Wins given a c ∧
      step given es (a, c) = (es.erase a).insert c v) := by
  unfold step
  by_cases hac : a = c
  · exact Or.inl ⟨Or.inl hac, if_pos (by simp [hac])⟩
  by_cases hg : a ∈ given.keys
  · have hb : given.contains a = true := (Entries.contains_iff a given).mpr hg
    rw [if_neg (by simp [hac, hb])]
    cases hv : es.get? a with
    | none => exact Or.inl ⟨Or.inr (Or.inr ((Entries.get?_eq_none_iff a es).mp hv)), rfl⟩
    | some v =>
        have ha : a ∈ es.keys := Entries.mem_keys_of_get? hv
        by_cases hw : givesWay given a c = true
        · have hp := (givesWay_iff given a c).mp hw
          exact Or.inr (Or.inl ⟨hac, ha, hp, if_pos hw⟩)
        · have hp : Wins given a c :=
            (wins_iff hac).mpr ⟨hg, fun hp => hw ((givesWay_iff given a c).mpr hp)⟩
          exact Or.inr (Or.inr ⟨v, hac, rfl, hp, if_neg hw⟩)
  · have hb : given.contains a = false := by
      rw [Bool.eq_false_iff, ne_eq, Entries.contains_iff]
      exact hg
    exact Or.inl ⟨Or.inr (Or.inl hg), if_pos (by simp [hb])⟩

theorem step_active_cases {given es : Entries Node} {a c : String} (hac : a ≠ c)
    (hg : a ∈ given.keys) (ha : a ∈ es.keys) :
    (given.Precedes a c ∧ step given es (a, c) = es.erase a) ∨
    (∃ v, es.get? a = some v ∧ Wins given a c ∧
      step given es (a, c) = (es.erase a).insert c v) := by
  rcases step_cases given es a c with ⟨h, -⟩ | ⟨-, -, hp, h⟩ | ⟨v, -, hv, hw, h⟩
  · tauto
  · exact Or.inl ⟨hp, h⟩
  · exact Or.inr ⟨v, hv, hw, h⟩

theorem step_of_idle (given es : Entries Node) {a c : String} (h : a = c ∨ a ∉ given.keys) :
    step given es (a, c) = es := by
  refine if_pos ?_
  rcases h with h | h
  · simp [h]
  · rw [← Entries.contains_iff] at h
    simp [h]

theorem resolve_concat (table : AliasTable) (p : String × String) (es : Entries Node) :
    resolve (table ++ [p]) es = step es (table.resolve es) p := by
  simp [resolve, List.foldl_append]

theorem distinct_step (given : Entries Node) {es : Entries Node} (he : es.Distinct)
    (p : String × String) : (step given es p).Distinct := by
  obtain ⟨a, c⟩ := p
  rcases step_cases given es a c with ⟨-, h⟩ | ⟨-, -, -, h⟩ | ⟨v, -, -, -, h⟩
  · rw [h]
    exact he
  · rw [h]
    exact Entries.distinct_erase a he
  · rw [h]
    exact Entries.distinct_insert c v (Entries.distinct_erase a he)

theorem resolve_induction {table : AliasTable} {es : Entries Node} (he : es.Distinct)
    {motive : Entries Node → Prop} (start : motive es)
    (next : ∀ left p, left.Distinct → p ∈ table → motive left → motive (step es left p)) :
    motive (table.resolve es) := by
  have hall : (table.resolve es).Distinct ∧ motive (table.resolve es) :=
    List.foldlRecOn (motive := fun left => left.Distinct ∧ motive left) table (step es) ⟨he, start⟩
      fun left h p hp => ⟨distinct_step es h.1 p, next left p h.1 hp h.2⟩
  exact hall.2

theorem distinct_resolve (table : AliasTable) {es : Entries Node} (he : es.Distinct) :
    (table.resolve es).Distinct :=
  resolve_induction he he fun _ p hd _ _ => distinct_step es hd p

theorem mem_keys_step {given es : Entries Node} (he : es.Distinct) {a c : String} (hac : a ≠ c)
    (hg : a ∈ given.keys) (ha : a ∈ es.keys) (k : String) :
    k ∈ (step given es (a, c)).keys ↔ (k ∈ es.keys ∧ k ≠ a) ∨ (k = c ∧ Wins given a c) := by
  rcases step_active_cases hac hg ha with ⟨hp, h⟩ | ⟨v, -, hw, h⟩
  · have hw : ¬ Wins given a c := fun hw => ((wins_iff hac).mp hw).2 hp
    rw [h, Entries.mem_keys_erase he]
    tauto
  · rw [h, Entries.mem_keys_insert, Entries.mem_keys_erase he]
    tauto

/-- The pair for `a` gives the key `k` back for good: it comes after the pair for `k` itself, if
that one has taken the key away. -/
def Restores (table : AliasTable) (es : Entries Node) (a k : String) : Prop :=
  table.Leads a k ∧ Wins es a k ∧ (k ∈ es.keys → table.IsAlias k → table.Precedes k a)

theorem restores_concat_iff {table : AliasTable} {x y : String} (hx : x ∉ table.keys)
    (es : Entries Node) (a k : String) :
    Restores (table ++ [(x, y)]) es a k ↔
      (table.Restores es a k ∧ ¬ (k = x ∧ x ≠ y ∧ x ∈ es.keys)) ∨
      (a = x ∧ k = y ∧ x ≠ y ∧ Wins es x y) := by
  have hlast {z : String} (hz : z ∈ table.keys) :
      Entries.Precedes (table ++ [(x, y)]) z x := Entries.precedes_concat_last hz hx
  simp only [Restores, leads_concat_iff, isAlias_concat_iff]
  constructor
  · rintro ⟨hl | ⟨rfl, rfl, hne⟩, hw, hp⟩
    · have ha : a ∈ table.keys := hl.left_mem
      refine Or.inl ⟨⟨hl, hw, fun hk hal => ?_⟩, ?_⟩
      · exact (Entries.precedes_concat_iff _ hal.mem_keys ha).mp (hp hk (Or.inl hal))
      · rintro ⟨rfl, hne, hk⟩
        exact (hlast ha).asymm (hp hk (Or.inr ⟨rfl, hne⟩))
    · exact Or.inr ⟨rfl, rfl, hne, hw⟩
  · rintro (⟨⟨hl, hw, hp⟩, hn⟩ | ⟨rfl, rfl, hne, hw⟩)
    · refine ⟨Or.inl hl, hw, fun hk hal => ?_⟩
      rcases hal with hal | ⟨rfl, hne⟩
      · exact (Entries.precedes_concat_iff _ hal.mem_keys hl.left_mem).mpr (hp hk hal)
      · exact absurd ⟨rfl, hne, hk⟩ hn
    · refine ⟨Or.inr ⟨rfl, rfl, hne⟩, hw, fun hk hal => ?_⟩
      rcases hal with hal | ⟨he, -⟩
      · exact hlast hal.mem_keys
      · exact absurd he.symm hne

theorem mem_keys_resolve {table : AliasTable} (ht : table.Distinct) {es : Entries Node}
    (he : es.Distinct) (k : String) :
    k ∈ (table.resolve es).keys ↔
      (k ∈ es.keys ∧ ¬ table.IsAlias k) ∨ ∃ a, table.Restores es a k := by
  -- pairs are done from left to right, so the last of them is split off
  induction table using List.reverseRecOn generalizing k with
  | nil => simp [resolve, IsAlias, Leads, Restores]
  | append_singleton table p ih =>
      obtain ⟨x, y⟩ := p
      obtain ⟨ht, hx⟩ := distinct_of_concat ht
      have ih := ih ht
      have hd := distinct_resolve table he
      simp only [resolve_concat, isAlias_concat_iff, restores_concat_iff hx, exists_or,
        exists_eq_left, exists_and_right]
      by_cases hm : x ≠ y ∧ x ∈ es.keys
      · have hcur : x ∈ (resolve table es).keys :=
          (ih x).mpr (Or.inl ⟨hm.2, fun h => hx h.mem_keys⟩)
        rw [mem_keys_step hd hm.1 hm.2 hcur, ih k]
        simp only [hm.2, ne_eq, hm.1, not_false_eq_true, and_true, true_and, not_or,
          or_and_right, and_assoc, or_assoc]
      · rw [step_of_idle _ _ (by tauto), ih k]
        constructor
        · rintro (⟨hk, hn⟩ | hr)
          · refine Or.inl ⟨hk, ?_⟩
            rintro (h | ⟨rfl, hne⟩)
            · exact hn h
            · exact hm ⟨hne, hk⟩
          · exact Or.inr (Or.inl ⟨hr, fun h => hm h.2⟩)
        · rintro (⟨hk, hn⟩ | ⟨hr, -⟩ | ⟨-, hne, hw⟩)
          · exact Or.inl ⟨hk, fun h => hn (Or.inl h)⟩
          · exact Or.inr hr
          · exact absurd ⟨hne, hw.1⟩ hm

theorem mem_keys_of_unprocessed {table : AliasTable} (ht : table.Distinct) {es : Entries Node}
    (he : es.Distinct) {x : String} (hx : x ∉ table.keys) (hm : x ∈ es.keys) :
    x ∈ (table.resolve es).keys :=
  (mem_keys_resolve ht he x).mpr (Or.inl ⟨hm, fun h => hx h.mem_keys⟩)

/-- An alias is still a key at the end exactly when another alias wins the key and, if the map had
the key, comes after it in the table. -/
theorem alias_survives_iff {table : AliasTable} (ht : table.Distinct) {es : Entries Node}
    (he : es.Distinct) {k : String} (hk : table.IsAlias k) :
    ∃ fs, (Node.map es).resolveAliases table = .map fs ∧
      (k ∈ Entries.keys fs ↔
        ∃ a, table.Leads a k ∧ Wins es a k ∧ (k ∈ es.keys → table.Precedes k a)) := by
  refine ⟨table.resolve es, rfl, ?_⟩
  rw [mem_keys_resolve ht he]
  simp only [Restores, hk, not_true, and_false, false_or, true_implies]

theorem alias_survives_chain :
    ∃ fs, (Node.map [("a", .null)]).resolveAliases [("a", "b"), ("b", "c")] = .map fs ∧
      ("b" ∈ Entries.keys fs ↔
        ∃ a, Leads [("a", "b"), ("b", "c")] a "b" ∧ Wins [("a", .null)] a "b" ∧
          ("b" ∈ Entries.keys [("a", Node.null)] →
            Entries.Precedes [("a", "b"), ("b", "c")] "b" a)) :=
  alias_survives_iff (by decide) (by decide) (by decide)

theorem not_all_aliases_removed :
    ¬ ∀ (table : AliasTable) (es : Entries Node), table.Distinct → es.Distinct →
      ∀ k, table.IsAlias k → k ∉ (table.resolve es).keys := by
  intro h
  exact h [("a", "b"), ("b", "c")] [("a", .null)] (by decide) (by decide) "b" (by decide)
    (by decide)

/-- Everything is lost exactly when every key leads on to another key of the map that stands after
it, in the map or in the table. -/
theorem resolve_eq_nil_iff {table : AliasTable} (ht : table.Distinct) {es : Entries Node}
    (he : es.Distinct) :
    table.resolve es = [] ↔
      ∀ a ∈ es.keys, ∃ c ∈ es.keys, table.Leads a c ∧ (es.Precedes a c ∨ table.Precedes a c) := by
  have hnil : table.resolve es = [] ↔ ∀ k, k ∉ (table.resolve es).keys := by
    rw [← List.eq_nil_iff_forall_not_mem, Entries.keys, List.map_eq_nil_iff]
  rw [hnil]
  simp only [mem_keys_resolve ht he, not_or, not_and, not_not, not_exists]
  constructor
  · intro h a ha
    obtain ⟨c, hc⟩ := (h a).1 ha
    by_cases hw : Wins es a c
    · have hr : c ∈ es.keys ∧ table.IsAlias c ∧ ¬ table.Precedes c a := by
        have hr := (h c).2 a
        simp only [Restores, hc, hw, true_and] at hr
        tauto
      refine ⟨c, hr.1, hc, Or.inr ?_⟩
      exact (Entries.precedes_or hc.left_mem hr.2.1.mem_keys hc.2).resolve_right hr.2.2
    · have hp : es.Precedes a c := by
        rw [wins_iff hc.2] at hw
        tauto
      exact ⟨c, hp.right_mem, hc, Or.inl hp⟩
  · intro h k
    refine ⟨fun hk => ?_, fun a hr => ?_⟩
    · obtain ⟨c, -, hc, -⟩ := h k hk
      exact ⟨c, hc⟩
    · obtain ⟨hl, hw, hp⟩ := hr
      obtain ⟨c, hc, hl', ho⟩ := h a hw.1
      obtain rfl : c = k := hl'.unique ht hl
      obtain ⟨d, -, hd, -⟩ := h c hc
      rcases ho with ho | ho
      · exact ho.asymm (hw.2 hc)
      · exact ho.asymm (hp hc ⟨d, hd⟩)

/-- Only a ring of aliases loses everything. When each of them leads to a key of lower rank,
something is left of every map that is not empty. -/
theorem resolve_ne_nil_of_rank {table : AliasTable} (ht : table.Distinct) {es : Entries Node}
    (he : es.Distinct) (hne : es ≠ []) (rank : String → Nat)
    (hr : ∀ a c, table.Leads a c → rank c < rank a) : table.resolve es ≠ [] := by
  intro hnil
  have hnext := (resolve_eq_nil_iff ht he).mp hnil
  -- every key leads on to one of lower rank, so that no key has any rank
  have hnone (n : Nat) : ∀ a ∈ es.keys, ¬ rank a < n := by
    induction n with
    | zero => omega
    | succ n ih =>
        intro a ha hlt
        obtain ⟨c, hc, hl, -⟩ := hnext a ha
        have := hr a c hl
        exact ih c hc (by omega)
  cases es with
  | nil => exact hne rfl
  | cons e rest => exact hnone (rank e.1 + 1) e.1 (by simp [Entries.keys]) (by omega)

/-- A map keeps something exactly when one of its keys does not lead on to another of its keys that
stands after it, in the map or in the table. -/
theorem resolveAliases_isMap_iff {table : AliasTable} (ht : table.Distinct) {es : Entries Node}
    (he : es.Distinct) :
    ((Node.map es).resolveAliases table).isMap = true ↔
      ∃ a ∈ es.keys, ∀ c ∈ es.keys, table.Leads a c →
        ¬ es.Precedes a c ∧ ¬ table.Precedes a c := by
  have hm : ((Node.map es).resolveAliases table).isMap = true ↔ table.resolve es ≠ [] := by
    simp [Node.resolveAliases, Node.isMap]
  rw [hm, ne_eq, resolve_eq_nil_iff ht he]
  simp only [not_forall, not_exists, not_and, not_or, exists_prop]

theorem resolveAliases_isMap_ring :
    ((Node.map [("a", .null), ("b", .null)]).resolveAliases [("b", "a"), ("a", "b")]).isMap = true ↔
      ∃ a ∈ Entries.keys [("a", Node.null), ("b", Node.null)],
        ∀ c ∈ Entries.keys [("a", Node.null), ("b", Node.null)],
          Leads [("b", "a"), ("a", "b")] a c →
            ¬ Entries.Precedes [("a", Node.null), ("b", Node.null)] a c ∧
            ¬ Entries.Precedes [("b", "a"), ("a", "b")] a c :=
  resolveAliases_isMap_iff (by decide) (by decide)

theorem not_all_maps_kept :
    ¬ ∀ (table : AliasTable) (es : Entries Node), table.Distinct → es.Distinct → es ≠ [] →
      ((Node.map es).resolveAliases table).isMap = true := by
  intro h
  have hk := h [("b", "a"), ("a", "b")] [("a", .null), ("b", .null)] (by decide) (by decide)
    (by simp)
  exact absurd hk (by decide)

end ConfigShape.AliasTable

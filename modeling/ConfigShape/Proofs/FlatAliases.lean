import ConfigShape.Proofs.AliasSurvival

namespace ConfigShape.AliasTable

/-- No target is an alias for a key other than itself. -/
def Flat (table : AliasTable) : Prop := ∀ a c, table.Leads a c → ¬ table.IsAlias c

instance (table : AliasTable) : Decidable table.Flat :=
  decidable_of_iff (∀ p ∈ table, p.1 ≠ p.2 → ¬ table.IsAlias p.2) (by simp [Flat, Leads])

def keptKeys (table : AliasTable) (es : Entries Node) : List String :=
  es.keys.filter (fun k => decide (¬ table.IsAlias k))

/-- The targets that the map lacks, of the aliases that it has, each once in the order of the
table. -/
def newTargets (table : AliasTable) (es : Entries Node) : List String :=
  ((table.filter (fun p => decide (p.1 ≠ p.2 ∧ p.1 ∈ es.keys ∧ p.2 ∉ es.keys))).map
    Prod.snd).eraseDups

def lastWinner? (table : AliasTable) (es : Entries Node) (c : String) : Option String :=
  ((table.filter (fun p => decide (p.1 ≠ c ∧ p.2 = c ∧ Wins es p.1 c))).getLast?).map Prod.fst

/-- The value of the last alias that wins a key, or the key's own value if none does. -/
def settled? (table : AliasTable) (es : Entries Node) (c : String) : Option Node :=
  match table.lastWinner? es c with
  | some a => es.get? a
  | none => es.get? c

theorem flat_of_concat {table : AliasTable} {p : String × String} (h : Flat (table ++ [p])) :
    table.Flat := by
  obtain ⟨x, y⟩ := p
  intro a c hl hc
  exact h a c ((leads_concat_iff table x y a c).mpr (Or.inl hl))
    ((isAlias_concat_iff table x y c).mpr (Or.inl hc))

theorem mem_keptKeys (table : AliasTable) (es : Entries Node) (k : String) :
    k ∈ table.keptKeys es ↔ k ∈ es.keys ∧ ¬ table.IsAlias k := by
  simp [keptKeys]

theorem keptKeys_concat {x y : String} (hxy : x ≠ y) (table : AliasTable) (es : Entries Node) :
    keptKeys (table ++ [(x, y)]) es = (table.keptKeys es).filter (fun k => k != x) := by
  simp only [keptKeys, isAlias_concat_iff, List.filter_filter]
  congr 1
  funext k
  by_cases hk : k = x <;> simp [hk, hxy]

theorem newTargets_concat {x y : String} (hxy : x ≠ y) (table : AliasTable) {es : Entries Node}
    (hx : x ∈ es.keys) :
    newTargets (table ++ [(x, y)]) es =
      if y ∈ es.keys ∨ y ∈ table.newTargets es then table.newTargets es
      else table.newTargets es ++ [y] := by
  by_cases hy : y ∈ es.keys
  · simp [newTargets, hy]
  · have hone : [(x, y)].filter (fun p => decide (p.1 ≠ p.2 ∧ p.1 ∈ es.keys ∧ p.2 ∉ es.keys)) =
        [(x, y)] := by simp [hxy, hx, hy]
    simp only [newTargets, List.filter_append, hone, List.map_append, List.map_cons, List.map_nil,
      eraseDups_concat, hy, false_or, List.mem_eraseDups]

theorem lastWinner?_concat (table : AliasTable) (x y : String) (es : Entries Node) (c : String) :
    lastWinner? (table ++ [(x, y)]) es c =
      if x ≠ c ∧ y = c ∧ Wins es x c then some x else table.lastWinner? es c := by
  simp only [lastWinner?, List.filter_append, List.filter_cons, List.filter_nil, decide_eq_true_eq]
  split
  · rw [List.getLast?_concat, Option.map_some]
  · rw [List.append_nil]

theorem lastWinner?_eq_none {table : AliasTable} {c : String} (h : ∀ a, ¬ table.Leads a c)
    (es : Entries Node) : table.lastWinner? es c = none := by
  have hnil : table.filter (fun p => decide (p.1 ≠ c ∧ p.2 = c ∧ Wins es p.1 c)) = [] := by
    rw [List.filter_eq_nil_iff]
    rintro ⟨a, d⟩ hm hp
    obtain ⟨hne, rfl, -⟩ := of_decide_eq_true hp
    exact h a ⟨hm, hne⟩
  rw [lastWinner?, hnil]
  rfl

theorem idle_concat {x y : String} (table : AliasTable) {es : Entries Node}
    (h : x = y ∨ x ∉ es.keys) :
    keptKeys (table ++ [(x, y)]) es = table.keptKeys es ∧
    newTargets (table ++ [(x, y)]) es = table.newTargets es ∧
    ∀ c, lastWinner? (table ++ [(x, y)]) es c = table.lastWinner? es c := by
  refine ⟨?_, ?_, fun c => ?_⟩
  · refine List.filter_congr fun k hk => ?_
    have hkx : ¬ (k = x ∧ x ≠ y) := by
      rintro ⟨rfl, hne⟩
      exact h.elim hne (fun hx => hx hk)
    simp only [isAlias_concat_iff, hkx, or_false]
  · have hn : ¬ (x ≠ y ∧ x ∈ es.keys ∧ y ∉ es.keys) := by tauto
    simp only [newTargets, List.filter_append, List.filter_cons, decide_eq_true_eq, hn, if_false,
      List.filter_nil, List.append_nil]
  · rw [lastWinner?_concat, if_neg]
    rintro ⟨hne, rfl, hw⟩
    exact h.elim hne (fun hx => hx hw.1)

theorem keys_erase_kept {table : AliasTable} {x y : String} (hxy : x ≠ y) (hx : x ∉ table.keys)
    {es cur : Entries Node} (he : es.Distinct) (hm : x ∈ es.keys)
    (hcur : cur.keys = table.keptKeys es ++ table.newTargets es) :
    (cur.erase x).keys = keptKeys (table ++ [(x, y)]) es ++ table.newTargets es := by
  have hk : x ∈ table.keptKeys es :=
    (mem_keptKeys table es x).mpr ⟨hm, fun h => hx h.mem_keys⟩
  have hd : (table.keptKeys es).Nodup := List.Nodup.filter _ he
  rw [Entries.keys_erase, hcur, List.erase_append_left _ hk, hd.erase_eq_filter,
    keptKeys_concat hxy]

theorem keys_resolve_flat {table : AliasTable} (ht : table.Distinct) {es : Entries Node}
    (he : es.Distinct) (hf : table.Flat) :
    (table.resolve es).keys = table.keptKeys es ++ table.newTargets es := by
  induction table using List.reverseRecOn with
  | nil =>
      simp [resolve, keptKeys, newTargets, IsAlias, Leads]
  | append_singleton table p ih =>
      obtain ⟨x, y⟩ := p
      obtain ⟨ht, hx⟩ := distinct_of_concat ht
      have hcur := ih ht (flat_of_concat hf)
      rw [resolve_concat]
      by_cases hm : x = y ∨ x ∉ es.keys
      · obtain ⟨hk, hn, -⟩ := idle_concat table hm
        rw [step_of_idle _ _ hm, hcur, hk, hn]
      · simp only [not_or, not_not] at hm
        have hrest := keys_erase_kept hm.1 hx he hm.2 hcur
        have hy : ¬ IsAlias (table ++ [(x, y)]) y :=
          hf x y ((leads_concat_iff table x y x y).mpr (Or.inr ⟨rfl, rfl, hm.1⟩))
        rw [newTargets_concat hm.1 table hm.2]
        rcases step_active_cases hm.1 hm.2 (mem_keys_of_unprocessed ht he hx hm.2) with
          ⟨hp, h⟩ | ⟨v, -, -, h⟩
        · rw [h, hrest, if_pos (Or.inl hp.right_mem)]
        · have hmem : y ∈ keptKeys (table ++ [(x, y)]) es ++ newTargets table es ↔
              y ∈ es.keys ∨ y ∈ newTargets table es := by
            rw [List.mem_append, mem_keptKeys]
            tauto
          rw [h, Entries.keys_insert, hrest, if_congr hmem rfl rfl]
          split
          · rfl
          · rw [List.append_assoc]

theorem get?_resolve_flat {table : AliasTable} (ht : table.Distinct) {es : Entries Node}
    (he : es.Distinct) (hf : table.Flat) {c : String} (hc : ¬ table.IsAlias c) :
    (table.resolve es).get? c = table.settled? es c := by
  induction table using List.reverseRecOn generalizing c with
  | nil => rfl
  | append_singleton table p ih =>
      obtain ⟨x, y⟩ := p
      obtain ⟨ht, hx⟩ := distinct_of_concat ht
      have ih {k : String} (hk : ¬ IsAlias table k) := ih ht (flat_of_concat hf) hk
      have hct : ¬ IsAlias table c := fun h => hc ((isAlias_concat_iff table x y c).mpr (Or.inl h))
      rw [resolve_concat]
      by_cases hm : x = y ∨ x ∉ es.keys
      · rw [step_of_idle _ _ hm, ih hct, settled?, settled?, (idle_concat table hm).2.2 c]
      · simp only [not_or, not_not] at hm
        -- no alias leads to `x`, since `x` is an alias itself
        have hx0 (a : String) : ¬ Leads table a x := fun hl =>
          hf a x ((leads_concat_iff table x y a x).mpr (Or.inl hl))
            ((isAlias_concat_iff table x y x).mpr (Or.inr ⟨rfl, hm.1⟩))
        have hcx : c ≠ x := by
          rintro rfl
          exact hc ((isAlias_concat_iff table c y c).mpr (Or.inr ⟨rfl, hm.1⟩))
        have hd := distinct_resolve table he
        rcases step_active_cases hm.1 hm.2 (mem_keys_of_unprocessed ht he hx hm.2) with
          ⟨hp, h⟩ | ⟨v, hv, hw, h⟩
        · have hn : ¬ (x ≠ c ∧ y = c ∧ Wins es x c) := by
            rintro ⟨-, rfl, hw⟩
            exact ((wins_iff hm.1).mp hw).2 hp
          rw [h, Entries.get?_erase x c hd, if_neg hcx, ih hct, settled?, settled?,
            lastWinner?_concat, if_neg hn]
        · rw [h, Entries.get?_insert, Entries.get?_erase x c hd, if_neg hcx, settled?,
            lastWinner?_concat]
          by_cases hcy : c = y
          · subst hcy
            rw [if_pos rfl, if_pos ⟨hm.1, rfl, hw⟩]
            have hl := ih (fun h => hx h.mem_keys)
            rw [settled?, lastWinner?_eq_none hx0] at hl
            rw [← hv, hl]
          · rw [if_neg hcy, if_neg (by tauto), ih hct, settled?]

theorem resolve_of_no_alias (table : AliasTable) {es : Entries Node}
    (h : ∀ k ∈ es.keys, ¬ table.IsAlias k) : table.resolve es = es := by
  induction table using List.reverseRecOn with
  | nil => rfl
  | append_singleton table p ih =>
      obtain ⟨x, y⟩ := p
      have hx : x = y ∨ x ∉ es.keys := by
        by_contra hn
        simp only [not_or, not_not] at hn
        exact h x hn.2 ((isAlias_concat_iff table x y x).mpr (Or.inr ⟨rfl, hn.1⟩))
      rw [resolve_concat, ih (fun k hk ha =>
        h k hk ((isAlias_concat_iff table x y k).mpr (Or.inl ha)))]
      exact step_of_idle es es hx

theorem not_isAlias_of_mem_resolve {table : AliasTable} (ht : table.Distinct) {es : Entries Node}
    (he : es.Distinct) (hf : table.Flat) {k : String} (hk : k ∈ (table.resolve es).keys) :
    ¬ table.IsAlias k := by
  rcases (mem_keys_resolve ht he k).mp hk with ⟨-, h⟩ | ⟨a, hr⟩
  · exact h
  · exact hf a k hr.1

theorem mem_keys_resolve_flat {table : AliasTable} (ht : table.Distinct) {es : Entries Node}
    (he : es.Distinct) (hf : table.Flat) (k : String) :
    k ∈ (table.resolve es).keys ↔
      ¬ table.IsAlias k ∧ (k ∈ es.keys ∨ ∃ a ∈ es.keys, table.Leads a k) := by
  rw [mem_keys_resolve ht he]
  constructor
  · rintro (⟨hk, hn⟩ | ⟨a, hr⟩)
    · exact ⟨hn, Or.inl hk⟩
    · exact ⟨hf a k hr.1, Or.inr ⟨a, hr.2.1.1, hr.1⟩⟩
  · rintro ⟨hn, hk⟩
    by_cases hmem : k ∈ es.keys
    · exact Or.inl ⟨hmem, hn⟩
    · obtain ⟨a, ha, hl⟩ := hk.resolve_left hmem
      exact Or.inr ⟨a, hl, ⟨ha, fun h => absurd h hmem⟩, fun h => absurd h hmem⟩

theorem resolve_ne_nil_of_flat {table : AliasTable} (ht : table.Distinct) {es : Entries Node}
    (he : es.Distinct) (hf : table.Flat) (hne : es ≠ []) : table.resolve es ≠ [] := by
  refine resolve_ne_nil_of_rank ht he hne (fun k => if table.IsAlias k then 1 else 0) ?_
  intro a c hl
  rw [if_neg (hf a c hl), if_pos ⟨c, hl⟩]
  exact Nat.zero_lt_one

/-- With a flat table the map keeps its keys that are no aliases and gains the targets it lacks;
each key holds the value of the last alias that wins it; and doing it again changes nothing. -/
theorem resolveAliases_flat {table : AliasTable} (ht : table.Distinct) (hf : table.Flat)
    {es : Entries Node} (he : es.Distinct) :
    ∃ fs, (Node.map es).resolveAliases table = .map fs ∧
      Entries.keys fs = table.keptKeys es ++ table.newTargets es ∧
      (∀ c ∈ Entries.keys fs, Entries.get? c fs = table.settled? es c) ∧
      (Node.map fs).resolveAliases table = .map fs := by
  refine ⟨table.resolve es, rfl, keys_resolve_flat ht he hf, fun c hc => ?_, ?_⟩
  · exact get?_resolve_flat ht he hf (not_isAlias_of_mem_resolve ht he hf hc)
  · rw [Node.resolveAliases,
      resolve_of_no_alias table (fun k hk => not_isAlias_of_mem_resolve ht he hf hk)]

theorem resolveAliases_flat_shared_target :
    ∃ fs, (Node.map [("run", .null), ("labels", .seq []), ("commands", .null), ("env", .null),
        ("script", .seq [.null])]).resolveAliases
        [("script", "commands"), ("run", "commands"), ("env", "env"), ("labels", "tags")] =
          .map fs ∧
      Entries.keys fs = ["commands", "env", "tags"] ∧
      Entries.get? "commands" fs = some (.seq [.null]) ∧
      Entries.get? "tags" fs = some (.seq []) ∧
      (Node.map fs).resolveAliases
        [("script", "commands"), ("run", "commands"), ("env", "env"), ("labels", "tags")] =
          .map fs := by
  have ht : Entries.Distinct
      [("script", "commands"), ("run", "commands"), ("env", "env"), ("labels", "tags")] := by
    decide
  have he : Entries.Distinct [("run", Node.null), ("labels", .seq []), ("commands", .null),
      ("env", .null), ("script", .seq [.null])] := by decide
  obtain ⟨fs, h, hk, hv, hi⟩ := resolveAliases_flat ht (by decide) he
  have hk : Entries.keys fs = ["commands", "env", "tags"] := hk.trans (by decide)
  refine ⟨fs, h, hk, ?_, ?_, hi⟩
  · rw [hv "commands" (by rw [hk]; decide)]
    rfl
  · rw [hv "tags" (by rw [hk]; decide)]
    rfl

end ConfigShape.AliasTable

import ConfigShape.Proofs.AliasSurvival
import ConfigShape.Proofs.Normalization
import ConfigShape.Profile.Basic

namespace ConfigShape

/-- The keys that the rule itself can put into a map. -/
structure SectionRule.Brings (Fit : String → Prop) (rule : SectionRule) : Prop where
  target : ∀ e ∈ rule.aliases, Fit e.2
  prefixKey : ∀ key, rule.prefixKey = some key → Fit key

/-- A property that scalars and empty maps have, that sequences have from their items, and that
maps keep when entries come and go, as long as new keys are fit. -/
structure Node.RuleInvariant (Fit : String → Prop) (P : Node → Prop) : Prop where
  scalar (s : Scalar) : P (.scalar s)
  seq_iff (items : List Node) : P (.seq items) ↔ ∀ n ∈ items, P n
  empty : P (.map [])
  insert {es : Entries Node} {key : String} {n : Node} (h : P (.map es))
    (hk : Fit key ∨ key ∈ es.keys) (hn : P n) : P (.map (es.insert key n))
  erase {es : Entries Node} (key : String) (h : P (.map es)) : P (.map (es.erase key))
  value {es : Entries Node} {key : String} {n : Node} (h : P (.map es))
    (hg : es.get? key = some n) : P n

namespace Node.RuleInvariant

variable {Fit : String → Prop} {P : Node → Prop}

theorem toItems (hP : RuleInvariant Fit P) {n : Node} (h : P n) : P (.seq n.toItems) := by
  cases n with
  | seq items => exact h
  | scalar s =>
      rw [hP.seq_iff]
      cases s with
      | null => exact fun m hm => absurd hm List.not_mem_nil
      | bool | number | string =>
          intro m hm
          rw [List.mem_singleton.mp hm]
          exact h
  | map es =>
      rw [hP.seq_iff]
      cases es with
      | nil => exact fun m hm => absurd hm List.not_mem_nil
      | cons e rest =>
          intro m hm
          rw [List.mem_singleton.mp hm]
          exact h

theorem wrap (hP : RuleInvariant Fit P) {key : String} (hk : Fit key) {n : Node} (h : P n) :
    P (.map (Node.wrap key n)) :=
  hP.insert hP.empty (Or.inl hk) (hP.toItems h)

theorem toEntries (hP : RuleInvariant Fit P) {key? : Option String}
    (hk : ∀ key, key? = some key → Fit key) {n : Node} (h : P n) :
    P (.map (n.toEntries key?)) := by
  rcases Node.toEntries_cases key? n with ⟨es, -, rfl, hes⟩ | ⟨key, hkey, hw⟩ | ⟨-, hnil⟩
  · rw [hes]
    exact h
  · rw [hw]
    exact hP.wrap (hk key hkey) h
  · rw [hnil]
    exact hP.empty

theorem settle (hP : RuleInvariant Fit P) {key : String} (hk : Fit key) {es : Entries Node}
    (h : P (.map es)) : P (.map (Node.settle key es)) := by
  rw [Node.settle]
  split
  · rename_i n hn
    exact hP.insert h (Or.inl hk) (hP.toItems (hP.value h hn))
  · exact hP.insert h (Or.inl hk) (hP.toItems (hP.scalar .null))

theorem toPrefixMap (hP : RuleInvariant Fit P) {key? : Option String}
    (hk : ∀ key, key? = some key → Fit key) (others : List String) {n : Node} (h : P n) :
    P (n.toPrefixMap key? others) := by
  cases key? with
  | none => exact h
  | some key =>
      rcases Node.toPrefixMap_cases key others n with ⟨es, rfl, -, hes⟩ | hw
      · rw [hes]
        exact hP.settle (hk key rfl) h
      · rw [hw]
        exact hP.wrap (hk key rfl) h

theorem step (hP : RuleInvariant Fit P) (given : Entries Node) {es : Entries Node}
    (h : P (.map es)) {p : String × String} (hp : Fit p.2) :
    P (.map (AliasTable.step given es p)) := by
  obtain ⟨a, c⟩ := p
  rcases AliasTable.step_cases given es a c with ⟨-, hs⟩ | ⟨-, -, -, hs⟩ | ⟨v, -, hv, -, hs⟩
  · rw [hs]
    exact h
  · rw [hs]
    exact hP.erase a h
  · rw [hs]
    exact hP.insert (hP.erase a h) (Or.inl hp) (hP.value h hv)

theorem resolve (hP : RuleInvariant Fit P) {table : AliasTable} (ht : ∀ e ∈ table, Fit e.2)
    {es : Entries Node} (h : P (.map es)) : P (.map (table.resolve es)) :=
  List.foldlRecOn (motive := fun left => P (.map left)) table (AliasTable.step es) h
    fun _ hleft p hp => hP.step es hleft (ht p hp)

theorem resolveAliases (hP : RuleInvariant Fit P) {table : AliasTable}
    (ht : ∀ e ∈ table, Fit e.2) {n : Node} (h : P n) : P (n.resolveAliases table) := by
  cases n with
  | scalar | seq => exact h
  | map es => exact hP.resolve ht h

theorem apply (hP : RuleInvariant Fit P) {rule : SectionRule} (hr : rule.Brings Fit) {n : Node}
    (h : P n) : P (rule.apply n) := by
  have hn := hP.resolveAliases hr.target h
  rw [SectionRule.apply]
  split
  · exact hn
  · have hall := hP.toItems hn
    split
    · rw [hP.seq_iff] at hall ⊢
      exact fun m hm => hall m (List.mem_of_mem_filter hm)
    · exact hall
  · exact hP.toEntries hr.prefixKey hn
  · exact hP.toPrefixMap hr.prefixKey rule.defaultKeys hn
  · cases Node.toString? rule.prefixKey (n.resolveAliases rule.aliases) <;> exact hP.scalar _
  · split
    · rw [AllowList.accept?]
      split <;> exact hP.scalar _
    · exact hP.scalar _

theorem modify (hP : RuleInvariant Fit P) {f : Node → Node} (hf : ∀ n, P n → P (f n))
    (key : String) {es : Entries Node} (h : P (.map es)) : P (.map (es.modify key f)) := by
  cases hg : es.get? key with
  | none =>
      rw [Entries.modify_of_not_mem f ((Entries.get?_eq_none_iff key es).mp hg)]
      exact h
  | some n =>
      rw [Entries.modify_of_get? f hg]
      exact hP.insert h (Or.inr (Entries.mem_keys_of_get? hg)) (hf n (hP.value h hg))

theorem applySections (hP : RuleInvariant Fit P) {sections : Entries SectionRule}
    (hs : ∀ e ∈ sections, e.2.Brings Fit) {es : Entries Node} (h : P (.map es)) :
    P (.map (Profile.applySections sections es)) := by
  refine List.foldlRecOn (motive := fun acc => P (.map acc)) sections _ h
    fun acc hacc section_ hmem => ?_
  exact hP.modify (fun _ hn => hP.apply (hs section_ hmem) hn) section_.1 hacc

theorem applyProfile (hP : RuleInvariant Fit P) {p : Profile} (hp : ∀ e ∈ p.rules, e.2.Brings Fit)
    {document : Node} (h : P document) : P (p.apply document) := by
  have hroot := hP.apply (hp ("root", p.root) List.mem_cons_self) h
  rw [Profile.apply]
  split
  · rename_i es hes
    rw [hes] at hroot
    refine hP.applySections (fun e he => ?_) hroot
    exact hp ("sections." ++ e.1, e.2) (List.mem_cons_of_mem _ (List.mem_map_of_mem he))
  · exact hroot

end Node.RuleInvariant

end ConfigShape

import ConfigShape.Proofs.RuleInvariant

namespace ConfigShape

namespace Json

mutual
/-- No object in the value has a key twice. -/
def WellFormed : Json → Prop
  | .null | .bool _ | .number _ | .string _ => True
  | .array items => wellFormedItems items
  | .object members => Entries.Distinct members ∧ wellFormedMembers members

def wellFormedItems : List Json → Prop
  | [] => True
  | v :: rest => v.WellFormed ∧ wellFormedItems rest

def wellFormedMembers : List (String × Json) → Prop
  | [] => True
  | (_, v) :: rest => v.WellFormed ∧ wellFormedMembers rest
end

theorem wellFormedItems_iff (items : List Json) :
    wellFormedItems items ↔ ∀ v ∈ items, v.WellFormed := by
  induction items with
  | nil => simp [wellFormedItems]
  | cons v rest ih => simp [wellFormedItems, ih]

theorem wellFormedMembers_iff (members : List (String × Json)) :
    wellFormedMembers members ↔ ∀ e ∈ members, e.2.WellFormed := by
  induction members with
  | nil => simp [wellFormedMembers]
  | cons e rest ih => simp [wellFormedMembers, ih]

end Json

structure Profile.WellFormed (p : Profile) : Prop where
  root : p.root.aliases.Distinct
  sections : p.sections.Distinct
  aliases : ∀ e ∈ p.sections, e.2.aliases.Distinct

namespace Node

mutual
/-- What scalars have, and what sequences and maps have from their parts, all nodes have. -/
theorem induction_parts {P : Node → Prop} (scalar : ∀ s, P (.scalar s))
    (seq : ∀ items : List Node, (∀ n ∈ items, P n) → P (.seq items))
    (map : ∀ es : Entries Node, (∀ e ∈ es, P e.2) → P (.map es)) (n : Node) : P n := by
  cases n with
  | scalar s => exact scalar s
  | seq items => exact seq items (induction_parts_items scalar seq map items)
  | map es => exact map es (induction_parts_entries scalar seq map es)

theorem induction_parts_items {P : Node → Prop} (scalar : ∀ s, P (.scalar s))
    (seq : ∀ items : List Node, (∀ n ∈ items, P n) → P (.seq items))
    (map : ∀ es : Entries Node, (∀ e ∈ es, P e.2) → P (.map es)) (items : List Node) :
    ∀ n ∈ items, P n := by
  cases items with
  | nil => exact fun n hn => absurd hn List.not_mem_nil
  | cons n rest =>
      rw [List.forall_mem_cons]
      exact ⟨induction_parts scalar seq map n, induction_parts_items scalar seq map rest⟩

theorem induction_parts_entries {P : Node → Prop} (scalar : ∀ s, P (.scalar s))
    (seq : ∀ items : List Node, (∀ n ∈ items, P n) → P (.seq items))
    (map : ∀ es : Entries Node, (∀ e ∈ es, P e.2) → P (.map es)) (es : List (String × Node)) :
    ∀ e ∈ es, P e.2 := by
  cases es with
  | nil => exact fun e he => absurd he List.not_mem_nil
  | cons e rest =>
      obtain ⟨k, n⟩ := e
      rw [List.forall_mem_cons]
      exact ⟨induction_parts scalar seq map n, induction_parts_entries scalar seq map rest⟩
end

theorem wellFormedItems_iff (items : List Node) :
    wellFormedItems items ↔ ∀ n ∈ items, n.WellFormed := by
  induction items with
  | nil => simp [wellFormedItems]
  | cons n rest ih => simp [wellFormedItems, ih]

theorem wellFormedEntries_iff (es : List (String × Node)) :
    wellFormedEntries es ↔ ∀ e ∈ es, e.2.WellFormed := by
  induction es with
  | nil => simp [wellFormedEntries]
  | cons e rest ih => simp [wellFormedEntries, ih]

theorem wellFormed_seq_iff (items : List Node) :
    (Node.seq items).WellFormed ↔ ∀ n ∈ items, n.WellFormed := wellFormedItems_iff items

theorem wellFormed_map_iff (es : List (String × Node)) :
    (Node.map es).WellFormed ↔ Entries.Distinct es ∧ ∀ e ∈ es, e.2.WellFormed :=
  and_congr_right fun _ => wellFormedEntries_iff es

theorem WellFormed.insert {es : Entries Node} {n : Node} (h : (Node.map es).WellFormed)
    (hn : n.WellFormed) (key : String) : (Node.map (Entries.insert key n es)).WellFormed := by
  rw [wellFormed_map_iff] at h ⊢
  refine ⟨Entries.distinct_insert key n h.1, fun e he => ?_⟩
  rcases Entries.mem_insert he with rfl | he
  · exact hn
  · exact h.2 e he

theorem WellFormed.erase {es : Entries Node} (h : (Node.map es).WellFormed) (key : String) :
    (Node.map (Entries.erase key es)).WellFormed := by
  rw [wellFormed_map_iff] at h ⊢
  exact ⟨Entries.distinct_erase key h.1, fun e he => h.2 e (Entries.mem_erase he)⟩

theorem WellFormed.of_perm {es fs : Entries Node} (h : (Node.map es).WellFormed)
    (hp : fs.Perm es) : (Node.map fs).WellFormed := by
  rw [wellFormed_map_iff] at h ⊢
  exact ⟨h.1.perm hp, fun e he => h.2 e (hp.mem_iff.mp he)⟩

theorem WellFormed.get? {es : Entries Node} (h : (Node.map es).WellFormed) {key : String}
    {n : Node} (hg : Entries.get? key es = some n) : n.WellFormed :=
  ((wellFormed_map_iff es).mp h).2 (key, n) (Entries.mem_of_get? hg)

theorem ruleInvariant_wellFormed : RuleInvariant (fun _ => True) WellFormed where
  scalar _ := trivial
  seq_iff := wellFormed_seq_iff
  empty := ⟨List.nodup_nil, trivial⟩
  insert h _ hn := h.insert hn _
  erase key h := h.erase key
  value h hg := h.get? hg

end Node

theorem SectionRule.brings_any (rule : SectionRule) : rule.Brings (fun _ => True) :=
  ⟨fun _ _ => trivial, fun _ _ => trivial⟩

theorem SectionRule.wellFormed_apply (rule : SectionRule) {n : Node} (h : n.WellFormed) :
    (rule.apply n).WellFormed := Node.ruleInvariant_wellFormed.apply rule.brings_any h

theorem Profile.wellFormed_apply (p : Profile) {document : Node} (h : document.WellFormed) :
    (p.apply document).WellFormed :=
  Node.ruleInvariant_wellFormed.applyProfile (fun e _ => e.2.brings_any) h

end ConfigShape

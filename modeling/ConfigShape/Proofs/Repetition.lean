import ConfigShape.Proofs.FlatAliases
import ConfigShape.Proofs.Sections

namespace ConfigShape

namespace Node

theorem resolveAliases_of_not_map {table : AliasTable} {n : Node}
    (h : ∀ es, n.resolveAliases table ≠ .map es) : n.resolveAliases table = n := by
  cases n with
  | scalar | seq => rfl
  | map es => exact absurd rfl (h (table.resolve es))

theorem toString?_ofString? (key? s? : Option String) :
    (ofString? s?).toString? key? = s? := by
  cases s? <;> rfl

theorem toString?_items_ofString? (key? s? : Option String) :
    (Node.seq (ofString? s?).toItems).toString? key? = s? := by
  cases s? <;> rfl

end Node

namespace SectionRule

variable {rule : SectionRule}

theorem apply_seq_of_sequence (h : rule.shape = .sequence) (n : Node) :
    ∃ items, rule.apply n = .seq items ∧ rule.apply (.seq items) = .seq items := by
  refine ⟨_, apply_sequence h n, ?_⟩
  rw [apply_sequence h]
  cases rule.allowed with
  | none => rfl
  | some allowed =>
      have hkeep := List.filter_filter (p := allowed.allows) (q := allowed.allows)
        (l := (n.resolveAliases rule.aliases).toItems)
      simp only [Bool.and_self] at hkeep
      exact congrArg Node.seq hkeep

theorem apply_text (h : rule.shape = .string ∨ rule.shape = .enumeration) (n : Node) :
    ∃ s?, rule.apply n = Node.ofString? s? ∧
      ∀ m : Node, (m.resolveAliases rule.aliases).toString? rule.prefixKey = s? →
        rule.apply m = Node.ofString? s? := by
  rcases h with h | h
  · refine ⟨_, apply_string h n, fun m hm => ?_⟩
    rw [apply_string h, hm]
  · have hnone (m : Node) (hm : (m.resolveAliases rule.aliases).toString? rule.prefixKey = none) :
        rule.apply m = Node.ofString? none := by
      simp only [apply, h, hm]
      rfl
    cases hn : (n.resolveAliases rule.aliases).toString? rule.prefixKey with
    | none => exact ⟨none, hnone n hn, hnone⟩
    | some s =>
        have hsome (m : Node)
            (hm : (m.resolveAliases rule.aliases).toString? rule.prefixKey = some s) :
            rule.apply m =
              (AllowList.accept? (rule.allowed.getD []) (.string s)).getD .null := by
          simp only [apply, h, hm]
        by_cases hs : AllowList.allows (rule.allowed.getD []) (.string s) = true
        · simp only [AllowList.accept?, hs, if_true, Option.getD_some] at hsome
          exact ⟨some s, hsome n hn, hsome⟩
        · simp only [AllowList.accept?, hs] at hsome
          exact ⟨none, hsome n hn, hnone⟩

theorem apply_apply_of_text (h : rule.shape = .string ∨ rule.shape = .enumeration) (n : Node) :
    rule.apply (rule.apply n) = rule.apply n ∧
    rule.apply (.seq (rule.apply n).toItems) = rule.apply n := by
  obtain ⟨s?, hn, hagain⟩ := apply_text h n
  have hplain : (Node.ofString? s?).resolveAliases rule.aliases = Node.ofString? s? := by
    cases s? <;> rfl
  rw [hn]
  refine ⟨hagain _ ?_, hagain _ ?_⟩
  · rw [hplain]
    exact Node.toString?_ofString? rule.prefixKey s?
  · exact Node.toString?_items_ofString? rule.prefixKey s?

/-- No target of an alias and no prefix key is an alias itself. -/
structure Settled (rule : SectionRule) : Prop where
  flat : rule.aliases.Flat
  plainKey : ∀ key, rule.prefixKey = some key → ¬ rule.aliases.IsAlias key

structure MadeMap (rule : SectionRule) (ks : List String) : Prop where
  resolved : ∀ k ∈ ks, ¬ rule.aliases.IsAlias k
  shape : rule.shape = .keep ∨ rule.shape = .map ∨ rule.shape = .prefixMap
  unwrapped : rule.shape = .map → ks = [] → rule.prefixKey = none
  own : rule.shape = .prefixMap → ∀ key, rule.prefixKey = some key → key ∈ ks

theorem cases_of_apply_map {n : Node} {es : Entries Node} (h : rule.apply n = .map es) :
    (rule.shape = .keep ∧ n.resolveAliases rule.aliases = .map es) ∨
    (rule.shape = .map ∧ (n.resolveAliases rule.aliases).toEntries rule.prefixKey = es) ∨
    (rule.shape = .prefixMap ∧
      (n.resolveAliases rule.aliases).toPrefixMap rule.prefixKey rule.defaultKeys = .map es) := by
  cases hshape : rule.shape with
  | keep =>
      simp only [apply, hshape] at h
      exact Or.inl ⟨rfl, h⟩
  | sequence =>
      obtain ⟨items, hi, -⟩ := apply_seq_of_sequence hshape n
      rw [hi] at h
      cases h
  | map =>
      rw [apply_map hshape] at h
      exact Or.inr (Or.inl ⟨rfl, Node.map.inj h⟩)
  | prefixMap =>
      rw [apply_prefixMap hshape] at h
      exact Or.inr (Or.inr ⟨rfl, h⟩)
  | string =>
      obtain ⟨s?, hs, -⟩ := apply_text (Or.inl hshape) n
      rw [hs] at h
      cases s? <;> cases h
  | enumeration =>
      obtain ⟨s?, hs, -⟩ := apply_text (Or.inr hshape) n
      rw [hs] at h
      cases s? <;> cases h

theorem key_of_apply {n : Node} {es : Entries Node} (h : rule.apply n = .map es) {k : String}
    (hk : k ∈ es.keys) :
    rule.prefixKey = some k ∨
      ∃ fs, n.resolveAliases rule.aliases = .map fs ∧ k ∈ Entries.keys fs := by
  rcases cases_of_apply_map h with ⟨-, h⟩ | ⟨-, rfl⟩ | ⟨-, h⟩
  · exact Or.inr ⟨es, h, hk⟩
  · exact Node.keys_toEntries hk
  · exact Node.keys_toPrefixMap h hk

theorem Settled.madeMap (hs : rule.Settled) (hd : rule.aliases.Distinct) {n : Node}
    (hn : n.WellFormed) {es : Entries Node} (h : rule.apply n = .map es) :
    rule.MadeMap es.keys := by
  refine ⟨fun k hk => ?_, ?_, fun hshape hnil => ?_, fun hshape key hkey => ?_⟩
  · rcases key_of_apply h hk with hp | ⟨fs, hfs, hk⟩
    · exact hs.plainKey k hp
    · cases n with
      | scalar | seq => cases hfs
      | map given =>
          cases hfs
          have he := ((Node.wellFormed_map_iff given).mp hn).1
          exact AliasTable.not_isAlias_of_mem_resolve hd he hs.flat hk
  · rcases cases_of_apply_map h with ⟨hshape, -⟩ | ⟨hshape, -⟩ | ⟨hshape, -⟩
    · exact Or.inl hshape
    · exact Or.inr (Or.inl hshape)
    · exact Or.inr (Or.inr hshape)
  · rw [apply_map hshape] at h
    have hes : es = [] := List.map_eq_nil_iff.mp hnil
    exact Node.toEntries_eq_nil ((Node.map.inj h).trans hes)
  · rw [apply_prefixMap hshape, hkey] at h
    obtain ⟨items, hg⟩ := Node.get?_of_toPrefixMap h
    exact Entries.mem_keys_of_get? hg

def renew (rule : SectionRule) (es : Entries Node) : Entries Node :=
  match rule.shape, rule.prefixKey with
  | .prefixMap, some key => Node.settle key es
  | _, _ => es

theorem MadeMap.apply_map {es : Entries Node} (h : rule.MadeMap es.keys) :
    rule.apply (.map es) = .map (rule.renew es) := by
  have hres : (Node.map es).resolveAliases rule.aliases = .map es := by
    rw [Node.resolveAliases, AliasTable.resolve_of_no_alias rule.aliases h.resolved]
  rcases h.shape with hshape | hshape | hshape
  · simp only [apply, renew, hshape, hres]
  · simp only [apply, renew, hshape, hres]
    by_cases hes : es = []
    · subst hes
      rw [h.unwrapped hshape rfl]
      rfl
    · rw [Node.toEntries_cons rule.prefixKey hes]
  · cases hkey : rule.prefixKey with
    | none => simp only [apply, renew, hshape, hres, hkey, Node.toPrefixMap]
    | some key =>
        simp only [apply, renew, hshape, hres, hkey]
        exact Node.toPrefixMap_own (h.own hshape key hkey) rule.defaultKeys

/-- What the rule still does to the value of a key: the value of its prefix key becomes items. -/
def retouch (rule : SectionRule) (key : String) (n : Node) : Node :=
  if rule.shape = .prefixMap ∧ rule.prefixKey = some key then .seq n.toItems else n

theorem MadeMap.keys_renew {es : Entries Node} (h : rule.MadeMap es.keys) :
    (rule.renew es).keys = es.keys := by
  unfold renew
  split
  · rename_i key hshape hkey
    rw [Node.keys_settle, if_pos (h.own hshape key hkey)]
  · rfl

theorem MadeMap.get?_renew {es : Entries Node} (h : rule.MadeMap es.keys) (k : String) :
    (rule.renew es).get? k = (es.get? k).map (rule.retouch k) := by
  by_cases hk : rule.shape = .prefixMap ∧ rule.prefixKey = some k
  · obtain ⟨v, hv⟩ := Entries.exists_get? (h.own hk.1 k hk.2)
    simp only [renew, hk.1, hk.2, Node.get?_settle, hv, retouch, and_self, if_true,
      Option.map_some, Option.getD_some]
  · have hid : rule.retouch k = id := by
      funext n
      simp only [retouch, hk, if_false, id]
    rw [hid, Option.map_id, id]
    unfold renew
    split
    · rename_i key hshape hkey
      have hne : k ≠ key := by
        rintro rfl
        exact hk ⟨hshape, hkey⟩
      rw [Node.get?_settle, if_neg hne]
    · rfl

theorem renew_of_apply {n : Node} {es : Entries Node} (h : rule.apply n = .map es) :
    rule.renew es = es := by
  unfold renew
  split
  · rename_i key hshape hkey
    rw [apply_prefixMap hshape, hkey] at h
    obtain ⟨items, hg⟩ := Node.get?_of_toPrefixMap h
    exact Node.settle_eq_self hg
  · rfl

theorem retouch_of_apply {n : Node} {es : Entries Node} (h : rule.apply n = .map es) {k : String}
    {v : Node} (hv : es.get? k = some v) : rule.retouch k v = v := by
  by_cases hk : rule.shape = .prefixMap ∧ rule.prefixKey = some k
  · rw [apply_prefixMap hk.1, hk.2] at h
    obtain ⟨items, hg⟩ := Node.get?_of_toPrefixMap h
    rw [hg] at hv
    cases hv
    simp only [retouch, hk, and_self, if_true, Node.toItems]
  · exact if_neg hk

theorem apply_apply_of_not_map {n : Node} (h : ∀ es, rule.apply n ≠ .map es) :
    rule.apply (rule.apply n) = rule.apply n := by
  -- a node that is only looked through for aliases is the same node
  have hsame (he : rule.apply n = n.resolveAliases rule.aliases) :
      rule.apply (rule.apply n) = rule.apply n := by
    have hn : rule.apply n = n := by
      rw [he] at h ⊢
      exact Node.resolveAliases_of_not_map h
    rw [hn, hn]
  cases hshape : rule.shape with
  | keep =>
      apply hsame
      simp only [apply, hshape]
  | sequence =>
      obtain ⟨items, hi, hagain⟩ := apply_seq_of_sequence hshape n
      rw [hi, hagain]
  | map => exact absurd (apply_map hshape n) (h _)
  | prefixMap =>
      cases hkey : rule.prefixKey with
      | none =>
          apply hsame
          simp only [apply, hshape, hkey, Node.toPrefixMap]
      | some key =>
          obtain ⟨es, items, hes, -⟩ :=
            Node.toPrefixMap_some key rule.defaultKeys (n.resolveAliases rule.aliases)
          rw [← hkey, ← apply_prefixMap hshape] at hes
          exact absurd hes (h es)
  | string => exact (apply_apply_of_text (Or.inl hshape) n).1
  | enumeration => exact (apply_apply_of_text (Or.inr hshape) n).1

theorem Settled.apply_apply (hs : rule.Settled) (hd : rule.aliases.Distinct) {n : Node}
    (hn : n.WellFormed) : rule.apply (rule.apply n) = rule.apply n := by
  by_cases hm : ∃ es : Entries Node, rule.apply n = .map es
  · obtain ⟨es, hes⟩ := hm
    have hmade := hs.madeMap hd hn hes
    rw [hes, hmade.apply_map, renew_of_apply hes]
  · exact apply_apply_of_not_map fun es hes => hm ⟨es, hes⟩

theorem apply_items_of_apply
    (h : rule.shape = .map ∨ rule.shape = .prefixMap → rule.prefixKey = none) (items : List Node) :
    rule.apply (.seq (rule.apply (.seq items)).toItems) = rule.apply (.seq items) := by
  cases hshape : rule.shape with
  | keep =>
      have hn (xs : List Node) : rule.apply (.seq xs) = .seq xs := by
        simp only [apply, hshape, Node.resolveAliases]
      rw [hn, hn]
      rfl
  | sequence =>
      obtain ⟨xs, hxs, hagain⟩ := apply_seq_of_sequence hshape (.seq items)
      rw [hxs, Node.toItems, hagain]
  | map =>
      have hn (xs : List Node) : rule.apply (.seq xs) = .map [] := by
        rw [apply_map hshape, h (Or.inl hshape)]
        rfl
      rw [hn, hn]
  | prefixMap =>
      have hn (xs : List Node) : rule.apply (.seq xs) = .seq xs := by
        rw [apply_prefixMap hshape, h (Or.inr hshape)]
        rfl
      rw [hn, hn]
      rfl
  | string => exact (apply_apply_of_text (Or.inl hshape) _).2
  | enumeration => exact (apply_apply_of_text (Or.inr hshape) _).2

end SectionRule

namespace Profile

/-- Each rule finds no alias in what it has made, and the section under the prefix key of the root
is not put under a key of its own. -/
structure Settled (p : Profile) : Prop where
  rules : ∀ e ∈ p.rules, e.2.Settled
  prefixSection : p.root.shape = .prefixMap → ∀ key, p.root.prefixKey = some key →
    ∀ rule, p.sections.get? key = some rule →
      rule.shape = .map ∨ rule.shape = .prefixMap → rule.prefixKey = none

theorem WellFormed.aliases_of_get? {p : Profile} (hp : p.WellFormed) {name : String}
    {rule : SectionRule} (h : p.sections.get? name = some rule) : rule.aliases.Distinct :=
  hp.aliases (name, rule) (Entries.mem_of_get? h)

/-- The rule of a section undoes what the root rule does to the section when it has its shape. -/
theorem reshape_retouch_reshape {p : Profile} (hp : p.WellFormed) (hs : p.Settled)
    {document : Node} (hd : document.WellFormed) {es : Entries Node}
    (hes : p.root.apply document = .map es) {k : String} {v : Node} (hv : es.get? k = some v) :
    reshape p.sections k (p.root.retouch k (reshape p.sections k v)) = reshape p.sections k v := by
  cases hr : p.sections.get? k with
  | none =>
      have hid (n : Node) : reshape p.sections k n = n := by simp only [reshape, hr]
      rw [hid, hid]
      exact SectionRule.retouch_of_apply hes hv
  | some rule =>
      have hrule (n : Node) : reshape p.sections k n = rule.apply n := by simp only [reshape, hr]
      rw [hrule, hrule]
      by_cases hk : p.root.shape = .prefixMap ∧ p.root.prefixKey = some k
      · have hseq : v = .seq v.toItems := by
          have hret := SectionRule.retouch_of_apply hes hv
          rw [SectionRule.retouch, if_pos hk] at hret
          exact hret.symm
        rw [SectionRule.retouch, if_pos hk, hseq]
        exact SectionRule.apply_items_of_apply (hs.prefixSection hk.1 k hk.2 rule hr) v.toItems
      · have hw := p.root.wellFormed_apply hd
        rw [hes] at hw
        rw [SectionRule.retouch, if_neg hk]
        exact (hs.rules _ (mem_rules_of_get? hr)).apply_apply (hp.aliases_of_get? hr) (hw.get? hv)

theorem Settled.apply_apply {p : Profile} (hs : p.Settled) (hp : p.WellFormed) {document : Node}
    (hd : document.WellFormed) : p.apply (p.apply document) = p.apply document := by
  have hroot : p.root.Settled := hs.rules ("root", p.root) List.mem_cons_self
  by_cases hm : ∃ es : Entries Node, p.root.apply document = .map es
  · obtain ⟨es, hes⟩ := hm
    have hw := p.root.wellFormed_apply hd
    rw [hes, Node.wellFormed_map_iff] at hw
    have hkeys := keys_applySections p.sections es
    have hmade : p.root.MadeMap (applySections p.sections es).keys := by
      rw [hkeys]
      exact hroot.madeMap hp.root hd hes
    have hdistinct : (applySections p.sections es).Distinct := by
      rw [Entries.Distinct, hkeys]
      exact hw.1
    rw [apply_of_map hes, apply_of_map hmade.apply_map]
    refine congrArg Node.map (Entries.eq_of_get? hdistinct ?_ fun k => ?_).symm
    · rw [keys_applySections p.sections (p.root.renew _), hmade.keys_renew]
    · rw [get?_applySections hp.sections, get?_applySections hp.sections, hmade.get?_renew,
        get?_applySections hp.sections]
      cases hv : es.get? k with
      | none => rfl
      | some v =>
          simp only [Option.map_some]
          rw [reshape_retouch_reshape hp hs hd hes hv]
  · have hnot : ∀ es, p.root.apply document ≠ .map es := fun es hes => hm ⟨es, hes⟩
    have hagain := hroot.apply_apply hp.root hd
    rw [apply_of_not_map hnot]
    rw [← hagain] at hnot
    rw [apply_of_not_map hnot, hagain]

/-- A settled profile changes nothing in what it has made; and a rule for sequences, texts or
enumerations changes nothing in what it has made, whatever its aliases are. -/
theorem apply_idempotent :
    (∀ p : Profile, p.WellFormed → p.Settled → ∀ document : Node, document.WellFormed →
      p.apply (p.apply document) = p.apply document) ∧
    (∀ rule : SectionRule,
      rule.shape = .sequence ∨ rule.shape = .string ∨ rule.shape = .enumeration →
        ∀ n : Node, rule.apply (rule.apply n) = rule.apply n) := by
  refine ⟨fun p hp hs document hd => hs.apply_apply hp hd, fun rule hshape n => ?_⟩
  rcases hshape with hshape | hshape
  · obtain ⟨items, hi, hagain⟩ := SectionRule.apply_seq_of_sequence hshape n
    rw [hi, hagain]
  · exact (SectionRule.apply_apply_of_text hshape n).1

theorem apply_idempotent_script :
    ∃ p : Profile, ∃ rule : SectionRule, p.WellFormed ∧ p.Settled ∧
      p.apply (.map [("run", .string "make"), ("env", .string "CI=1")]) =
        .map [("env", .map [("global", .seq [.string "CI=1"])]), ("script", .string "make")] ∧
      p.apply (p.apply (.map [("run", .string "make"), ("env", .string "CI=1")])) =
        p.apply (.map [("run", .string "make"), ("env", .string "CI=1")]) ∧
      rule.apply (.map [("a", .null), ("b", .string "x")]) = .seq [.map [("a", .string "x")]] ∧
      rule.apply (rule.apply (.map [("a", .null), ("b", .string "x")])) =
        rule.apply (.map [("a", .null), ("b", .string "x")]) := by
  let p : Profile :=
    ⟨⟨.prefixMap, some "script", ["env"], [("run", "script")], none⟩,
      [("script", ⟨.string, none, [], [], none⟩),
        ("env", ⟨.prefixMap, some "global", [], [], none⟩)]⟩
  have hw : p.WellFormed := by
    refine ⟨by decide, by decide, fun e he => ?_⟩
    simp only [p, List.mem_cons, List.not_mem_nil, or_false] at he
    rcases he with rfl | rfl <;> decide
  have hs : p.Settled := by
    constructor
    · intro e he
      simp only [p, rules, List.map_cons, List.map_nil, List.mem_cons, List.not_mem_nil,
        or_false] at he
      rcases he with rfl | rfl | rfl
      · refine ⟨by decide, ?_⟩
        rintro key ⟨⟩
        decide
      · refine ⟨by decide, ?_⟩
        rintro key ⟨⟩
      · refine ⟨by decide, ?_⟩
        rintro key ⟨⟩
        decide
    · rintro - key ⟨⟩ rule ⟨⟩ (h | h) <;> cases h
  have hd : (Node.map [("run", .string "make"), ("env", .string "CI=1")]).WellFormed := by
    rw [Node.wellFormed_map_iff]
    refine ⟨by decide, ?_⟩
    simp [Node.WellFormed]
  refine ⟨p, ⟨.sequence, none, [], [("a", "b"), ("b", "a")], none⟩, hw, hs, rfl, ?_, ?_, ?_⟩
  · exact apply_idempotent.1 p hw hs _ hd
  · rfl
  · exact apply_idempotent.2 _ (Or.inl rfl) _

end Profile

end ConfigShape

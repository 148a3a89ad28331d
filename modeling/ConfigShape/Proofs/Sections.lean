import ConfigShape.Proofs.Reading

namespace ConfigShape

namespace AllowList

def Permits (allowed : AllowList) (n : Node) : Prop := ∃ a ∈ allowed, a.same n = true

/-- The chosen nodes are the permitted ones of all, in their order and as often as they come: there
is no greater part of all that holds permitted nodes only. -/
structure Selects (allowed : AllowList) (all chosen : List Node) : Prop where
  sublist : chosen.Sublist all
  permitted : ∀ n ∈ chosen, allowed.Permits n
  greatest : ∀ other : List Node, other.Sublist all → (∀ n ∈ other, allowed.Permits n) →
    other.Sublist chosen

theorem allows_iff (allowed : AllowList) (n : Node) :
    allowed.allows n = true ↔ allowed.Permits n := by
  simp [allows, Permits]

theorem selects_keep (allowed : AllowList) (all : List Node) :
    allowed.Selects all (allowed.keep all) where
  sublist := List.filter_sublist
  permitted n hn := (allowed.allows_iff n).mp (List.of_mem_filter hn)
  greatest other hs hp := by
    have hkeep : other.filter allowed.allows = other :=
      List.filter_eq_self.mpr fun n hn => (allowed.allows_iff n).mpr (hp n hn)
    have hfilter := hs.filter allowed.allows
    rw [hkeep] at hfilter
    exact hfilter

theorem permits_string_iff (allowed : AllowList) (s : String) :
    allowed.Permits (.string s) ↔ Node.string s ∈ allowed := by
  have hsame (a : Node) : a.same (.string s) = true ↔ a = .string s := by
    cases a with
    | scalar leaf => cases leaf <;> simp [Node.same, Scalar.same]
    | seq | map => simp [Node.same]
  simp [Permits, hsame]

end AllowList

namespace SectionRule

structure Shaped (rule : SectionRule) (given made : Node) : Prop where
  sequence : rule.shape = .sequence → ∃ items, made = .seq items ∧
    items.Sublist (given.resolveAliases rule.aliases).toItems ∧
    (∀ allowed, rule.allowed = some allowed →
      AllowList.Selects allowed (given.resolveAliases rule.aliases).toItems items) ∧
    (rule.allowed = none → items = (given.resolveAliases rule.aliases).toItems)
  map : rule.shape = .map → ∃ es, made = .map es
  prefixMap : rule.shape = .prefixMap → ∀ key, rule.prefixKey = some key →
    ∃ es items, made = .map es ∧ Entries.get? key es = some (.seq items)
  string : rule.shape = .string → made = .null ∨ ∃ s, made = .string s
  enumeration : rule.shape = .enumeration → ∃ allowed, rule.allowed = some allowed ∧
    (made = .null ∨ ∃ s, made = .string s ∧ Node.string s ∈ allowed)

theorem apply_sequence {rule : SectionRule} (h : rule.shape = .sequence) (n : Node) :
    rule.apply n =
      .seq (match rule.allowed with
        | some allowed => allowed.keep (n.resolveAliases rule.aliases).toItems
        | none => (n.resolveAliases rule.aliases).toItems) := by
  simp only [apply, h]
  cases rule.allowed <;> rfl

theorem apply_map {rule : SectionRule} (h : rule.shape = .map) (n : Node) :
    rule.apply n = .map ((n.resolveAliases rule.aliases).toEntries rule.prefixKey) := by
  simp only [apply, h]

theorem apply_prefixMap {rule : SectionRule} (h : rule.shape = .prefixMap) (n : Node) :
    rule.apply n =
      (n.resolveAliases rule.aliases).toPrefixMap rule.prefixKey rule.defaultKeys := by
  simp only [apply, h]

theorem apply_string {rule : SectionRule} (h : rule.shape = .string) (n : Node) :
    rule.apply n = Node.ofString? ((n.resolveAliases rule.aliases).toString? rule.prefixKey) := by
  simp only [apply, h]

theorem apply_enumeration_cases {rule : SectionRule} (h : rule.shape = .enumeration) (n : Node) :
    rule.apply n = .null ∨
      ∃ s, rule.apply n = .string s ∧ AllowList.Permits (rule.allowed.getD []) (.string s) := by
  simp only [apply, h]
  cases (n.resolveAliases rule.aliases).toString? rule.prefixKey with
  | none => exact Or.inl rfl
  | some s =>
      by_cases hs : AllowList.allows (rule.allowed.getD []) (.string s) = true
      · refine Or.inr ⟨s, ?_, (AllowList.allows_iff _ _).mp hs⟩
        simp [AllowList.accept?, hs]
      · refine Or.inl ?_
        simp [AllowList.accept?, hs]

theorem shaped_apply {rule : SectionRule} (hl : Profile.lacksList rule = false) (n : Node) :
    rule.Shaped n (rule.apply n) where
  sequence h := by
    rw [apply_sequence h]
    cases ha : rule.allowed with
    | none =>
        refine ⟨_, rfl, List.Sublist.refl _, ?_, fun _ => rfl⟩
        rintro allowed ⟨⟩
    | some allowed =>
        have hs := allowed.selects_keep (n.resolveAliases rule.aliases).toItems
        refine ⟨_, rfl, hs.sublist, ?_, ?_⟩
        · rintro _ ⟨⟩
          exact hs
        · rintro ⟨⟩
  map h := ⟨_, apply_map h n⟩
  prefixMap h key hk := by
    rw [apply_prefixMap h, hk]
    exact Node.toPrefixMap_some key rule.defaultKeys _
  string h := by
    rw [apply_string h]
    cases (n.resolveAliases rule.aliases).toString? rule.prefixKey with
    | none => exact Or.inl rfl
    | some s => exact Or.inr ⟨s, rfl⟩
  enumeration h := by
    cases ha : rule.allowed with
    | none =>
        simp only [Profile.lacksList, h, ha] at hl
        cases hl
    | some allowed =>
        refine ⟨allowed, rfl, ?_⟩
        rcases apply_enumeration_cases h n with hnull | ⟨s, hs, hp⟩
        · exact Or.inl hnull
        · rw [ha] at hp
          exact Or.inr ⟨s, hs, (allowed.permits_string_iff s).mp hp⟩

end SectionRule

namespace Profile

def reshape (sections : Entries SectionRule) (name : String) (n : Node) : Node :=
  match sections.get? name with
  | some rule => rule.apply n
  | none => n

theorem keys_applySections (sections : Entries SectionRule) (es : Entries Node) :
    (applySections sections es).keys = es.keys := by
  induction sections generalizing es with
  | nil => rfl
  | cons section_ rest ih =>
      rw [applySections, List.foldl_cons]
      exact (ih _).trans (Entries.keys_modify _ _ es)

/-- No section is touched by the rule of another. -/
theorem get?_applySections {sections : Entries SectionRule} (hs : sections.Distinct)
    (es : Entries Node) (k : String) :
    (applySections sections es).get? k = (es.get? k).map (reshape sections k) := by
  induction sections generalizing es with
  | nil =>
      have hid : reshape [] k = id := rfl
      rw [hid, Option.map_id]
      rfl
  | cons section_ rest ih =>
      obtain ⟨name, rule⟩ := section_
      simp only [Entries.Distinct, Entries.keys, List.map_cons, List.nodup_cons] at hs
      have hrest : applySections ((name, rule) :: rest) es =
          applySections rest (es.modify name rule.apply) := rfl
      rw [hrest, ih hs.2, Entries.get?_modify]
      by_cases hk : k = name
      · subst hk
        have hn : Entries.get? k rest = none := (Entries.get?_eq_none_iff k rest).mpr hs.1
        have hfirst : reshape ((k, rule) :: rest) k = rule.apply := by
          funext n
          simp [reshape]
        have hlast : reshape rest k = id := by
          funext n
          simp [reshape, hn]
        rw [if_pos rfl, hfirst, hlast, Option.map_id, id]
      · have hne : name ≠ k := fun h => hk h.symm
        have hsame : reshape ((name, rule) :: rest) k = reshape rest k := by
          funext n
          simp [reshape, hne]
        rw [if_neg hk, hsame]

theorem apply_of_map {p : Profile} {document : Node} {es : Entries Node}
    (h : p.root.apply document = .map es) :
    p.apply document = .map (applySections p.sections es) := by
  simp only [apply, h]

theorem apply_of_not_map {p : Profile} {document : Node}
    (h : ∀ es, p.root.apply document ≠ .map es) : p.apply document = p.root.apply document := by
  rw [apply]
  split
  · rename_i es hes
    exact absurd hes (h es)
  · rfl

theorem mem_rules_of_get? {p : Profile} {name : String} {rule : SectionRule}
    (h : p.sections.get? name = some rule) : ("sections." ++ name, rule) ∈ p.rules := by
  refine List.mem_cons_of_mem _ ?_
  exact List.mem_map.mpr ⟨(name, rule), Entries.mem_of_get? h, rfl⟩

/-- With a profile that is accepted, if the root rule gives a map, every section of it that is
there in the end comes from the section of that name, and has the shape of its rule. -/
theorem sections_shaped {text : String} {p : Profile} (hp : Profile.parse text = .ok p)
    {document : Node} {es : Entries Node} (hes : p.root.apply document = .map es) :
    ∃ fs, p.apply document = .map fs ∧
      ∀ name rule, p.sections.get? name = some rule →
        ∀ made, Entries.get? name fs = some made →
          ∃ given, es.get? name = some given ∧ rule.Shaped given made := by
  obtain ⟨hw, hl⟩ := accepted_of_parse hp
  refine ⟨applySections p.sections es, apply_of_map hes, fun name rule hr made hm => ?_⟩
  rw [get?_applySections hw.sections, Option.map_eq_some_iff] at hm
  obtain ⟨given, hg, rfl⟩ := hm
  have hmade : reshape p.sections name given = rule.apply given := by
    simp only [reshape, hr]
  refine ⟨given, hg, ?_⟩
  rw [hmade]
  exact SectionRule.shaped_apply (hl _ (mem_rules_of_get? hr)) given

set_option maxRecDepth 4000 in
theorem sections_shaped_systems :
    ∃ p fs, Profile.parse "\x7b\"sections\":
          \x7b\"os\": \x7b\"shape\": \"sequence\", \"allowed\": [\"linux\"]\x7d,
          \"dist\": [\"enum\", \"name\", [], \x7b\x7d, [\"focal\"]]\x7d\x7d" = .ok p ∧
      p.apply (.map [("os", .seq [.string "linux", .string "bsd", .string "linux"]),
          ("dist", .map [("name", .string "focal")])]) = .map fs ∧
      Entries.keys fs = ["os", "dist"] ∧
      ∀ name rule, p.sections.get? name = some rule →
        ∀ made, Entries.get? name fs = some made →
          ∃ given, Entries.get? name
              [("os", Node.seq [.string "linux", .string "bsd", .string "linux"]),
                ("dist", .map [("name", .string "focal")])] = some given ∧
            rule.Shaped given made := by
  have hp : Profile.parse "\x7b\"sections\":
          \x7b\"os\": \x7b\"shape\": \"sequence\", \"allowed\": [\"linux\"]\x7d,
          \"dist\": [\"enum\", \"name\", [], \x7b\x7d, [\"focal\"]]\x7d\x7d" =
      .ok ⟨SectionRule.plain,
        [("os", ⟨.sequence, none, [], [], some [.string "linux"]⟩),
          ("dist", ⟨.enumeration, some "name", [], [], some [.string "focal"]⟩)]⟩ := rfl
  have hes : SectionRule.plain.apply
        (.map [("os", .seq [.string "linux", .string "bsd", .string "linux"]),
          ("dist", .map [("name", .string "focal")])]) =
      .map [("os", .seq [.string "linux", .string "bsd", .string "linux"]),
        ("dist", .map [("name", .string "focal")])] := rfl
  obtain ⟨fs, hfs, hall⟩ := sections_shaped hp hes
  refine ⟨_, fs, hp, hfs, ?_, hall⟩
  cases hfs
  rfl

end Profile

end ConfigShape

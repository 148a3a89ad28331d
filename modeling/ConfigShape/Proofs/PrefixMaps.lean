import ConfigShape.Proofs.FlatAliases
import ConfigShape.Proofs.Lifting
import ConfigShape.Proofs.Sections

namespace ConfigShape.Node

def OwnMap (key : String) (others : List String) (es : Entries Node) : Prop :=
  ∃ k ∈ key :: others, k ∈ es.keys

instance (key : String) (others : List String) (es : Entries Node) :
    Decidable (OwnMap key others es) :=
  inferInstanceAs (Decidable (∃ k ∈ key :: others, k ∈ es.keys))

def withItems (key : String) (es : Entries Node) : Entries Node :=
  es.map (fun e => if e.1 = key then (e.1, .seq e.2.toItems) else e) ++
    if key ∈ es.keys then [] else [(key, .seq [])]

/-- The entries of a prefix map, step by step: the key is put in if it is missing, the map is looked
through for the section's keys and goes under the key if it has none, and in the end items are made
of the value of the key. -/
def prefixEntries (key : String) (others : List String) : Node → Entries Node
  | .map es =>
    let filled := if key ∈ Entries.keys es then es else es ++ [(key, .seq [])]
    let merged :=
      if key ∈ Entries.keys es ∨
          (others ≠ [] ∧ ∃ k ∈ others, k ≠ key ∧ k ∈ Entries.keys es) then filled
      else [(key, .map es)]
    Entries.modify key (fun n => .seq n.toItems) merged
  | n => [(key, .seq n.toItems)]

theorem ownMap_iff (key : String) (others : List String) (es : Entries Node) :
    OwnMap key others es ↔ key ∈ es.keys ∨ ∃ k ∈ others, k ≠ key ∧ k ∈ es.keys := by
  simp only [OwnMap, List.exists_mem_cons_iff]
  constructor
  · rintro (h | ⟨k, hk, hes⟩)
    · exact Or.inl h
    · by_cases he : k = key
      · exact Or.inl (he ▸ hes)
      · exact Or.inr ⟨k, hk, he, hes⟩
  · rintro (h | ⟨k, hk, -, hes⟩)
    · exact Or.inl h
    · exact Or.inr ⟨k, hk, hes⟩

theorem isOwnMap_iff (key : String) (others : List String) (es : Entries Node) :
    isOwnMap key others es = true ↔ OwnMap key others es := by
  rw [ownMap_iff]
  simp [isOwnMap, Entries.contains_iff]

theorem toPrefixMap_of_own {key : String} {others : List String} {es : Entries Node}
    (h : OwnMap key others es) :
    (Node.map es).toPrefixMap (some key) others = .map (settle key es) :=
  toPrefixMap_of_isOwnMap ((isOwnMap_iff key others es).mpr h)

theorem toPrefixMap_of_not_own {key : String} {others : List String} {n : Node}
    (h : ∀ es, n = .map es → ¬ OwnMap key others es) :
    n.toPrefixMap (some key) others = .map (wrap key n) := by
  rcases toPrefixMap_cases key others n with ⟨es, hn, hown, -⟩ | hw
  · exact absurd ((isOwnMap_iff key others es).mp hown) (h es hn)
  · exact hw

theorem toPrefixMap_map_of_not_own {key : String} {others : List String} {es : Entries Node}
    (h : ¬ OwnMap key others es) :
    (Node.map es).toPrefixMap (some key) others = .map (wrap key (.map es)) :=
  toPrefixMap_of_not_own fun _ he => Node.map.inj he ▸ h

theorem settle_of_mem {key : String} {es : Entries Node} (h : key ∈ es.keys) :
    settle key es = es.modify key (fun n => .seq n.toItems) := by
  obtain ⟨n, hn⟩ := Entries.exists_get? h
  rw [Entries.modify_of_get? _ hn, settle, hn]

theorem settle_of_not_mem {key : String} {es : Entries Node} (h : key ∉ es.keys) :
    settle key es = es ++ [(key, .seq [])] := by
  rw [settle, (Entries.get?_eq_none_iff key es).mpr h]
  exact Entries.insert_of_not_mem _ h

theorem settle_eq_withItems (key : String) {es : Entries Node} (hd : es.Distinct) :
    settle key es = withItems key es := by
  by_cases h : key ∈ es.keys
  · rw [settle_of_mem h, withItems, if_pos h, List.append_nil, Entries.modify_eq_map _ hd]
  · have hsame : es.map (fun e => if e.1 = key then (e.1, Node.seq e.2.toItems) else e) = es := by
      rw [← Entries.modify_eq_map (fun n => Node.seq n.toItems) hd, Entries.modify_of_not_mem _ h]
    rw [settle_of_not_mem h, withItems, if_neg h, hsame]

theorem settle_eq_modify (key : String) (es : Entries Node) :
    settle key es =
      Entries.modify key (fun n => .seq n.toItems)
        (if key ∈ es.keys then es else es ++ [(key, .seq [])]) := by
  by_cases h : key ∈ es.keys
  · rw [if_pos h, settle_of_mem h]
  · have hfilled : Entries.get? key (es ++ [(key, .seq [])]) = some (Node.seq []) := by
      rw [← settle_of_not_mem h, get?_settle, if_pos rfl, (Entries.get?_eq_none_iff key es).mpr h]
      rfl
    rw [if_neg h, settle_of_not_mem h, Entries.modify_of_get? _ hfilled]
    exact (Entries.insert_of_get? hfilled).symm

theorem toPrefixMap_eq_prefixEntries (key : String) (others : List String) (n : Node) :
    n.toPrefixMap (some key) others = .map (prefixEntries key others n) := by
  cases n with
  | scalar | seq => rfl
  | map es =>
      have hlook : (key ∈ Entries.keys es ∨
          (others ≠ [] ∧ ∃ k ∈ others, k ≠ key ∧ k ∈ Entries.keys es)) ↔
            OwnMap key others es := by
        rw [ownMap_iff]
        refine or_congr_right (and_iff_right_of_imp ?_)
        rintro ⟨k, hk, -⟩
        exact List.ne_nil_of_mem hk
      simp only [prefixEntries, hlook]
      by_cases hown : OwnMap key others es
      · rw [toPrefixMap_of_own hown, if_pos hown, ← settle_eq_modify]
      · have hone : Entries.modify key (fun n => Node.seq n.toItems) [(key, .map es)] =
            wrap key (.map es) := by
          rw [Entries.modify, if_pos rfl, wrap]
        rw [toPrefixMap_map_of_not_own hown, if_neg hown, hone]

theorem toPrefixMap_toPrefixMap (key : String) (others : List String) (n : Node) :
    (n.toPrefixMap (some key) others).toPrefixMap (some key) others =
      n.toPrefixMap (some key) others := by
  obtain ⟨es, items, hes, hg⟩ := toPrefixMap_some key others n
  rw [hes, toPrefixMap_own (Entries.mem_keys_of_get? hg), settle_eq_self hg]

theorem toPrefixMap_congr {key : String} {others others' : List String}
    (h : ∀ k, k ≠ key → (k ∈ others' ↔ k ∈ others)) (n : Node) :
    n.toPrefixMap (some key) others' = n.toPrefixMap (some key) others := by
  have hown (es : Entries Node) : OwnMap key others' es ↔ OwnMap key others es := by
    simp only [ownMap_iff]
    refine or_congr_right (exists_congr fun k => ?_)
    by_cases hk : k = key
    · simp [hk]
    · simp [h k hk]
  by_cases hn : ∃ es, n = .map es ∧ OwnMap key others es
  · obtain ⟨es, rfl, hes⟩ := hn
    rw [toPrefixMap_of_own hes, toPrefixMap_of_own ((hown es).mpr hes)]
  · simp only [not_exists, not_and] at hn
    rw [toPrefixMap_of_not_own hn,
      toPrefixMap_of_not_own fun es he => mt (hown es).mp (hn es he)]

/-- The prefix map is the one that the steps give. A map with one of the section's keys keeps its
entries in their order, with items under the prefix key, and anything else gives the items under the
prefix key alone. Doing it again changes nothing, and of the other keys only the set of those that
are not the prefix key matters. -/
theorem toPrefixMap_by_steps (key : String) (others : List String) {n : Node}
    (hn : n.WellFormed) :
    n.toPrefixMap (some key) others = .map (prefixEntries key others n) ∧
    (∀ es, n = .map es → OwnMap key others es →
      n.toPrefixMap (some key) others = .map (withItems key es)) ∧
    ((∀ es, n = .map es → ¬ OwnMap key others es) →
      n.toPrefixMap (some key) others = .map [(key, .seq n.toItems)]) ∧
    (n.toPrefixMap (some key) others).toPrefixMap (some key) others =
      n.toPrefixMap (some key) others ∧
    ∀ others', (∀ k, k ≠ key → (k ∈ others' ↔ k ∈ others)) →
      n.toPrefixMap (some key) others' = n.toPrefixMap (some key) others := by
  refine ⟨toPrefixMap_eq_prefixEntries key others n, ?_, toPrefixMap_of_not_own,
    toPrefixMap_toPrefixMap key others n, fun others' h => toPrefixMap_congr h n⟩
  rintro es rfl hown
  rw [toPrefixMap_of_own hown, settle_eq_withItems key ((wellFormed_map_iff es).mp hn).1]

theorem toPrefixMap_by_steps_global :
    ∃ n : Node, n = .map [("global", .null), ("FOO", .string "bar")] ∧ n.WellFormed ∧
      n.toPrefixMap (some "jobs") ["jobs", "global", "global"] =
        .map [("global", .null), ("FOO", .string "bar"), ("jobs", .seq [])] ∧
      n.toPrefixMap (some "jobs") ["global"] =
        n.toPrefixMap (some "jobs") ["jobs", "global", "global"] := by
  have hw : (Node.map [("global", .null), ("FOO", .string "bar")]).WellFormed := by
    simp [Node.WellFormed, Node.wellFormedEntries, Entries.Distinct, Entries.keys]
  obtain ⟨-, hown, -, -, hset⟩ := toPrefixMap_by_steps "jobs" ["jobs", "global", "global"] hw
  refine ⟨_, rfl, hw, hown _ rfl (by decide), hset ["global"] fun k hk => ?_⟩
  simp [hk]

def FilledMaps (n : Node) : Prop :=
  n ≠ .map [] ∧ ∀ es, n = .map es → ∀ e ∈ es, e.2 ≠ .map []

theorem liftInvariant_filledMaps : Raw.LiftInvariant (fun _ n => n.FilledMaps) where
  scalar s := ⟨Node.noConfusion, fun es h => by cases h⟩
  empty := ⟨Node.noConfusion, fun es h => by cases h⟩
  sequence es ns hc hp := ⟨Node.noConfusion, fun es h => by cases h⟩
  map es ns hk hp := by
    have hne := ((Raw.keysAreNames_iff es).mp hk).1
    refine ⟨fun h => Raw.named_ne_nil hp hne (Node.map.inj h), ?_⟩
    rintro _ ⟨⟩ e he
    obtain ⟨-, -, -, hfilled⟩ := Raw.exists_of_mem_named hp he
    exact hfilled.1

def firstText? (n : Node) : Option String := n.firstItem?.bind plainText?

theorem firstText?_toItems {n : Node} (h : n ≠ .map []) :
    firstText? (.seq n.toItems) = firstText? n := by
  cases n with
  | scalar s => cases s <;> rfl
  | seq items => rfl
  | map es =>
      cases es with
      | nil => exact absurd rfl h
      | cons e rest => rfl

theorem toString?_of_isMap_eq_false {n : Node} (h : n.isMap = false) (key? : Option String) :
    n.toString? key? = firstText? n := by
  simp only [toString?, h, firstText?]
  rfl

theorem toString?_map (key : String) {es : Entries Node} (h : es ≠ []) :
    (Node.map es).toString? (some key) = (Entries.get? key es).bind firstText? := by
  have hmap : (Node.map es).isMap = true := by simpa [isMap] using h
  simp only [toString?, hmap, if_true, Option.bind_some, item?, get?]
  cases Entries.get? key es with
  | none => rfl
  | some n =>
      -- null counts as missing on the way, but it has no text either
      by_cases hnull : n = .null
      · subst hnull
        rfl
      · have hn : n.isNull = false := by
          unfold isNull
          split
          · exact absurd rfl hnull
          · rfl
        simp only [hn, firstText?, Option.bind_some]
        rfl

theorem toString?_wrap {n : Node} (h : n ≠ .map []) (key : String) :
    (Node.map (wrap key n)).toString? (some key) = firstText? n := by
  have hne : wrap key n ≠ [] := List.cons_ne_nil _ _
  rw [toString?_map key hne, wrap, Entries.get?_cons, if_pos rfl,
    Option.bind_some, firstText?_toItems h]

theorem toString?_settle {key : String} {es : Entries Node} (hne : es ≠ [])
    (h : ∀ e ∈ es, e.2 ≠ .map []) :
    (Node.map (settle key es)).toString? (some key) = (Node.map es).toString? (some key) := by
  have hne' : settle key es ≠ [] := by
    intro hnil
    have hk := get?_settle key key es
    rw [hnil, if_pos rfl] at hk
    cases hk
  rw [toString?_map key hne', toString?_map key hne, get?_settle, if_pos rfl]
  cases hg : Entries.get? key es with
  | none => rfl
  | some n => exact firstText?_toItems (h _ (Entries.mem_of_get? hg))

/-- A section that classification gives has the same text, or none, as a prefix map and before,
exactly if it is no map or its own. Another map has its JSON text afterwards and had none. -/
theorem toString?_toPrefixMap_iff {r : Raw} {n : Node} (h : r.lift = .ok n) (key : String)
    (others : List String) :
    (n.toPrefixMap (some key) others).toString? (some key) = n.toString? (some key) ↔
      ∀ es, n = .map es → es ≠ [] → OwnMap key others es := by
  obtain ⟨hn, hvalues⟩ := liftInvariant_filledMaps.of_liftAt r "$" n h
  by_cases hmap : ∃ es : Entries Node, n = .map es
  · obtain ⟨es, rfl⟩ := hmap
    have hne : es ≠ [] := fun hnil => hn (congrArg Node.map hnil)
    by_cases hown : OwnMap key others es
    · rw [toPrefixMap_of_own hown, toString?_settle hne (hvalues es rfl)]
      simp [hown]
    · have hnone : Entries.get? key es = none := by
        rw [Entries.get?_eq_none_iff]
        exact fun hk => hown ⟨key, List.mem_cons_self, hk⟩
      have htext : (firstText? (.map es)).isSome = true := rfl
      rw [toPrefixMap_map_of_not_own hown, toString?_wrap hn,
        toString?_map key hne, hnone, Option.bind_none, ← Option.not_isSome_iff_eq_none, htext]
      simp [hown, hne]
  · simp only [not_exists] at hmap
    have hplain : n.isMap = false := by
      cases n with
      | scalar | seq => rfl
      | map es => exact absurd rfl (hmap es)
    rw [toPrefixMap_of_not_own fun es hes => absurd hes (hmap es), toString?_wrap hn,
      toString?_of_isMap_eq_false hplain]
    simp [hmap]

theorem toString?_toPrefixMap_iff_nested :
    ∃ n : Node, n = .map [("name", .map [("a", .null)]), ("version", .seq [])] ∧
      Raw.lift (.container [(.name "name", .container [(.name "a", .scalar .null)]),
        (.name "version", .container [])]) = .ok n ∧
      n.toPrefixMap (some "name") [] =
        .map [("name", .seq [.map [("a", .null)]]), ("version", .seq [])] ∧
      (n.toPrefixMap (some "name") []).toString? (some "name") = n.toString? (some "name") := by
  have h : Raw.lift (.container [(.name "name", .container [(.name "a", .scalar .null)]),
      (.name "version", .container [])]) =
        .ok (.map [("name", .map [("a", .null)]), ("version", .seq [])]) := rfl
  refine ⟨_, rfl, h, rfl, (toString?_toPrefixMap_iff h "name" []).mpr ?_⟩
  rintro es ⟨⟩ -
  decide

end ConfigShape.Node

namespace ConfigShape.SectionRule

/-- The map has a key of the section that is no alias, or an alias that leads to one. -/
def Reached (rule : SectionRule) (key : String) (es : Entries Node) : Prop :=
  ∃ k ∈ key :: rule.defaultKeys, ¬ rule.aliases.IsAlias k ∧
    (k ∈ es.keys ∨ ∃ a ∈ es.keys, rule.aliases.Leads a k)

instance (rule : SectionRule) (key : String) (es : Entries Node) :
    Decidable (rule.Reached key es) :=
  inferInstanceAs (Decidable (∃ k ∈ key :: rule.defaultKeys, ¬ rule.aliases.IsAlias k ∧
    (k ∈ es.keys ∨ ∃ a ∈ es.keys, rule.aliases.Leads a k)))

theorem ownMap_resolve_iff {rule : SectionRule} (ht : rule.aliases.Distinct)
    (hf : rule.aliases.Flat) (key : String) {es : Entries Node} (he : es.Distinct) :
    Node.OwnMap key rule.defaultKeys (rule.aliases.resolve es) ↔ rule.Reached key es := by
  simp only [Node.OwnMap, Reached, AliasTable.mem_keys_resolve_flat ht he hf]

theorem wrap_ne_withItems {key : String} {others : List String} {es : Entries Node} (hne : es ≠ [])
    (h : ¬ Node.OwnMap key others es) (n : Node) : Node.wrap key n ≠ Node.withItems key es := by
  have hk : key ∉ es.keys := fun hk => h ⟨key, List.mem_cons_self, hk⟩
  intro heq
  have hlength := congrArg List.length heq
  simp only [Node.wrap, Node.withItems, hk, if_false, List.length_append, List.length_map,
    List.length_singleton] at hlength
  exact hne (List.eq_nil_of_length_eq_zero (by omega))

/-- A rule for prefix maps looks at the keys that the aliases lead to. It keeps the entries of a map
when one of them is a key of the section, and otherwise puts all of them together under the prefix
key. -/
theorem apply_prefixMap_flat {rule : SectionRule} (hs : rule.shape = .prefixMap) {key : String}
    (hk : rule.prefixKey = some key) (ht : rule.aliases.Distinct) (hf : rule.aliases.Flat)
    {es : Entries Node} (he : es.Distinct) (hne : es ≠ []) :
    ∃ left : Entries Node, (Node.map es).resolveAliases rule.aliases = .map left ∧
      (rule.apply (.map es) = .map (Node.withItems key left) ↔ rule.Reached key es) ∧
      (¬ rule.Reached key es → rule.apply (.map es) = .map [(key, .seq [.map left])]) := by
  have hleft := AliasTable.resolve_ne_nil_of_flat ht he hf hne
  have happly : rule.apply (.map es) =
      (Node.map (rule.aliases.resolve es)).toPrefixMap (some key) rule.defaultKeys := by
    rw [apply_prefixMap hs, hk]
    rfl
  have hwrap (hr : ¬ rule.Reached key es) :
      rule.apply (.map es) = .map (Node.wrap key (.map (rule.aliases.resolve es))) := by
    rw [happly]
    exact Node.toPrefixMap_map_of_not_own (mt (ownMap_resolve_iff ht hf key he).mp hr)
  refine ⟨rule.aliases.resolve es, rfl, ⟨fun h => ?_, fun hr => ?_⟩, fun hr => ?_⟩
  · by_contra hr
    rw [hwrap hr] at h
    exact wrap_ne_withItems hleft (mt (ownMap_resolve_iff ht hf key he).mp hr) _ (Node.map.inj h)
  · have hown := (ownMap_resolve_iff ht hf key he).mpr hr
    rw [happly, Node.toPrefixMap_of_own hown,
      Node.settle_eq_withItems key (AliasTable.distinct_resolve rule.aliases he)]
  · rw [hwrap hr, Node.wrap, Node.toItems_map hleft]

theorem apply_prefixMap_flat_axes :
    ∃ rule : SectionRule, rule =
        ⟨.prefixMap, some "jobs", ["global", "matrix"], [("matrix", "axes"), ("vars", "global")],
          none⟩ ∧
      rule.apply (.map [("matrix", .string "A")]) =
        .map [("jobs", .seq [.map [("axes", .string "A")]])] ∧
      rule.apply (.map [("vars", .string "B"), ("FOO", .string "C")]) =
        .map [("FOO", .string "C"), ("global", .string "B"), ("jobs", .seq [])] := by
  let rule : SectionRule :=
    ⟨.prefixMap, some "jobs", ["global", "matrix"], [("matrix", "axes"), ("vars", "global")], none⟩
  have hs : rule.shape = .prefixMap := rfl
  have ht : rule.aliases.Distinct := by decide
  have hf : rule.aliases.Flat := by decide
  have he : Entries.Distinct [("matrix", Node.string "A")] := by decide
  have he' : Entries.Distinct [("vars", Node.string "B"), ("FOO", .string "C")] := by decide
  obtain ⟨left, hleft, -, hwrapped⟩ :=
    apply_prefixMap_flat hs rfl ht hf he (List.cons_ne_nil _ _)
  obtain ⟨kept, hkept, hown, -⟩ :=
    apply_prefixMap_flat hs rfl ht hf he' (List.cons_ne_nil _ _)
  obtain rfl : left = [("axes", .string "A")] := (Node.map.inj hleft).symm
  obtain rfl : kept = [("FOO", .string "C"), ("global", .string "B")] := (Node.map.inj hkept).symm
  exact ⟨rule, rfl, hwrapped (by decide), hown.mpr (by decide)⟩

end ConfigShape.SectionRule

import ConfigShape.Proofs.Canonical
import ConfigShape.Proofs.Classification
import ConfigShape.Proofs.Sections

namespace ConfigShape

namespace Node

mutual
def AllKeys (Fit : String → Prop) : Node → Prop
  | .scalar _ => True
  | .seq items => allKeysItems Fit items
  | .map es => allKeysEntries Fit es

def allKeysItems (Fit : String → Prop) : List Node → Prop
  | [] => True
  | n :: rest => n.AllKeys Fit ∧ allKeysItems Fit rest

def allKeysEntries (Fit : String → Prop) : List (String × Node) → Prop
  | [] => True
  | (k, n) :: rest => Fit k ∧ n.AllKeys Fit ∧ allKeysEntries Fit rest
end

abbrev PlainKeys (n : Node) : Prop := n.AllKeys (fun k => ¬ RawKey.IsIndexText k)

variable {Fit : String → Prop}

theorem allKeysItems_iff (items : List Node) :
    allKeysItems Fit items ↔ ∀ n ∈ items, n.AllKeys Fit := by
  induction items with
  | nil => simp [allKeysItems]
  | cons n rest ih => simp [allKeysItems, ih]

theorem allKeysEntries_iff (es : List (String × Node)) :
    allKeysEntries Fit es ↔ ∀ e ∈ es, Fit e.1 ∧ e.2.AllKeys Fit := by
  induction es with
  | nil => simp [allKeysEntries]
  | cons e rest ih => simp [allKeysEntries, ih, and_assoc]

theorem allKeys_map_iff (es : List (String × Node)) :
    (Node.map es).AllKeys Fit ↔ ∀ e ∈ es, Fit e.1 ∧ e.2.AllKeys Fit := allKeysEntries_iff es

theorem ruleInvariant_allKeys (Fit : String → Prop) : RuleInvariant Fit (AllKeys Fit) where
  scalar _ := trivial
  seq_iff := allKeysItems_iff
  empty := trivial
  insert {es key n} h hk hn := by
    rw [allKeys_map_iff] at h ⊢
    intro e he
    rcases Entries.mem_insert he with rfl | he
    · refine ⟨hk.elim id fun hmem => ?_, hn⟩
      obtain ⟨f, hf, rfl⟩ := List.mem_map.mp hmem
      exact (h f hf).1
    · exact h e he
  erase key h := by
    rw [allKeys_map_iff] at h ⊢
    exact fun e he => h e (Entries.mem_erase he)
  value {es key n} h hg := ((allKeys_map_iff es).mp h (key, n) (Entries.mem_of_get? hg)).2

theorem Canonical.plainKeys {n : Node} (h : n.Canonical) : n.PlainKeys := by
  induction n using induction_parts with
  | scalar s => trivial
  | seq items ih =>
      rw [Canonical, canonicalItems_iff] at h
      rw [PlainKeys, AllKeys, allKeysItems_iff]
      exact fun n hn => ih n hn (h n hn)
  | map es ih =>
      rw [Canonical, canonicalEntries_iff] at h
      rw [PlainKeys, AllKeys, allKeysEntries_iff]
      exact fun e he => ⟨(h.2 e he).1, ih e he (h.2 e he).2⟩

mutual
/-- The node with an empty sequence for every empty map. -/
def emptyAsSeq : Node → Node
  | .scalar s => .scalar s
  | .seq items => .seq (emptyAsSeqItems items)
  | .map [] => .seq []
  | .map ((k, n) :: rest) => .map ((k, n.emptyAsSeq) :: emptyAsSeqEntries rest)

def emptyAsSeqItems : List Node → List Node
  | [] => []
  | n :: rest => n.emptyAsSeq :: emptyAsSeqItems rest

def emptyAsSeqEntries : List (String × Node) → List (String × Node)
  | [] => []
  | (k, n) :: rest => (k, n.emptyAsSeq) :: emptyAsSeqEntries rest
end

theorem not_countsUp {k : String} {ks : List String} (h : ¬ RawKey.IsIndexText k) :
    ¬ CountsUp (k :: ks) := by
  rintro ⟨hks, -⟩
  rw [List.length_cons, List.range_succ_eq_map, List.map_cons, List.cons.injEq] at hks
  exact h ⟨0, by decide, hks.1⟩

mutual
theorem classified_of_plainKeys {n : Node} (h : n.PlainKeys) : n.classified = n.emptyAsSeq := by
  cases n with
  | scalar s => rfl
  | seq items => rw [classified, emptyAsSeq, classifiedItems_of_plainKeys h]
  | map es =>
      cases es with
      | nil => rfl
      | cons e rest =>
          obtain ⟨k, n⟩ := e
          have hnot : ¬ ((k, n) :: rest = [] ∨ CountsUp (Entries.keys ((k, n) :: rest))) := by
            rintro (hnil | hup)
            · cases hnil
            · exact not_countsUp h.1 hup
          rw [classified, if_neg hnot, emptyAsSeq, classifiedEntries,
            classified_of_plainKeys h.2.1, classifiedEntries_of_plainKeys h.2.2]

theorem classifiedItems_of_plainKeys {items : List Node}
    (h : allKeysItems (fun k => ¬ RawKey.IsIndexText k) items) :
    classifiedItems items = emptyAsSeqItems items := by
  cases items with
  | nil => rfl
  | cons n rest =>
      rw [classifiedItems, emptyAsSeqItems, classified_of_plainKeys h.1,
        classifiedItems_of_plainKeys h.2]

theorem classifiedEntries_of_plainKeys {es : List (String × Node)}
    (h : allKeysEntries (fun k => ¬ RawKey.IsIndexText k) es) :
    classifiedEntries es = emptyAsSeqEntries es := by
  cases es with
  | nil => rfl
  | cons e rest =>
      obtain ⟨k, n⟩ := e
      rw [classifiedEntries, emptyAsSeqEntries, classified_of_plainKeys h.2.1,
        classifiedEntries_of_plainKeys h.2.2]
end

mutual
theorem unmixed_of_plainKeys {n : Node} (h : n.PlainKeys) : n.toJson.Unmixed := by
  cases n with
  | scalar s => exact Json.unmixed_toJson s
  | seq items =>
      rw [toJson, Json.unmixed_array_iff]
      exact unmixedItems_of_plainKeys h
  | map es =>
      rw [toJson, Json.unmixed_object_iff, Raw.keys_toJsonMembers]
      refine ⟨?_, unmixedMembers_of_plainKeys h⟩
      rintro ⟨⟨k, hk, hi⟩, -⟩
      obtain ⟨e, he, rfl⟩ := List.mem_map.mp hk
      exact ((allKeys_map_iff es).mp h e he).1 hi

theorem unmixedItems_of_plainKeys {items : List Node}
    (h : allKeysItems (fun k => ¬ RawKey.IsIndexText k) items) :
    ∀ v ∈ toJsonItems items, v.Unmixed := by
  cases items with
  | nil => exact fun v hv => absurd hv List.not_mem_nil
  | cons n rest =>
      rw [toJsonItems, List.forall_mem_cons]
      exact ⟨unmixed_of_plainKeys h.1, unmixedItems_of_plainKeys h.2⟩

theorem unmixedMembers_of_plainKeys {es : List (String × Node)}
    (h : allKeysEntries (fun k => ¬ RawKey.IsIndexText k) es) :
    ∀ e ∈ toJsonMembers es, e.2.Unmixed := by
  cases es with
  | nil => exact fun v hv => absurd hv List.not_mem_nil
  | cons e rest =>
      obtain ⟨k, n⟩ := e
      rw [toJsonMembers, List.forall_mem_cons]
      exact ⟨unmixed_of_plainKeys h.2.1, unmixedMembers_of_plainKeys h.2.2⟩
end

mutual
theorem WellFormed.toJson {n : Node} (h : n.WellFormed) : n.toJson.WellFormed := by
  cases n with
  | scalar s => cases s <;> trivial
  | seq items => exact wellFormed_toJsonItems h
  | map es =>
      refine ⟨?_, wellFormed_toJsonMembers h.2⟩
      rw [Entries.Distinct, Raw.keys_toJsonMembers]
      exact h.1

theorem wellFormed_toJsonItems {items : List Node} (h : wellFormedItems items) :
    Json.wellFormedItems (toJsonItems items) := by
  cases items with
  | nil => trivial
  | cons n rest => exact ⟨h.1.toJson, wellFormed_toJsonItems h.2⟩

theorem wellFormed_toJsonMembers {es : List (String × Node)} (h : wellFormedEntries es) :
    Json.wellFormedMembers (toJsonMembers es) := by
  cases es with
  | nil => trivial
  | cons e rest => exact ⟨h.1.toJson, wellFormed_toJsonMembers h.2⟩
end

/-- Any well-formed node without indices among its keys can be read back. -/
theorem lift_ofJson_plainKeys {n : Node} (hw : n.WellFormed) (hk : n.PlainKeys) :
    Raw.lift (Raw.ofJson n.toJson) = .ok n.emptyAsSeq := by
  rw [Raw.lift_ofJson_ok_iff hw.toJson, ofJson_toJson, classified_of_plainKeys hk]
  exact ⟨unmixed_of_plainKeys hk, rfl⟩

theorem lift_of_ofJsonText {text : String} {n : Node} (h : ofJsonText text = .ok n) :
    ∃ v, Json.parse text = .ok v ∧ (Raw.ofJson v).lift = .ok n := by
  simp only [ofJsonText, bind_eq_ok_iff, mapError_eq_ok_iff] at h
  exact h

theorem canonical_of_decoded {text : String} {n : Node}
    (h : ofJsonText text = .ok n ∨ ofYamlText text = .ok n) : n.Canonical ∧ n.WellFormed := by
  rcases h with h | h
  · obtain ⟨v, -, hl⟩ := lift_of_ofJsonText h
    exact ⟨Raw.canonical_of_lift (Raw.plainNames_ofJson v) hl, Raw.wellFormed_of_lift hl⟩
  · simp only [ofYamlText, bind_eq_ok_iff, mapError_eq_ok_iff] at h
    obtain ⟨v, -, r, hr, hl⟩ := h
    exact ⟨Raw.canonical_of_lift (Raw.plainNames_ofYamlAt "$" v r hr) hl, Raw.wellFormed_of_lift hl⟩

end Node

namespace Profile

/-- A document that either decoder gives is normalized into one that can be decoded again, if the
profile does not bring in an index as a prefix key or as the target of an alias. Then the empty
maps have become empty sequences, and all else is as it was. -/
theorem lift_toJson_apply {text : String} {document : Node}
    (hd : Node.ofJsonText text = .ok document ∨ Node.ofYamlText text = .ok document)
    {p : Profile} (hp : ∀ e ∈ p.rules, e.2.Brings (fun k => ¬ RawKey.IsIndexText k)) :
    Raw.lift (Raw.ofJson (p.apply document).toJson) = .ok (p.apply document).emptyAsSeq := by
  obtain ⟨hc, hw⟩ := Node.canonical_of_decoded hd
  have hinv := Node.ruleInvariant_allKeys (fun k => ¬ RawKey.IsIndexText k)
  exact Node.lift_ofJson_plainKeys (p.wellFormed_apply hw) (hinv.applyProfile hp hc.plainKeys)

theorem lift_toJson_apply_addons :
    ∃ p : Profile, (∀ e ∈ p.rules, e.2.Brings (fun k => ¬ RawKey.IsIndexText k)) ∧
      Node.ofJsonText "\x7b\"rvm\":[true],\"addons\":\"apt\"\x7d" =
        .ok (.map [("rvm", .seq [.scalar (.bool true)]), ("addons", .string "apt")]) ∧
      Raw.lift (Raw.ofJson (p.apply
          (.map [("rvm", .seq [.scalar (.bool true)]), ("addons", .string "apt")])).toJson) =
        .ok (.map [("addons", .seq []), ("ruby", .seq [.scalar (.bool true)])]) := by
  let p : Profile := ⟨⟨.keep, none, [], [("rvm", "ruby")], none⟩,
    [("addons", ⟨.map, none, [], [], none⟩)]⟩
  have hplain : ¬ RawKey.IsIndexText "ruby" :=
    RawKey.not_isIndexText_of_mem (c := 'r') (by decide) (by decide) (by decide)
  have hp : ∀ e ∈ p.rules, e.2.Brings (fun k => ¬ RawKey.IsIndexText k) := by
    intro e he
    simp only [p, rules, List.map_cons, List.map_nil, List.mem_cons, List.not_mem_nil,
      or_false] at he
    rcases he with rfl | rfl
    · refine ⟨fun e he => ?_, ?_⟩
      · rw [List.mem_singleton.mp he]
        exact hplain
      · rintro key ⟨⟩
    · refine ⟨fun e he => absurd he List.not_mem_nil, ?_⟩
      rintro key ⟨⟩
  have hd : Node.ofJsonText "\x7b\"rvm\":[true],\"addons\":\"apt\"\x7d" =
      .ok (.map [("rvm", .seq [.scalar (.bool true)]), ("addons", .string "apt")]) := rfl
  exact ⟨p, hp, hd, lift_toJson_apply (Or.inl hd) hp⟩

end Profile

end ConfigShape

import ConfigShape.Proofs.Classification
import ConfigShape.Proofs.SameContent
import ConfigShape.Proofs.Sections

namespace ConfigShape

namespace Node

theorem get?_classifiedEntries {es : Entries Node} (hd : es.Distinct) {e : String × Node}
    (he : e ∈ es) : Entries.get? e.1 (classifiedEntries es) = some e.2.classified := by
  have hclassified : Entries.Distinct (classifiedEntries es) := by
    rw [Entries.Distinct, keys_classifiedEntries]
    exact hd
  rw [Entries.get?_eq_some_iff hclassified, classifiedEntries_eq_map]
  exact List.mem_map_of_mem (f := fun e => (e.1, e.2.classified)) he

mutual
theorem classified_of_same {n : Node} (hw : n.WellFormed) (h : n.same n.classified = true) :
    n.classified = n := by
  cases n with
  | scalar s => rfl
  | seq items => rw [classified, classifiedItems_of_same hw h]
  | map es =>
      rw [classified] at h ⊢
      split at h
      · -- no map has the content of a sequence
        cases h
      · rename_i hkeys
        rw [same, Bool.and_eq_true] at h
        rw [if_neg hkeys, classifiedEntries_of_same hw.2 (fun e => get?_classifiedEntries hw.1) h.2]

theorem classifiedItems_of_same {items : List Node} (hw : wellFormedItems items)
    (h : sameItems items (classifiedItems items) = true) : classifiedItems items = items := by
  cases items with
  | nil => rfl
  | cons n rest =>
      rw [classifiedItems, sameItems, Bool.and_eq_true] at h
      rw [classifiedItems, classified_of_same hw.1 h.1, classifiedItems_of_same hw.2 h.2]

theorem classifiedEntries_of_same {es : List (String × Node)} {fs : Entries Node}
    (hw : wellFormedEntries es) (hf : ∀ e ∈ es, fs.get? e.1 = some e.2.classified)
    (h : sameEntries es fs = true) : classifiedEntries es = es := by
  cases es with
  | nil => rfl
  | cons e rest =>
      obtain ⟨k, n⟩ := e
      rw [List.forall_mem_cons] at hf
      simp only [sameEntries, hf.1, Bool.and_eq_true] at h
      rw [classifiedEntries, classified_of_same hw.1 h.1,
        classifiedEntries_of_same hw.2 hf.2 h.2]
end

theorem same_classified_iff {n : Node} (hw : n.WellFormed) :
    n.same n.classified = true ↔ n.classified = n := by
  refine ⟨classified_of_same hw, fun h => ?_⟩
  rw [h]
  exact same_self hw

mutual
theorem classified_ofJson_iff (v : Json) :
    (ofJson v).classified = ofJson v ↔ v.ObjectFree CountsUp := by
  cases v with
  | null => exact iff_of_true rfl (Json.objectFree_toJson CountsUp .null)
  | bool b => exact iff_of_true rfl (Json.objectFree_toJson CountsUp (.bool b))
  | number n => exact iff_of_true rfl (Json.objectFree_toJson CountsUp (.number n))
  | string s => exact iff_of_true rfl (Json.objectFree_toJson CountsUp (.string s))
  | array items =>
      rw [Json.objectFree_array_iff, ← classifiedItems_ofJsonItems_iff items, ofJson, classified,
        Node.seq.injEq]
  | object members =>
      rw [Json.objectFree_object_iff, ← classifiedEntries_ofJsonMembers_iff members, ofJson,
        classified, keys_ofJsonMembers]
      by_cases hup : CountsUp (Entries.keys members)
      · simp [hup]
      · have hne : ofJsonMembers members ≠ [] := by
          rintro hnil
          have hkeys := keys_ofJsonMembers members
          rw [hnil] at hkeys
          exact hup (hkeys ▸ ⟨rfl, by decide⟩)
        simp [hup, hne]

theorem classifiedItems_ofJsonItems_iff (items : List Json) :
    classifiedItems (ofJsonItems items) = ofJsonItems items ↔
      ∀ v ∈ items, v.ObjectFree CountsUp := by
  cases items with
  | nil => simp [ofJsonItems, classifiedItems]
  | cons v rest =>
      rw [List.forall_mem_cons, ← classified_ofJson_iff v, ← classifiedItems_ofJsonItems_iff rest,
        ofJsonItems, classifiedItems, List.cons.injEq]

theorem classifiedEntries_ofJsonMembers_iff (members : List (String × Json)) :
    classifiedEntries (ofJsonMembers members) = ofJsonMembers members ↔
      ∀ e ∈ members, e.2.ObjectFree CountsUp := by
  cases members with
  | nil => simp [ofJsonMembers, classifiedEntries]
  | cons m rest =>
      obtain ⟨k, v⟩ := m
      rw [List.forall_mem_cons, ← classified_ofJson_iff v,
        ← classifiedEntries_ofJsonMembers_iff rest, ofJsonMembers, classifiedEntries,
        List.cons.injEq, Prod.mk.injEq, and_iff_right rfl]
end

mutual
theorem wellFormed_ofJson {v : Json} (h : v.WellFormed) : (ofJson v).WellFormed := by
  cases v with
  | null | bool | number | string => trivial
  | array items => exact wellFormed_ofJsonItems h
  | object members =>
      refine ⟨?_, wellFormed_ofJsonMembers h.2⟩
      rw [Entries.Distinct, keys_ofJsonMembers]
      exact h.1

theorem wellFormed_ofJsonItems {items : List Json} (h : Json.wellFormedItems items) :
    wellFormedItems (ofJsonItems items) := by
  cases items with
  | nil => trivial
  | cons v rest => exact ⟨wellFormed_ofJson h.1, wellFormed_ofJsonItems h.2⟩

theorem wellFormed_ofJsonMembers {members : List (String × Json)}
    (h : Json.wellFormedMembers members) : wellFormedEntries (ofJsonMembers members) := by
  cases members with
  | nil => trivial
  | cons m rest => exact ⟨wellFormed_ofJson h.1, wellFormed_ofJsonMembers h.2⟩
end

end Node

namespace AllowList

theorem keep_singleton (allowed : AllowList) (n : Node) :
    allowed.keep [n] = if allowed.allows n = true then [n] else [] := by
  simp [keep, List.filter_cons]

theorem allows_classified_iff {v : Json} (hv : v.WellFormed) :
    allows [Node.ofJson v] (Node.ofJson v).classified = true ↔ v.ObjectFree CountsUp := by
  rw [← Node.classified_ofJson_iff, ← Node.same_classified_iff (Node.wellFormed_ofJson hv)]
  simp [allows]

end AllowList

namespace SectionRule

/-- An element of a document, under a rule whose allow-list has the very value of the element: it is
kept exactly when no object in that value, however deep, is empty or has keys that count up.
Otherwise it is dropped. -/
theorem keeps_own_element_iff {v : Json} (hv : v.WellFormed) {n : Node}
    (hn : Raw.lift (Raw.ofJson v) = .ok n) (rule : SectionRule) (hs : rule.shape = .sequence)
    (ha : rule.allowed = some (Node.ofJsonItems [v])) :
    Raw.lift (Raw.ofJson (.array [v])) = .ok (.seq [n]) ∧
    rule.apply (.seq [n]) = .seq (AllowList.keep [Node.ofJson v] [n]) ∧
    (AllowList.keep [Node.ofJson v] [n] = [n] ↔
      ∀ members, Json.Inside (.object members) v →
        members ≠ [] ∧ ¬ CountsUp (Entries.keys members)) ∧
    (AllowList.keep [Node.ofJson v] [n] = [n] ∨ AllowList.keep [Node.ofJson v] [n] = []) := by
  obtain ⟨hu, rfl⟩ := (Raw.lift_ofJson_ok_iff hv n).mp hn
  have hdocument : Raw.lift (Raw.ofJson (.array [v])) =
      .ok (.seq [(Node.ofJson v).classified]) := by
    rw [Raw.lift_ofJson_ok_iff (v := .array [v]) ⟨hv, trivial⟩, Json.unmixed_array_iff]
    exact ⟨fun w hw => List.mem_singleton.mp hw ▸ hu, rfl⟩
  have happly : rule.apply (.seq [(Node.ofJson v).classified]) =
      .seq (AllowList.keep [Node.ofJson v] [(Node.ofJson v).classified]) := by
    rw [apply_sequence hs, ha]
    rfl
  have hobjects : (∀ members, Json.Inside (.object members) v →
      members ≠ [] ∧ ¬ CountsUp (Entries.keys members)) ↔ v.ObjectFree CountsUp := by
    refine forall₂_congr fun members _ => ⟨And.right, fun h => ⟨?_, h⟩⟩
    rintro rfl
    exact h (by decide)
  refine ⟨hdocument, happly, ?_, ?_⟩
  · rw [hobjects, ← AllowList.allows_classified_iff hv, AllowList.keep_singleton]
    simp
  · rw [AllowList.keep_singleton]
    split
    · exact Or.inl rfl
    · exact Or.inr rfl

theorem keeps_own_element_hosts :
    (SectionRule.mk .sequence none [] []
        (some (Node.ofJsonItems [.object [("hosts", .object [("0", .string "a")])]]))).apply
      (.seq [.map [("hosts", .seq [.string "a"])]]) = .seq [] ∧
    (SectionRule.mk .sequence none [] []
        (some (Node.ofJsonItems [.object [("hosts", .object [("00", .string "a")])]]))).apply
      (.seq [.map [("hosts", .map [("00", .string "a")])]]) =
        .seq [.map [("hosts", .map [("00", .string "a")])]] := by
  have hw (key : String) :
      (Json.object [("hosts", .object [(key, .string "a")])]).WellFormed := by
    simp [Json.WellFormed, Json.wellFormedMembers, Entries.Distinct, Entries.keys]
  have hcounted : Raw.lift (Raw.ofJson (.object [("hosts", .object [("0", .string "a")])])) =
      .ok (.map [("hosts", .seq [.string "a"])]) := rfl
  have hpadded : Raw.lift (Raw.ofJson (.object [("hosts", .object [("00", .string "a")])])) =
      .ok (.map [("hosts", .map [("00", .string "a")])]) := rfl
  have hinside {members : List (String × Json)}
      (h : Json.Inside (.object members) (.object [("hosts", .object [("00", .string "a")])])) :
      members ≠ [] ∧ ¬ CountsUp (Entries.keys members) := by
    cases h with
    | self => exact ⟨by simp, by decide⟩
    | member hv h =>
        cases List.mem_singleton.mp hv
        cases h with
        | self => exact ⟨by simp, by decide⟩
        | member hv h =>
            cases List.mem_singleton.mp hv
            cases h
  obtain ⟨-, hdrop, hdrop_iff, hor⟩ := keeps_own_element_iff (hw "0") hcounted
    ⟨.sequence, none, [], [], some (Node.ofJsonItems [_])⟩ rfl rfl
  obtain ⟨-, hkeep, hkeep_iff, -⟩ := keeps_own_element_iff (hw "00") hpadded
    ⟨.sequence, none, [], [], some (Node.ofJsonItems [_])⟩ rfl rfl
  constructor
  · refine hdrop.trans (congrArg Node.seq (hor.resolve_left fun h => ?_))
    exact (hdrop_iff.mp h _ (.member List.mem_cons_self .self)).2 (by decide)
  · exact hkeep.trans (congrArg Node.seq (hkeep_iff.mpr fun members => hinside))

/-- The empty object is an empty sequence in the document and an empty map in the list. -/
theorem not_all_own_elements_kept :
    ¬ ∀ (v : Json) (n : Node), v.WellFormed → Raw.lift (Raw.ofJson v) = .ok n →
      AllowList.keep [Node.ofJson v] [n] = [n] := by
  intro h
  cases h (.object []) (.seq []) ⟨List.nodup_nil, trivial⟩ rfl

end SectionRule

end ConfigShape

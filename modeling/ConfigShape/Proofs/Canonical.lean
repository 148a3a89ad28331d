import ConfigShape.Proofs.JsonTree
import ConfigShape.Proofs.WellFormed
import ConfigShape.Proofs.YamlTree

namespace ConfigShape

namespace Node

mutual
/-- No map in the tree is empty, and no key of a map is the text of an index. -/
def Canonical : Node → Prop
  | .scalar _ => True
  | .seq items => canonicalItems items
  | .map es => es ≠ [] ∧ canonicalEntries es

def canonicalItems : List Node → Prop
  | [] => True
  | n :: rest => n.Canonical ∧ canonicalItems rest

def canonicalEntries : List (String × Node) → Prop
  | [] => True
  | (k, n) :: rest => ¬ RawKey.IsIndexText k ∧ n.Canonical ∧ canonicalEntries rest
end

theorem canonicalItems_iff (items : List Node) :
    canonicalItems items ↔ ∀ n ∈ items, n.Canonical := by
  induction items with
  | nil => simp [canonicalItems]
  | cons n rest ih => simp [canonicalItems, ih]

theorem canonicalEntries_iff (es : List (String × Node)) :
    canonicalEntries es ↔ ∀ e ∈ es, ¬ RawKey.IsIndexText e.1 ∧ e.2.Canonical := by
  induction es with
  | nil => simp [canonicalEntries]
  | cons e rest ih => simp [canonicalEntries, ih, and_assoc]

end Node

namespace Raw

mutual
def PlainNames : Raw → Prop
  | .scalar _ => True
  | .container es => plainNamesEntries es

def plainNamesEntries : List (RawKey × Raw) → Prop
  | [] => True
  | (k, r) :: rest => (∀ s, k = .name s → ¬ RawKey.IsIndexText s) ∧ r.PlainNames ∧
      plainNamesEntries rest
end

theorem plainNamesEntries_iff (es : List (RawKey × Raw)) :
    plainNamesEntries es ↔
      ∀ e ∈ es, (∀ s, e.1 = .name s → ¬ RawKey.IsIndexText s) ∧ e.2.PlainNames := by
  induction es with
  | nil => simp [plainNamesEntries]
  | cons e rest ih => simp [plainNamesEntries, ih, and_assoc]

mutual
theorem plainNames_ofJson (v : Json) : (ofJson v).PlainNames := by
  cases v with
  | null | bool | number | string => trivial
  | array items => exact plainNames_ofJsonItems 0 items
  | object members => exact plainNames_ofJsonMembers members

theorem plainNames_ofJsonItems (i : Int) (items : List Json) :
    plainNamesEntries (ofJsonItems i items) := by
  cases items with
  | nil => trivial
  | cons v rest =>
      refine ⟨?_, plainNames_ofJson v, plainNames_ofJsonItems (i + 1) rest⟩
      rintro s ⟨⟩

theorem plainNames_ofJsonMembers (members : List (String × Json)) :
    plainNamesEntries (ofJsonMembers members) := by
  cases members with
  | nil => trivial
  | cons m rest =>
      obtain ⟨k, v⟩ := m
      refine ⟨?_, plainNames_ofJson v, plainNames_ofJsonMembers rest⟩
      intro s hs
      obtain ⟨rfl, hn⟩ := (RawKey.ofName_eq_name_iff k s).mp hs
      exact hn
end

mutual
theorem plainNames_ofYamlAt (path : String) (v : Yaml) (r : Raw) (h : ofYamlAt path v = .ok r) :
    r.PlainNames := by
  cases v with
  | null | bool | string =>
      cases h
      trivial
  | number n =>
      obtain ⟨m, -, rfl⟩ := (ofYamlAt_number_ok_iff path n r).mp h
      trivial
  | seq items =>
      obtain ⟨es, hs, rfl⟩ := (ofYamlAt_seq_ok_iff path items r).mp h
      exact plainNames_ofYamlItems path 0 items es hs
  | map es =>
      obtain ⟨fs, hs, rfl⟩ := (ofYamlAt_map_ok_iff path es r).mp h
      exact plainNames_ofYamlEntries path [] es fs trivial hs
  | tagged tag v => exact plainNames_ofYamlAt path v r h

theorem plainNames_ofYamlItems (path : String) (i : Int) (items : List Yaml)
    (es : List (RawKey × Raw)) (h : ofYamlItems path i items = .ok es) : plainNamesEntries es := by
  cases items with
  | nil =>
      cases h
      trivial
  | cons v rest =>
      obtain ⟨r, fs, hr, hs, rfl⟩ := (ofYamlItems_cons_ok_iff path i v rest es).mp h
      refine ⟨?_, plainNames_ofYamlAt _ v r hr, plainNames_ofYamlItems path (i + 1) rest fs hs⟩
      rintro s ⟨⟩

theorem plainNames_ofYamlEntries (path : String) (done : List (RawKey × Raw))
    (entries : List (Yaml × Yaml)) (es : List (RawKey × Raw)) (hd : plainNamesEntries done)
    (h : ofYamlEntries path done entries = .ok es) : plainNamesEntries es := by
  cases entries with
  | nil =>
      cases h
      exact hd
  | cons e rest =>
      obtain ⟨k, v⟩ := e
      obtain ⟨key, r, hk, hr, hs⟩ := (ofYamlEntries_cons_ok_iff path done k v rest es).mp h
      refine plainNames_ofYamlEntries path (put key r done) rest es ?_ hs
      rw [plainNamesEntries_iff] at hd ⊢
      intro f hf
      rcases mem_put hf with rfl | hf
      · refine ⟨?_, plainNames_ofYamlAt _ v r hr⟩
        rintro s rfl
        exact keyOfYaml_name k hk
      · exact hd f hf
end

/-- Classification makes canonical nodes of trees with plain names. -/
theorem liftInvariant_canonical : LiftInvariant (fun r n => r.PlainNames → n.Canonical) where
  scalar _ _ := trivial
  empty _ := trivial
  sequence es ns _ hp hr := by
    refine (Node.canonicalItems_iff ns).mpr fun n hn => ?_
    obtain ⟨e, he, hen⟩ := exists_of_forall₂ hp hn
    exact hen ((plainNamesEntries_iff es).mp hr e he).2
  map es ns hk hp hr := by
    have hs := (keysAreNames_iff es).mp hk
    refine ⟨named_ne_nil hp hs.1, (Node.canonicalEntries_iff _).mpr fun f hf => ?_⟩
    obtain ⟨e, he, hfe, hen⟩ := exists_of_mem_named hp hf
    obtain ⟨s, hes⟩ := hs.2 e he
    have hpe := (plainNamesEntries_iff es).mp hr e he
    refine ⟨?_, hen hpe.2⟩
    rw [hfe, hes]
    exact hpe.1 s hes

theorem liftInvariant_wellFormed : LiftInvariant (fun _ n => n.WellFormed) where
  scalar _ := trivial
  empty := trivial
  sequence es ns _ hp := by
    refine (Node.wellFormedItems_iff ns).mpr fun n hn => ?_
    obtain ⟨e, -, hen⟩ := exists_of_forall₂ hp hn
    exact hen
  map es ns _ hp := by
    refine ⟨distinct_named es ns, (Node.wellFormedEntries_iff _).mpr fun f hf => ?_⟩
    obtain ⟨e, -, -, hen⟩ := exists_of_mem_named hp hf
    exact hen

theorem wellFormed_of_lift {r : Raw} {n : Node} (h : lift r = .ok n) : n.WellFormed :=
  liftInvariant_wellFormed.of_liftAt r "$" n h

theorem canonical_of_lift {r : Raw} {n : Node} (hr : r.PlainNames) (h : lift r = .ok n) :
    n.Canonical :=
  liftInvariant_canonical.of_liftAt r "$" n h hr

theorem keys_toJsonMembers (es : List (String × Node)) :
    Entries.keys (Node.toJsonMembers es) = Entries.keys es := by
  induction es with
  | nil => rfl
  | cons e rest ih =>
      obtain ⟨k, n⟩ := e
      simp only [Entries.keys] at ih
      simp only [Node.toJsonMembers, Entries.keys, List.map_cons, ih]

theorem keysAreNames_of_canonical {es : List (String × Node)} (hne : es ≠ [])
    (hc : Node.canonicalEntries es) :
    keysAreNames (ofJsonMembers (Node.toJsonMembers es)) = true := by
  rw [keysAreNames_ofJsonMembers_iff, keys_toJsonMembers]
  constructor
  · cases es with
    | nil => exact absurd rfl hne
    | cons e rest => simp [Node.toJsonMembers]
  · intro k hk
    obtain ⟨e, he, rfl⟩ := List.mem_map.mp hk
    exact ((Node.canonicalEntries_iff es).mp hc e he).1

mutual
theorem liftAt_ofJson_toJson (path : String) (n : Node) (hc : n.Canonical) (hw : n.WellFormed) :
    liftAt path (ofJson n.toJson) = .ok n := by
  cases n with
  | scalar s => cases s <;> rfl
  | seq items =>
      rw [Node.toJson, ofJson, liftAt_container_ok_iff]
      cases items with
      | nil => exact Or.inl ⟨rfl, rfl⟩
      | cons n rest =>
          refine Or.inr (Or.inl ⟨?_, _, liftItems_ofJsonItems path 0 (n :: rest) hc hw, rfl⟩)
          exact countsFrom_ofJsonItems 0 (Node.toJsonItems (n :: rest))
  | map es =>
      rw [Node.toJson, ofJson, liftAt_container_ok_iff]
      refine Or.inr (Or.inr ⟨keysAreNames_of_canonical hc.1 hc.2, _,
        liftItems_ofJsonMembers path es hc.2 hw.2, ?_⟩)
      rw [named, texts_ofJsonMembers, keys_toJsonMembers, Entries.zip_keys_values,
        Entries.ofList_of_distinct hw.1]

theorem liftItems_ofJsonItems (path : String) (i : Int) (items : List Node)
    (hc : Node.canonicalItems items) (hw : Node.wellFormedItems items) :
    liftItems path (ofJsonItems i (Node.toJsonItems items)) = .ok items := by
  cases items with
  | nil => rfl
  | cons n rest =>
      rw [Node.toJsonItems, ofJsonItems, liftItems_cons_ok_iff]
      exact ⟨n, rest, liftAt_ofJson_toJson _ n hc.1 hw.1,
        liftItems_ofJsonItems path (i + 1) rest hc.2 hw.2, rfl⟩

theorem liftItems_ofJsonMembers (path : String) (es : List (String × Node))
    (hc : Node.canonicalEntries es) (hw : Node.wellFormedEntries es) :
    liftItems path (ofJsonMembers (Node.toJsonMembers es)) = .ok (Entries.values es) := by
  cases es with
  | nil => rfl
  | cons e rest =>
      obtain ⟨k, n⟩ := e
      rw [Node.toJsonMembers, ofJsonMembers, liftItems_cons_ok_iff]
      exact ⟨n, _, liftAt_ofJson_toJson _ n hc.2.1 hw.1,
        liftItems_ofJsonMembers path rest hc.2.2 hw.2, rfl⟩
end

theorem lift_ofJson_toJson {n : Node} (hc : n.Canonical) (hw : n.WellFormed) :
    lift (ofJson n.toJson) = .ok n := liftAt_ofJson_toJson "$" n hc hw

/-- Exactly the canonical nodes are read back from their own JSON values, with the same keys in the
same order. Both decoders give canonical nodes only, so that decoding the value of a decoded node
once more changes nothing. -/
theorem lift_toJson_iff_canonical :
    (∀ n : Node, n.WellFormed → (lift (ofJson n.toJson) = .ok n ↔ n.Canonical)) ∧
    (∀ (v : Json) (n : Node), lift (ofJson v) = .ok n →
      n.Canonical ∧ lift (ofJson n.toJson) = .ok n) ∧
    (∀ (y : Yaml) (r : Raw) (n : Node), ofYaml y = .ok r → lift r = .ok n →
      n.Canonical ∧ lift (ofJson n.toJson) = .ok n) := by
  have again {r : Raw} {n : Node} (hr : r.PlainNames) (h : lift r = .ok n) :
      n.Canonical ∧ lift (ofJson n.toJson) = .ok n := by
    have hc := canonical_of_lift hr h
    exact ⟨hc, lift_ofJson_toJson hc (wellFormed_of_lift h)⟩
  refine ⟨fun n hw => ⟨fun h => ?_, fun hc => lift_ofJson_toJson hc hw⟩, ?_, ?_⟩
  · exact canonical_of_lift (plainNames_ofJson n.toJson) h
  · intro v n h
    exact again (plainNames_ofJson v) h
  · intro y r n hr h
    exact again (plainNames_ofYamlAt "$" y r hr) h

theorem lift_toJson_padded_names :
    (lift (ofJson (Node.map [("01", .map [("", .null)])]).toJson) =
        .ok (.map [("01", .map [("", .null)])]) ↔
      (Node.map [("01", .map [("", .null)])]).Canonical) ∧
    (Node.seq [.string "a", .seq []]).Canonical ∧
    (Node.seq [.null, .string "c"]).Canonical := by
  have hw : (Node.map [("01", .map [("", .null)])]).WellFormed := by
    simp [Node.WellFormed, Node.wellFormedEntries, Entries.Distinct, Entries.keys]
  have hj : lift (ofJson (.object [("0", .string "a"), ("1", .object [])])) =
      .ok (.seq [.string "a", .seq []]) := rfl
  have hzero : RawKey.ofName "0" = .index 0 := RawKey.ofName_toString 0 (by decide)
  have hone : RawKey.ofName "1" = .index 1 := RawKey.ofName_toString 1 (by decide)
  have hy : ofYaml (.map [(.string "0", .null), (.string "1", .string "b"),
        (.bool true, .string "c")]) =
      .ok (.container [(.index 0, .scalar .null), (.index 1, .scalar (.string "c"))]) := by
    simp [ofYaml, ofYamlAt, ofYamlEntries, keyOfYaml, put, bind, Except.bind, hzero, hone]
  exact ⟨lift_toJson_iff_canonical.1 _ hw, (lift_toJson_iff_canonical.2.1 _ _ hj).1,
    (lift_toJson_iff_canonical.2.2 _ _ _ hy rfl).1⟩

end Raw

end ConfigShape

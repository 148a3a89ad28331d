import ConfigShape.Document
import ConfigShape.Proofs.JsonTree
import ConfigShape.Proofs.Reading

namespace ConfigShape

/-- Some key is the text of an index, and the keys do not count up. -/
def MixedKeys (ks : List String) : Prop := (∃ k ∈ ks, RawKey.IsIndexText k) ∧ ¬ CountsUp ks

namespace Json

inductive Inside (u : Json) : Json → Prop
  | self : Inside u u
  | item {v : Json} {items : List Json} (hv : v ∈ items) (h : Inside u v) : Inside u (.array items)
  | member {k : String} {v : Json} {members : List (String × Json)} (hv : (k, v) ∈ members)
      (h : Inside u v) : Inside u (.object members)

def ObjectFree (P : List String → Prop) (v : Json) : Prop :=
  ∀ members : List (String × Json), Inside (.object members) v → ¬ P (Entries.keys members)

def Unmixed (v : Json) : Prop :=
  ∀ members : List (String × Json), Inside (.object members) v → ¬ MixedKeys (Entries.keys members)

section

variable (P : List String → Prop)

theorem objectFree_toJson (s : Scalar) : s.toJson.ObjectFree P := by
  intro members h
  cases s <;> cases h

theorem objectFree_array_iff (items : List Json) :
    (Json.array items).ObjectFree P ↔ ∀ v ∈ items, v.ObjectFree P := by
  constructor
  · intro h v hv members hi
    exact h members (.item hv hi)
  · intro h members hi
    cases hi with
    | item hv hi => exact h _ hv members hi

theorem objectFree_object_iff (members : List (String × Json)) :
    (Json.object members).ObjectFree P ↔
      ¬ P (Entries.keys members) ∧ ∀ e ∈ members, e.2.ObjectFree P := by
  constructor
  · intro h
    exact ⟨h members .self, fun e he others hi => h others (.member he hi)⟩
  · rintro ⟨hm, h⟩ others hi
    cases hi with
    | self => exact hm
    | member hv hi => exact h _ hv others hi

end

theorem unmixed_toJson (s : Scalar) : s.toJson.Unmixed := objectFree_toJson MixedKeys s

theorem unmixed_array_iff (items : List Json) :
    (Json.array items).Unmixed ↔ ∀ v ∈ items, v.Unmixed := objectFree_array_iff MixedKeys items

theorem unmixed_object_iff (members : List (String × Json)) :
    (Json.object members).Unmixed ↔
      ¬ MixedKeys (Entries.keys members) ∧ ∀ e ∈ members, e.2.Unmixed :=
  objectFree_object_iff MixedKeys members

end Json

namespace Node

mutual
/-- The node with a sequence for every map that is empty or whose keys count up. -/
def classified : Node → Node
  | .scalar s => .scalar s
  | .seq items => .seq (classifiedItems items)
  | .map es =>
    if es = [] ∨ CountsUp (Entries.keys es) then .seq (Entries.values (classifiedEntries es))
    else .map (classifiedEntries es)

def classifiedItems : List Node → List Node
  | [] => []
  | n :: rest => n.classified :: classifiedItems rest

def classifiedEntries : List (String × Node) → List (String × Node)
  | [] => []
  | (k, n) :: rest => (k, n.classified) :: classifiedEntries rest
end

theorem classifiedItems_eq_map (items : List Node) :
    classifiedItems items = items.map classified := by
  induction items with
  | nil => rfl
  | cons n rest ih => rw [classifiedItems, ih, List.map_cons]

theorem classifiedEntries_eq_map (es : List (String × Node)) :
    classifiedEntries es = es.map (fun e => (e.1, e.2.classified)) := by
  induction es with
  | nil => rfl
  | cons e rest ih => rw [classifiedEntries, ih, List.map_cons]

theorem keys_classifiedEntries (es : List (String × Node)) :
    Entries.keys (classifiedEntries es) = Entries.keys es := by
  rw [classifiedEntries_eq_map, Entries.keys, List.map_map]
  rfl

theorem values_classifiedEntries (es : List (String × Node)) :
    Entries.values (classifiedEntries es) = (Entries.values es).map classified := by
  rw [classifiedEntries_eq_map, Entries.values, Entries.values, List.map_map, List.map_map]
  rfl

def parts : Node → List Node
  | .scalar _ => []
  | .seq items => items
  | .map es => Entries.values es

def part? : Node → List Nat → Option Node
  | n, [] => some n
  | n, i :: places => do
    let m ← n.parts[i]?
    m.part? places

/-- What a node is without its keys and its parts: a scalar, or a container of so many parts. -/
def face : Node → Scalar ⊕ Nat
  | .scalar s => .inl s
  | .seq items => .inr items.length
  | .map es => .inr es.length

theorem parts_classified (n : Node) : n.classified.parts = n.parts.map classified := by
  cases n with
  | scalar s => rfl
  | seq items => exact classifiedItems_eq_map items
  | map es =>
      rw [classified]
      split
      · exact values_classifiedEntries es
      · exact values_classifiedEntries es

theorem face_classified (n : Node) : n.classified.face = n.face := by
  cases n with
  | scalar s => rfl
  | seq items => rw [classified, face, face, classifiedItems_eq_map, List.length_map]
  | map es =>
      have hlen : (classifiedEntries es).length = es.length := by
        rw [classifiedEntries_eq_map, List.length_map]
      rw [classified]
      split
      · rw [face, face, Entries.values, List.length_map, hlen]
      · rw [face, face, hlen]

theorem part?_classified (n : Node) (places : List Nat) :
    n.classified.part? places = (n.part? places).map classified := by
  induction places generalizing n with
  | nil => rfl
  | cons i places ih =>
      simp only [part?, parts_classified, List.getElem?_map]
      cases n.parts[i]? with
      | none => rfl
      | some m => exact ih m

theorem keys_ofJsonMembers (members : List (String × Json)) :
    Entries.keys (ofJsonMembers members) = Entries.keys members := by
  induction members with
  | nil => rfl
  | cons m rest ih =>
      obtain ⟨k, v⟩ := m
      simp only [Entries.keys] at ih
      simp only [ofJsonMembers, Entries.keys, List.map_cons, ih]

end Node

namespace Raw

theorem liftAt_toJson_ok_iff (path : String) (s : Scalar) (n : Node) :
    liftAt path (ofJson s.toJson) = .ok n ↔
      s.toJson.Unmixed ∧ n = (Node.ofJson s.toJson).classified := by
  rw [and_iff_right (Json.unmixed_toJson s)]
  cases s <;> simp only [Scalar.toJson, ofJson, liftAt, Node.ofJson, Node.classified,
    Except.ok.injEq, eq_comm]

theorem liftAt_array_ok_iff (path : String) (items : List Json) (n : Node) :
    liftAt path (.container (ofJsonItems 0 items)) = .ok n ↔
      ∃ ns, liftItems path (ofJsonItems 0 items) = .ok ns ∧ n = .seq ns := by
  rw [liftAt_container_ok_iff]
  cases items with
  | nil => simp [ofJsonItems, liftItems, keysCount, keysAreNames]
  | cons v rest =>
      have hcount : keysCount (ofJsonItems 0 (v :: rest)) = true := keysCount_ofJsonItems (by simp)
      have hnames : keysAreNames (ofJsonItems 0 (v :: rest)) = false := by
        rw [Bool.eq_false_iff]
        intro h
        rw [keysCount_of_names h] at hcount
        cases hcount
      have hnil : ofJsonItems 0 (v :: rest) ≠ [] := by simp [ofJsonItems]
      simp only [hcount, hnames, hnil, Bool.false_eq_true, false_and, or_false, false_or, true_and]

theorem liftAt_object_ok_iff (path : String) (members : List (String × Json)) (n : Node) :
    liftAt path (.container (ofJsonMembers members)) = .ok n ↔
      ¬ MixedKeys (Entries.keys members) ∧ ∃ ns, liftItems path (ofJsonMembers members) = .ok ns ∧
        n = if members = [] ∨ CountsUp (Entries.keys members) then .seq ns
          else .map (named (ofJsonMembers members) ns) := by
  rw [liftAt_container_ok_iff]
  cases members with
  | nil =>
      have hnone : ¬ MixedKeys (Entries.keys ([] : List (String × Json))) := by
        rintro ⟨⟨k, hk, -⟩, -⟩
        cases hk
      simp [ofJsonMembers, liftItems, keysCount, keysAreNames, hnone]
  | cons m rest =>
      have hnil : ofJsonMembers (m :: rest) ≠ [] := by simp [ofJsonMembers]
      have hcount := keysCount_ofJsonMembers_iff (m :: rest)
      have hnames := keysAreNames_ofJsonMembers_iff (m :: rest)
      simp only [ne_eq, reduceCtorEq, not_false_eq_true, true_and] at hcount hnames
      by_cases hc : CountsUp (Entries.keys (m :: rest))
      · have hmixed : ¬ MixedKeys (Entries.keys (m :: rest)) := fun h => h.2 hc
        have hplain : keysAreNames (ofJsonMembers (m :: rest)) = false := by
          rw [Bool.eq_false_iff]
          intro h
          have hfalse := keysCount_of_names h
          rw [hcount.mpr hc] at hfalse
          cases hfalse
        simp only [hnil, hcount.mpr hc, hplain, hmixed, hc, Bool.false_eq_true, false_and, false_or,
          or_false, or_true, true_and, if_true, not_false_eq_true]
      · have hmixed : ¬ MixedKeys (Entries.keys (m :: rest)) ↔
            keysAreNames (ofJsonMembers (m :: rest)) = true := by
          simp only [MixedKeys, hc, not_false_eq_true, and_true, not_exists, not_and, hnames]
        simp only [hnil, mt hcount.mp hc, hmixed, hc, false_and, false_or, or_false, if_false,
          reduceCtorEq]

theorem named_ofJsonMembers {members : List (String × Json)} (hd : Entries.Distinct members) :
    named (ofJsonMembers members)
        (Entries.values (Node.classifiedEntries (Node.ofJsonMembers members))) =
      Node.classifiedEntries (Node.ofJsonMembers members) := by
  have hk : Entries.keys members =
      Entries.keys (Node.classifiedEntries (Node.ofJsonMembers members)) := by
    rw [Node.keys_classifiedEntries, Node.keys_ofJsonMembers]
  rw [named, texts_ofJsonMembers, hk, Entries.zip_keys_values, Entries.ofList_of_distinct]
  rw [Entries.Distinct, ← hk]
  exact hd

mutual
/-- What is decoded of a value, and when: both walks over the value, step by step. -/
theorem liftAt_ofJson_ok_iff (path : String) (v : Json) (hv : v.WellFormed) (n : Node) :
    liftAt path (ofJson v) = .ok n ↔ v.Unmixed ∧ n = (Node.ofJson v).classified := by
  cases v with
  | null => exact liftAt_toJson_ok_iff path .null n
  | bool b => exact liftAt_toJson_ok_iff path (.bool b) n
  | number m => exact liftAt_toJson_ok_iff path (.number m) n
  | string s => exact liftAt_toJson_ok_iff path (.string s) n
  | array items =>
      rw [ofJson, liftAt_array_ok_iff, Json.unmixed_array_iff]
      simp only [liftItems_ofJsonItems_ok_iff path 0 items hv, Node.ofJson, Node.classified]
      constructor
      · rintro ⟨ns, ⟨hu, rfl⟩, rfl⟩
        exact ⟨hu, rfl⟩
      · rintro ⟨hu, rfl⟩
        exact ⟨_, ⟨hu, rfl⟩, rfl⟩
  | object members =>
      have hnil : Node.ofJsonMembers members = [] ↔ members = [] := by
        cases members <;> simp [Node.ofJsonMembers]
      rw [ofJson, liftAt_object_ok_iff, Json.unmixed_object_iff]
      simp only [liftItems_ofJsonMembers_ok_iff path members hv.2, Node.ofJson, Node.classified,
        Node.keys_ofJsonMembers, hnil]
      constructor
      · rintro ⟨hm, ns, ⟨hu, rfl⟩, hn⟩
        rw [named_ofJsonMembers hv.1] at hn
        exact ⟨⟨hm, hu⟩, hn⟩
      · rintro ⟨⟨hm, hu⟩, hn⟩
        refine ⟨hm, _, ⟨hu, rfl⟩, ?_⟩
        rw [named_ofJsonMembers hv.1]
        exact hn

theorem liftItems_ofJsonItems_ok_iff (path : String) (i : Int) (items : List Json)
    (hw : Json.wellFormedItems items) (ns : List Node) :
    liftItems path (ofJsonItems i items) = .ok ns ↔
      (∀ v ∈ items, v.Unmixed) ∧ ns = Node.classifiedItems (Node.ofJsonItems items) := by
  cases items with
  | nil => simp [ofJsonItems, liftItems, Node.ofJsonItems, Node.classifiedItems, eq_comm]
  | cons v rest =>
      rw [ofJsonItems, liftItems_cons_ok_iff, List.forall_mem_cons]
      simp only [liftAt_ofJson_ok_iff _ v hw.1, liftItems_ofJsonItems_ok_iff path (i + 1) rest hw.2,
        Node.ofJsonItems, Node.classifiedItems]
      constructor
      · rintro ⟨n, ms, ⟨hv, rfl⟩, ⟨hr, rfl⟩, rfl⟩
        exact ⟨⟨hv, hr⟩, rfl⟩
      · rintro ⟨⟨hv, hr⟩, rfl⟩
        exact ⟨_, _, ⟨hv, rfl⟩, ⟨hr, rfl⟩, rfl⟩

theorem liftItems_ofJsonMembers_ok_iff (path : String) (members : List (String × Json))
    (hw : Json.wellFormedMembers members) (ns : List Node) :
    liftItems path (ofJsonMembers members) = .ok ns ↔
      (∀ e ∈ members, e.2.Unmixed) ∧
        ns = Entries.values (Node.classifiedEntries (Node.ofJsonMembers members)) := by
  cases members with
  | nil =>
      simp [ofJsonMembers, liftItems, Node.ofJsonMembers, Node.classifiedEntries, Entries.values,
        eq_comm]
  | cons m rest =>
      obtain ⟨k, v⟩ := m
      rw [ofJsonMembers, liftItems_cons_ok_iff, List.forall_mem_cons]
      simp only [liftAt_ofJson_ok_iff _ v hw.1, liftItems_ofJsonMembers_ok_iff path rest hw.2,
        Node.ofJsonMembers, Node.classifiedEntries, Entries.values, List.map_cons]
      constructor
      · rintro ⟨n, ms, ⟨hv, rfl⟩, ⟨hr, rfl⟩, rfl⟩
        exact ⟨⟨hv, hr⟩, rfl⟩
      · rintro ⟨⟨hv, hr⟩, rfl⟩
        exact ⟨_, _, ⟨hv, rfl⟩, ⟨hr, rfl⟩, rfl⟩
end

theorem lift_ofJson_ok_iff {v : Json} (hv : v.WellFormed) (n : Node) :
    lift (ofJson v) = .ok n ↔ v.Unmixed ∧ n = (Node.ofJson v).classified :=
  liftAt_ofJson_ok_iff "$" v hv n

/-- A value is refused exactly when an object in it, however deep, has the text of an index among
its keys and keys that do not count up. Any other is decoded to what it reads as, up to
classification: at each place there are the same scalar or as many parts as before. -/
theorem lift_ofJson_classified (v : Json) (hv : v.WellFormed) :
    ((∃ f, lift (ofJson v) = .error f) ↔
      ∃ members, Json.Inside (.object members) v ∧ MixedKeys (Entries.keys members)) ∧
    (v.Unmixed → lift (ofJson v) = .ok (Node.ofJson v).classified) ∧
    (∀ n, lift (ofJson v) = .ok n → ∀ places,
      (n.part? places).map Node.face = ((Node.ofJson v).part? places).map Node.face) := by
  have hok := lift_ofJson_ok_iff hv
  refine ⟨?_, fun hu => (hok _).mpr ⟨hu, rfl⟩, ?_⟩
  · have hmixed : (∃ members, Json.Inside (.object members) v ∧
        MixedKeys (Entries.keys members)) ↔ ¬ v.Unmixed := by
      simp only [Json.Unmixed, not_forall, not_not, exists_prop]
    rw [hmixed]
    constructor
    · rintro ⟨f, hf⟩ hu
      rw [(hok _).mpr ⟨hu, rfl⟩] at hf
      cases hf
    · intro hu
      cases h : lift (ofJson v) with
      | error f => exact ⟨f, rfl⟩
      | ok n => exact absurd ((hok n).mp h).1 hu
  · intro n hn places
    obtain ⟨-, rfl⟩ := (hok n).mp hn
    rw [Node.part?_classified, Option.map_map]
    congr 1
    funext m
    exact Node.face_classified m

theorem lift_ofJson_classified_hosts :
    lift (ofJson (.object [("hosts", .object [("0", .string "a"), ("1", .object [])])])) =
      .ok (.map [("hosts", .seq [.string "a", .seq []])]) ∧
    ((Node.map [("hosts", .map [("0", .string "a"), ("1", .map [])])]).part? [0, 1]).map
      Node.face = some (.inr 0) ∧
    ∃ f, lift (ofJson (.object [("env", .object [("0", .string "x"), ("name", .null)])])) =
      .error f := by
  have hw : (Json.object [("hosts", .object [("0", .string "a"), ("1", .object [])])]).WellFormed :=
    ⟨by decide, ⟨by decide, trivial, ⟨by decide, trivial⟩, trivial⟩, trivial⟩
  have hm : (Json.object [("env", .object [("0", .string "x"), ("name", .null)])]).WellFormed :=
    ⟨by decide, ⟨by decide, trivial, trivial, trivial⟩, trivial⟩
  have hu : (Json.object [("hosts", .object [("0", .string "a"), ("1", .object [])])]).Unmixed :=
    ((lift_ofJson_ok_iff hw (.map [("hosts", .seq [.string "a", .seq []])])).mp rfl).1
  have hzero : RawKey.IsIndexText "0" := ⟨0, by decide, rfl⟩
  obtain ⟨-, hlift, hface⟩ := lift_ofJson_classified _ hw
  refine ⟨hlift hu, (hface _ (hlift hu) [0, 1]).symm.trans rfl, ?_⟩
  refine (lift_ofJson_classified _ hm).1.mpr ⟨_, .member List.mem_cons_self .self, ?_⟩
  exact ⟨⟨"0", by decide, hzero⟩, by decide⟩

end Raw

theorem Node.ofJsonText_ok_iff {text : String} {v : Json} (h : Json.parse text = .ok v)
    (n : Node) : Node.ofJsonText text = .ok n ↔ v.Unmixed ∧ n = (Node.ofJson v).classified := by
  have hlift : Node.ofJsonText text = (Raw.ofJson v).lift.mapError .shape := by
    rw [Node.ofJsonText, h]
    rfl
  rw [hlift, ← Raw.lift_ofJson_ok_iff (Json.wellFormed_of_parse h) n]
  cases (Raw.ofJson v).lift <;> simp [Except.mapError]

end ConfigShape

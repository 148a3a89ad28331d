import Mathlib.Data.List.Forall2
import ConfigShape.Proofs.YamlTree

namespace ConfigShape

namespace Yaml

mutual
/-- The value without its tags, those of keys included. -/
def untagged : Yaml → Yaml
  | .null => .null
  | .bool b => .bool b
  | .number n => .number n
  | .string s => .string s
  | .seq items => .seq (untaggedItems items)
  | .map es => .map (untaggedEntries es)
  | .tagged _ v => v.untagged

def untaggedItems : List Yaml → List Yaml
  | [] => []
  | v :: rest => v.untagged :: untaggedItems rest

def untaggedEntries : List (Yaml × Yaml) → List (Yaml × Yaml)
  | [] => []
  | (k, v) :: rest => (k.untagged, v.untagged) :: untaggedEntries rest
end

end Yaml

namespace Raw

theorem keyOfYaml_untagged (path : String) (k : Yaml) :
    keyOfYaml path k.untagged = keyOfYaml path k := by
  cases k with
  | tagged tag v => exact keyOfYaml_untagged path v
  | null | bool | number | string | seq | map => rfl

mutual
theorem ofYamlAt_untagged (path : String) (v : Yaml) :
    ofYamlAt path v.untagged = ofYamlAt path v := by
  cases v with
  | null | bool | number | string => rfl
  | seq items => rw [Yaml.untagged, ofYamlAt, ofYamlAt, ofYamlItems_untagged path 0 items]
  | map es => rw [Yaml.untagged, ofYamlAt, ofYamlAt, ofYamlEntries_untagged path [] es]
  | tagged tag v => exact ofYamlAt_untagged path v

theorem ofYamlItems_untagged (path : String) (i : Int) (items : List Yaml) :
    ofYamlItems path i (Yaml.untaggedItems items) = ofYamlItems path i items := by
  cases items with
  | nil => rfl
  | cons v rest =>
      rw [Yaml.untaggedItems, ofYamlItems, ofYamlItems, ofYamlAt_untagged _ v,
        ofYamlItems_untagged path (i + 1) rest]

theorem ofYamlEntries_untagged (path : String) (done : List (RawKey × Raw))
    (entries : List (Yaml × Yaml)) :
    ofYamlEntries path done (Yaml.untaggedEntries entries) = ofYamlEntries path done entries := by
  cases entries with
  | nil => rfl
  | cons e rest =>
      obtain ⟨k, v⟩ := e
      simp only [Yaml.untaggedEntries, ofYamlEntries, keyOfYaml_untagged, ofYamlAt_untagged _ v,
        ofYamlEntries_untagged path _ rest]
end

theorem keys_put (key : RawKey) (r : Raw) (es : List (RawKey × Raw)) :
    (put key r es).map Prod.fst =
      if key ∈ es.map Prod.fst then es.map Prod.fst else es.map Prod.fst ++ [key] := by
  induction es with
  | nil => rfl
  | cons e rest ih =>
      obtain ⟨k, s⟩ := e
      by_cases hk : k = key
      · simp [put, hk]
      · have hk' : key ≠ k := fun h => hk h.symm
        rw [put, if_neg hk, List.map_cons, ih, List.map_cons]
        by_cases hmem : key ∈ rest.map Prod.fst <;> simp only [List.mem_cons, hk', hmem, false_or,
          if_true, if_false, List.cons_append]

theorem mem_put_self (key : RawKey) (r : Raw) (es : List (RawKey × Raw)) :
    (key, r) ∈ put key r es := by
  induction es with
  | nil => exact List.mem_singleton_self _
  | cons e rest ih =>
      obtain ⟨k, s⟩ := e
      rw [put]
      split
      · rename_i hk
        rw [hk]
        exact List.mem_cons_self
      · exact List.mem_cons_of_mem _ ih

theorem lastWins_put (all : List (RawKey × Raw)) :
    LastWins all (all.foldl (fun acc e => put e.1 e.2 acc) []) :=
  LastWins.of_foldl keys_put mem_put_self (fun _ _ _ _ he => mem_put he) all

/-- What is made of a value. The entries of a mapping all have keys and values, also those that are
overwritten. -/
inductive TreeOf : Yaml → Raw → Prop
  | null : TreeOf .null (.scalar .null)
  | bool (b : Bool) : TreeOf (.bool b) (.scalar (.bool b))
  | number {n : YamlNumber} {m : Number} (h : numberOfYaml n = .ok m) :
      TreeOf (.number n) (.scalar (.number m))
  | string (s : String) : TreeOf (.string s) (.scalar (.string s))
  | seq {items : List Yaml} {es : List (RawKey × Raw)}
      (keys : es.map Prod.fst = (List.range items.length).map (fun (i : Nat) => RawKey.index i))
      (values : List.Forall₂ (fun v e => TreeOf v e.2) items es) :
      TreeOf (.seq items) (.container es)
  | map {entries : List (Yaml × Yaml)} {all es : List (RawKey × Raw)}
      (keys : List.Forall₂ (fun e f => keyOf? e.1 = some f.1) entries all)
      (values : List.Forall₂ (fun e f => TreeOf e.2 f.2) entries all)
      (collided : LastWins all es) : TreeOf (.map entries) (.container es)
  | tagged {tag : String} {v : Yaml} {r : Raw} (h : TreeOf v r) : TreeOf (.tagged tag v) r

mutual
theorem ofYamlAt_ok_iff (path : String) (v : Yaml) (r : Raw) :
    ofYamlAt path v = .ok r ↔ TreeOf v r := by
  cases v with
  | null | bool | string =>
      constructor
      · intro h
        cases h
        constructor
      · intro h
        cases h
        rfl
  | number n =>
      rw [ofYamlAt_number_ok_iff]
      constructor
      · rintro ⟨m, hm, rfl⟩
        exact .number hm
      · intro h
        cases h with
        | number hm => exact ⟨_, hm, rfl⟩
  | seq items =>
      have hitems := ofYamlItems_ok_iff path 0 items
      rw [← List.range_eq_range'] at hitems
      rw [ofYamlAt_seq_ok_iff]
      constructor
      · rintro ⟨es, hes, rfl⟩
        obtain ⟨hkeys, hvalues⟩ := (hitems es).mp hes
        exact .seq hkeys hvalues
      · intro h
        cases h with
        | seq hkeys hvalues => exact ⟨_, (hitems _).mpr ⟨hkeys, hvalues⟩, rfl⟩
  | map entries =>
      rw [ofYamlAt_map_ok_iff]
      simp only [ofYamlEntries_ok_iff path [] entries]
      constructor
      · rintro ⟨es, ⟨all, hkeys, hvalues, rfl⟩, rfl⟩
        exact .map hkeys hvalues (lastWins_put all)
      · intro h
        cases h with
        | map hkeys hvalues hlast =>
            exact ⟨_, ⟨_, hkeys, hvalues, hlast.unique (lastWins_put _)⟩, rfl⟩
  | tagged tag v =>
      rw [ofYamlAt, ofYamlAt_ok_iff path v r]
      constructor
      · exact .tagged
      · intro h
        cases h with
        | tagged hv => exact hv

theorem ofYamlItems_ok_iff (path : String) (i : Nat) (items : List Yaml)
    (es : List (RawKey × Raw)) :
    ofYamlItems path i items = .ok es ↔
      es.map Prod.fst = (List.range' i items.length).map (fun (j : Nat) => RawKey.index j) ∧
        List.Forall₂ (fun v e => TreeOf v e.2) items es := by
  cases items with
  | nil =>
      rw [ofYamlItems, Except.ok.injEq, List.forall₂_nil_left_iff]
      constructor
      · rintro rfl
        exact ⟨rfl, rfl⟩
      · rintro ⟨-, rfl⟩
        rfl
  | cons v rest =>
      have hcast : (i : Int) + 1 = ((i + 1 : Nat) : Int) := rfl
      rw [ofYamlItems_cons_ok_iff, hcast, List.forall₂_cons_left_iff]
      simp only [ofYamlAt_ok_iff _ v, ofYamlItems_ok_iff path (i + 1) rest, List.length_cons,
        List.range'_succ, List.map_cons]
      constructor
      · rintro ⟨r, fs, hr, ⟨hkeys, hvalues⟩, rfl⟩
        exact ⟨congrArg _ hkeys, _, _, hr, hvalues, rfl⟩
      · rintro ⟨hkeys, ⟨key, r⟩, fs, hr, hvalues, rfl⟩
        obtain ⟨hkey, hrest⟩ := List.cons.inj hkeys
        obtain rfl : key = .index i := hkey
        exact ⟨r, fs, hr, ⟨hrest, hvalues⟩, rfl⟩

theorem ofYamlEntries_ok_iff (path : String) (done : List (RawKey × Raw))
    (entries : List (Yaml × Yaml)) (es : List (RawKey × Raw)) :
    ofYamlEntries path done entries = .ok es ↔
      ∃ all : List (RawKey × Raw), List.Forall₂ (fun e f => keyOf? e.1 = some f.1) entries all ∧
        List.Forall₂ (fun e f => TreeOf e.2 f.2) entries all ∧
        es = all.foldl (fun acc e => put e.1 e.2 acc) done := by
  cases entries with
  | nil =>
      rw [ofYamlEntries, Except.ok.injEq]
      simp only [List.forall₂_nil_left_iff]
      constructor
      · rintro rfl
        exact ⟨[], rfl, rfl, rfl⟩
      · rintro ⟨_, rfl, -, rfl⟩
        rfl
  | cons e rest =>
      obtain ⟨k, v⟩ := e
      rw [ofYamlEntries_cons_ok_iff]
      simp only [keyOfYaml_eq_ok_iff, ofYamlAt_ok_iff _ v, ofYamlEntries_ok_iff path _ rest,
        List.forall₂_cons_left_iff]
      constructor
      · rintro ⟨key, r, hkey, hr, all, hkeys, hvalues, rfl⟩
        exact ⟨(key, r) :: all, ⟨_, _, hkey, hkeys, rfl⟩, ⟨_, _, hr, hvalues, rfl⟩, rfl⟩
      · rintro ⟨_, ⟨⟨key, r⟩, all, hkey, hkeys, rfl⟩, ⟨_, _, hr, hvalues, heq⟩, rfl⟩
        cases heq
        exact ⟨key, r, hkey, hr, all, hkeys, hvalues, rfl⟩
end

inductive Inside (u : Raw) : Raw → Prop
  | self : Inside u u
  | entry {e : RawKey × Raw} {es : List (RawKey × Raw)} (he : e ∈ es) (h : Inside u e.2) :
      Inside u (.container es)

def DistinctKeys (r : Raw) : Prop :=
  ∀ es : List (RawKey × Raw), Inside (.container es) r → (es.map Prod.fst).Nodup

theorem distinctKeys_scalar (s : Scalar) : (Raw.scalar s).DistinctKeys := by
  intro es h
  cases h

theorem distinctKeys_container_iff (es : List (RawKey × Raw)) :
    (Raw.container es).DistinctKeys ↔
      (es.map Prod.fst).Nodup ∧ ∀ e ∈ es, e.2.DistinctKeys := by
  constructor
  · intro h
    exact ⟨h es .self, fun e he fs hi => h fs (.entry he hi)⟩
  · rintro ⟨hes, h⟩ fs hi
    cases hi with
    | self => exact hes
    | entry he hi => exact h _ he fs hi

theorem nodup_indices (n : Nat) : ((List.range n).map (fun (i : Nat) => RawKey.index i)).Nodup := by
  refine List.Nodup.map (fun i j h => ?_) List.nodup_range
  exact Int.ofNat.inj (RawKey.index.inj h)

mutual
theorem distinctKeys_of_treeOf (v : Yaml) (r : Raw) (h : TreeOf v r) : r.DistinctKeys := by
  cases v with
  | null | bool | string | number =>
      cases h
      exact distinctKeys_scalar _
  | seq items =>
      cases h with
      | seq hkeys hvalues =>
          rw [distinctKeys_container_iff, hkeys]
          exact ⟨nodup_indices _, distinctKeys_of_items items _ hvalues⟩
  | map entries =>
      cases h with
      | map hkeys hvalues hlast =>
          rw [distinctKeys_container_iff]
          refine ⟨hlast.nodup, fun e he => ?_⟩
          exact distinctKeys_of_entries entries _ hvalues e (hlast.mem he)
  | tagged tag v =>
      cases h with
      | tagged hv => exact distinctKeys_of_treeOf v r hv

theorem distinctKeys_of_items (items : List Yaml) (es : List (RawKey × Raw))
    (h : List.Forall₂ (fun v e => TreeOf v e.2) items es) : ∀ e ∈ es, e.2.DistinctKeys := by
  cases items with
  | nil =>
      cases h
      exact nofun
  | cons v rest =>
      cases h with
      | cons hv hrest =>
          rw [List.forall_mem_cons]
          exact ⟨distinctKeys_of_treeOf v _ hv, distinctKeys_of_items rest _ hrest⟩

theorem distinctKeys_of_entries (entries : List (Yaml × Yaml)) (all : List (RawKey × Raw))
    (h : List.Forall₂ (fun e f => TreeOf e.2 f.2) entries all) : ∀ f ∈ all, f.2.DistinctKeys := by
  cases entries with
  | nil =>
      cases h
      exact nofun
  | cons e rest =>
      obtain ⟨k, v⟩ := e
      cases h with
      | cons hv hrest =>
          rw [List.forall_mem_cons]
          exact ⟨distinctKeys_of_treeOf v _ hv, distinctKeys_of_entries rest _ hrest⟩
end

/-- At each container the node has the entries of the tree, as many and in the same order. -/
inductive Keeps : Raw → Node → Prop
  | scalar (s : Scalar) : Keeps (.scalar s) (.scalar s)
  | seq {es : List (RawKey × Raw)} {ns : List Node}
      (values : List.Forall₂ (fun e n => Keeps e.2 n) es ns) : Keeps (.container es) (.seq ns)
  | map {es : List (RawKey × Raw)} {entries : List (String × Node)}
      (names : entries.map Prod.fst = es.map (fun e => e.1.text))
      (values : List.Forall₂ (fun e f => Keeps e.2 f.2) es entries) :
      Keeps (.container es) (.map entries)

theorem nodup_texts {es : List (RawKey × Raw)} (hn : keysAreNames es = true)
    (hd : (es.map Prod.fst).Nodup) : (es.map (fun e => e.1.text)).Nodup := by
  have hnames := ((keysAreNames_iff es).mp hn).2
  have hmap : es.map (fun e => e.1.text) = (es.map Prod.fst).map RawKey.text := by
    rw [List.map_map]
    rfl
  rw [hmap]
  refine hd.map_on fun k hk l hl h => ?_
  obtain ⟨e, he, rfl⟩ := List.mem_map.mp hk
  obtain ⟨f, hf, rfl⟩ := List.mem_map.mp hl
  obtain ⟨s, hs⟩ := hnames e he
  obtain ⟨t, ht⟩ := hnames f hf
  rw [hs, ht] at h ⊢
  exact congrArg RawKey.name h

theorem forall₂_zip_texts {R : RawKey × Raw → Node → Prop} {es : List (RawKey × Raw)}
    {ns : List Node} (h : List.Forall₂ R es ns) :
    List.Forall₂ (fun e f => R e f.2) es ((es.map (fun e => e.1.text)).zip ns) := by
  induction h with
  | nil => exact .nil
  | cons hr _ ih => exact .cons hr ih

theorem keeps_parts {es : List (RawKey × Raw)} {ns : List Node}
    (hp : List.Forall₂ (fun e n => e.2.DistinctKeys → Keeps e.2 n) es ns)
    (hparts : ∀ e ∈ es, e.2.DistinctKeys) : List.Forall₂ (fun e n => Keeps e.2 n) es ns := by
  have hboth := (List.forall₂_and_left es ns).mpr ⟨hparts, hp⟩
  exact hboth.imp fun _ _ h => h.2 h.1

theorem liftInvariant_keeps : LiftInvariant (fun r n => r.DistinctKeys → Keeps r n) where
  scalar s _ := .scalar s
  empty _ := .seq .nil
  sequence es ns _ hp hr := .seq (keeps_parts hp ((distinctKeys_container_iff es).mp hr).2)
  map es ns hk hp hr := by
    obtain ⟨hd, hparts⟩ := (distinctKeys_container_iff es).mp hr
    have hkept := keeps_parts hp hparts
    have hkeys : Entries.keys ((es.map (fun e => e.1.text)).zip ns) =
        es.map (fun e => e.1.text) :=
      List.map_fst_zip (Nat.le_of_eq ((List.length_map _).trans hp.length_eq))
    have hdistinct : Entries.Distinct ((es.map (fun e => e.1.text)).zip ns) := by
      rw [Entries.Distinct, hkeys]
      exact nodup_texts hk hd
    rw [named, Entries.ofList_of_distinct hdistinct]
    exact .map hkeys (forall₂_zip_texts hkept)

/-- The tree of a YAML value is told by the value without its tags. In the container of a mapping
each key stands where it comes first and holds the value that it comes with last; no container has a
key twice, and the node that the tree is lifted to has all the entries of the tree. -/
theorem ofYaml_collided_keys :
    (∀ (y : Yaml) (r : Raw), ofYaml y = .ok r ↔ TreeOf y r) ∧
    (∀ y : Yaml, ofYaml y.untagged = ofYaml y) ∧
    (∀ (y : Yaml) (r : Raw), ofYaml y = .ok r →
      r.DistinctKeys ∧ ∀ n, lift r = .ok n → Keeps r n) := by
  refine ⟨ofYamlAt_ok_iff "$", ofYamlAt_untagged "$", fun y r h => ?_⟩
  have hd := distinctKeys_of_treeOf y r ((ofYamlAt_ok_iff "$" y r).mp h)
  exact ⟨hd, fun n hn => liftInvariant_keeps.of_liftAt r "$" n hn hd⟩

theorem ofYaml_collided_keys_switches :
    let r : Raw := .container [(.index 0, .scalar (.string "d")), (.index 1, .scalar (.string "c"))]
    ofYaml (.map [(.number (.int ⟨0, by decide, by decide⟩), .string "a"),
      (.bool true, .string "b"), (.tagged "!t" (.string "1"), .string "c"),
      (.bool false, .tagged "!t" (.string "d"))]) = .ok r ∧
    r.DistinctKeys ∧ Keeps r (.seq [.string "d", .string "c"]) := by
  intro r
  have hone : RawKey.ofName "1" = .index 1 := RawKey.ofName_toString 1 (by decide)
  have htree : ofYaml (.map [(.number (.int ⟨0, by decide, by decide⟩), .string "a"),
      (.bool true, .string "b"), (.tagged "!t" (.string "1"), .string "c"),
      (.bool false, .tagged "!t" (.string "d"))]) = .ok r := by
    simp [ofYaml, ofYamlAt, ofYamlEntries, keyOfYaml, keyOfNumber, put, bind, Except.bind, hone, r]
  obtain ⟨hd, hkeeps⟩ := ofYaml_collided_keys.2.2 _ r htree
  exact ⟨htree, hd, hkeeps _ rfl⟩

end Raw

end ConfigShape

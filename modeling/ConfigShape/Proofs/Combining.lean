import ConfigShape.Node.Combine
import ConfigShape.Proofs.Merging

namespace ConfigShape

namespace Node

/-- What the value of a key becomes when a value is appended to it, by what the two are. -/
inductive Appended : Option Node → Option Node → Node → Prop
  | absent {source : Option Node} {n : Node} (h : Appended (some (.seq [])) source n) :
      Appended none source n
  | null {source : Option Node} {n : Node} (h : Appended (some (.seq [])) source n) :
      Appended (some .null) source n
  | items (xs ys : List Node) : Appended (some (.seq xs)) (some (.seq ys)) (.seq (xs ++ ys))
  | values (xs : List Node) (fs : Entries Node) :
      Appended (some (.seq xs)) (some (.map fs)) (.seq (xs ++ fs.values))
  | emptyMap {source n : Node} (hs : source.isContainer = true)
      (h : Appended (some (.seq [])) (some source) n) : Appended (some (.map [])) (some source) n
  | entries {es fs all : Entries Node} (hne : es ≠ []) (h : Entries.Overlay es fs all) :
      Appended (some (.map es)) (some (.map fs)) (.map all)
  | itemsIgnored {es : Entries Node} (hne : es ≠ []) (ys : List Node) :
      Appended (some (.map es)) (some (.seq ys)) (.map es)
  | scalarTarget {s : Scalar} (hs : s ≠ .null) (source : Option Node) :
      Appended (some (.scalar s)) source (.scalar s)
  | scalarSource {n : Node} (hn : n ≠ .null) (s : Scalar) : Appended (some n) (some (.scalar s)) n
  | noSource {n : Node} (hn : n ≠ .null) : Appended (some n) none n

def appendTo (target? source? : Option Node) : Node :=
  match source? with
  | some source => (orNoItems target?).append source
  | none => orNoItems target?

theorem append_map {es : Entries Node} (hne : es ≠ []) (fs : Entries Node) :
    (Node.map es).append (.map fs) = .map (es.extend fs) := by
  cases es with
  | nil => exact absurd rfl hne
  | cons e rest => rfl

theorem append_seq_of_map {es : Entries Node} (hne : es ≠ []) (ys : List Node) :
    (Node.map es).append (.seq ys) = .map es := by
  cases es with
  | nil => exact absurd rfl hne
  | cons e rest => rfl

theorem append_scalar (n : Node) (s : Scalar) : n.append (.scalar s) = n := by
  cases n with
  | scalar | seq => rfl
  | map es => cases es <;> rfl

theorem orNoItems_of_ne_null {n : Node} (h : n ≠ .null) : orNoItems (some n) = n := by
  cases n with
  | scalar s =>
      cases s with
      | null => exact absurd rfl h
      | bool | number | string => rfl
  | seq | map => rfl

theorem Appended.appendTo_eq {target? source? : Option Node} {n : Node}
    (h : Appended target? source? n) (ht : ∀ m, target? = some m → m.WellFormed)
    (hs : ∀ m, source? = some m → m.WellFormed) : appendTo target? source? = n := by
  have hempty : ∀ m, some (Node.seq []) = some m → m.WellFormed := by
    rintro m ⟨⟩
    trivial
  induction h with
  | absent _ ih => exact ih hempty hs
  | null _ ih => exact ih hempty hs
  | items xs ys => rfl
  | values xs fs => rfl
  | @emptyMap source n hcontainer _ ih =>
      -- an empty map and an empty sequence take in the same items
      rw [← ih hempty hs]
      cases source with
      | scalar => cases hcontainer
      | seq | map => rfl
  | entries hne hover =>
      rw [appendTo, orNoItems_of_ne_null (by simp), append_map hne]
      have hes := ht _ rfl
      have hfs := hs _ rfl
      have hunique := (Entries.overlay_extend hes.1 hfs.1).unique hover
        (Entries.distinct_extend hes.1 _)
      rw [hunique]
  | itemsIgnored hne ys => rw [appendTo, orNoItems_of_ne_null (by simp), append_seq_of_map hne]
  | scalarTarget hscalar source? =>
      cases source? <;> rw [appendTo, orNoItems_of_ne_null (by simpa using hscalar)]
      rfl
  | scalarSource hn s => rw [appendTo, orNoItems_of_ne_null hn, append_scalar]
  | noSource hn => rw [appendTo, orNoItems_of_ne_null hn]

theorem exists_appended_items (xs : List Node) (source? : Option Node) :
    ∃ n, Appended (some (.seq xs)) source? n := by
  cases source? with
  | none => exact ⟨_, .noSource (by simp)⟩
  | some source =>
      cases source with
      | scalar s => exact ⟨_, .scalarSource (by simp) s⟩
      | seq ys => exact ⟨_, .items xs ys⟩
      | map fs => exact ⟨_, .values xs fs⟩

theorem exists_appended_map {es : Entries Node} (he : es.Distinct) {source? : Option Node}
    (hs : ∀ m, source? = some m → m.WellFormed) :
    ∃ n, Appended (some (.map es)) source? n := by
  cases source? with
  | none => exact ⟨_, .noSource (by simp)⟩
  | some source =>
      cases source with
      | scalar s => exact ⟨_, .scalarSource (by simp) s⟩
      | seq ys =>
          by_cases hne : es = []
          · subst hne
            exact ⟨_, .emptyMap rfl (.items [] ys)⟩
          · exact ⟨_, .itemsIgnored hne ys⟩
      | map fs =>
          by_cases hne : es = []
          · subst hne
            exact ⟨_, .emptyMap rfl (.values [] fs)⟩
          · exact ⟨_, .entries hne (Entries.overlay_extend he (hs _ rfl).1)⟩

theorem exists_appended {target? source? : Option Node}
    (ht : ∀ m, target? = some m → m.WellFormed) (hs : ∀ m, source? = some m → m.WellFormed) :
    ∃ n, Appended target? source? n := by
  cases target? with
  | none =>
      obtain ⟨n, hn⟩ := exists_appended_items [] source?
      exact ⟨n, .absent hn⟩
  | some target =>
      cases target with
      | scalar s =>
          by_cases hnull : s = .null
          · subst hnull
            obtain ⟨n, hn⟩ := exists_appended_items [] source?
            exact ⟨n, .null hn⟩
          · exact ⟨_, .scalarTarget hnull source?⟩
      | seq xs => exact exists_appended_items xs source?
      | map es => exact exists_appended_map (ht _ rfl).1 hs

theorem appended_iff {target? source? : Option Node}
    (ht : ∀ m, target? = some m → m.WellFormed) (hs : ∀ m, source? = some m → m.WellFormed)
    (n : Node) : Appended target? source? n ↔ appendTo target? source? = n := by
  refine ⟨fun h => h.appendTo_eq ht hs, fun h => ?_⟩
  obtain ⟨m, hm⟩ := exists_appended ht hs
  rw [← h, hm.appendTo_eq ht hs]
  exact hm

theorem appendTo_ne_null (target? source? : Option Node) : appendTo target? source? ≠ .null := by
  have hstart : orNoItems target? ≠ .null := by
    cases target? with
    | none => simp [orNoItems]
    | some n =>
        by_cases hnull : n = .null
        · subst hnull
          simp [orNoItems, isNull]
        · rw [orNoItems_of_ne_null hnull]
          exact hnull
  cases source? with
  | none => exact hstart
  | some source =>
      rw [appendTo]
      cases hn : orNoItems target? with
      | scalar s =>
          rw [hn] at hstart
          exact hstart
      | seq xs => cases source <;> simp [append, offered?]
      | map es => cases es <;> cases source <;> simp [append, offered?]

theorem append_seq_append_seq (n : Node) (xs ys : List Node) :
    (n.append (.seq xs)).append (.seq ys) = n.append (.seq (xs ++ ys)) := by
  cases n with
  | scalar s => rfl
  | seq zs => simp [append, offered?]
  | map es => cases es <;> rfl

/-- Items that are appended in two steps are appended in one. An empty map is a sequence after the
first. -/
theorem appendTo_appendTo (target? : Option Node) (xs ys : List Node) :
    appendTo (some (appendTo target? (some (.seq xs)))) (some (.seq ys)) =
      appendTo target? (some (.seq (xs ++ ys))) := by
  rw [appendTo, orNoItems_of_ne_null (appendTo_ne_null target? _), appendTo, appendTo,
    append_seq_append_seq]

end Node

namespace Entries

theorem append_eq_insert (into : Entries Node) (key : String) (source : Entries Node) :
    append into key source =
      into.insert key (Node.appendTo (into.get? key) (source.get? key)) := by
  rw [append]
  cases source.get? key <;> rfl

theorem append_append_of_items {source more both : Entries Node} {key : String}
    {xs ys : List Node} (hs : source.get? key = some (.seq xs))
    (hm : more.get? key = some (.seq ys)) (hb : both.get? key = some (.seq (xs ++ ys)))
    (into : Entries Node) :
    append (append into key source) key more = append into key both := by
  simp only [append_eq_insert, hs, hm, hb, get?_insert, if_true, insert_insert,
    Node.appendTo_appendTo]

/-- Appending changes one entry, which keeps its place or is the last one if it is new. What it
holds then is told by the kinds of its value and of what is appended. Items can be appended in two
steps or in one, whatever the entry holds. -/
theorem append_by_kinds {into source : Entries Node} (hi : (Node.map into).WellFormed)
    (hs : (Node.map source).WellFormed) (key : String) :
    (append into key source).keys =
      (if key ∈ into.keys then into.keys else into.keys ++ [key]) ∧
    (∀ k, k ≠ key → (append into key source).get? k = into.get? k) ∧
    (∀ n, (append into key source).get? key = some n ↔
      Node.Appended (into.get? key) (source.get? key) n) ∧
    ∀ (more both : Entries Node) (xs ys : List Node), source.get? key = some (.seq xs) →
      more.get? key = some (.seq ys) → both.get? key = some (.seq (xs ++ ys)) →
      append (append into key source) key more = append into key both := by
  refine ⟨?_, fun k hk => ?_, fun n => ?_, fun more both xs ys hx hy hb => ?_⟩
  · rw [append_eq_insert, keys_insert]
  · rw [append_eq_insert, get?_insert, if_neg hk]
  · rw [append_eq_insert, get?_insert, if_pos rfl, Option.some.injEq,
      Node.appended_iff (fun m hm => hi.get? hm) (fun m hm => hs.get? hm)]
  · exact append_append_of_items hx hy hb into

theorem append_by_kinds_empty_map :
    append [("x", .map []), ("y", .null)] "x" [("x", .seq [.string "a"])] =
      [("x", .seq [.string "a"]), ("y", .null)] ∧
    Node.Appended (some (.map [])) (some (.seq [.string "a"])) (.seq [.string "a"]) ∧
    append (append [("x", .map []), ("y", .null)] "x" [("x", .seq [.string "a"])]) "x"
        [("x", .seq [.string "b"])] =
      append [("x", .map []), ("y", .null)] "x" [("x", .seq [.string "a", .string "b"])] := by
  have hi : (Node.map [("x", .map []), ("y", .null)]).WellFormed :=
    ⟨by decide, ⟨by decide, trivial⟩, trivial, trivial⟩
  have hs : (Node.map [("x", .seq [.string "a"])]).WellFormed :=
    ⟨by decide, ⟨trivial, trivial⟩, trivial⟩
  obtain ⟨-, -, hkinds, htwice⟩ := append_by_kinds hi hs "x"
  exact ⟨rfl, (hkinds _).mp rfl, htwice _ _ _ _ rfl rfl rfl⟩

/-- The entries that listed keys bring from a map, one for each time a key is listed. -/
def listed (f : Node → Node) (ks : List String) (source : Entries Node) : Entries Node :=
  ks.filterMap (fun k => (source.get? k).map (fun n => (k, f n)))

theorem mem_listed {f : Node → Node} {ks : List String} {source : Entries Node} {k : String}
    {n : Node} : (k, n) ∈ listed f ks source ↔ k ∈ ks ∧ (source.get? k).map f = some n := by
  simp only [listed, List.mem_filterMap, Option.map_eq_some_iff, Prod.mk.injEq]
  constructor
  · rintro ⟨j, hj, m, hm, rfl, rfl⟩
    exact ⟨hj, m, hm, rfl⟩
  · rintro ⟨hk, m, hm, rfl⟩
    exact ⟨k, hk, m, hm, rfl, rfl⟩

theorem keys_listed (f : Node → Node) (ks : List String) (source : Entries Node) :
    (listed f ks source).keys = ks.filter (fun k => k ∈ source.keys) := by
  induction ks with
  | nil => rfl
  | cons k ks ih =>
      simp only [listed, keys] at ih ⊢
      cases hk : source.get? k with
      | none =>
          have hmem := (get?_eq_none_iff k source).mp hk
          simp only [keys] at hmem
          simp [hk, hmem, ih]
      | some n =>
          have hmem := mem_keys_of_get? hk
          simp only [keys] at hmem
          simp [hk, hmem, ih]

theorem get?_listed (f : Node → Node) (ks : List String) (source : Entries Node) (k : String) :
    (listed f ks source).get? k = if k ∈ ks then (source.get? k).map f else none := by
  split
  · rename_i hk
    -- however often the key is listed, all its entries are the same
    cases hg : (source.get? k).map f with
    | none =>
        rw [get?_eq_none_iff, keys_listed, List.mem_filter, decide_eq_true_eq, mem_keys_iff_get?]
        simp [Option.map_eq_none_iff.mp hg]
    | some n =>
        obtain ⟨m, hm⟩ := exists_get? (mem_keys_of_mem (mem_listed.mpr ⟨hk, hg⟩))
        obtain ⟨-, hmap⟩ := mem_listed.mp (mem_of_get? hm)
        rw [hm, ← hmap, hg]
  · rename_i hk
    rw [get?_eq_none_iff, keys_listed, List.mem_filter]
    exact fun h => hk h.1

theorem copyWith_eq_extend (f : Node → Node) (into : Entries Node) (ks : List String)
    (source : Entries Node) : copyWith f into ks source = into.extend (listed f ks source) := by
  induction ks generalizing into with
  | nil => rfl
  | cons k ks ih =>
      rw [copyWith, List.foldl_cons]
      cases hk : source.get? k with
      | none => exact (ih into).trans (by simp [listed, hk])
      | some n => exact (ih _).trans (by simp [listed, hk, extend_cons])

theorem distinct_copyWith (f : Node → Node) {into : Entries Node} (hi : into.Distinct)
    (ks : List String) (source : Entries Node) : (copyWith f into ks source).Distinct := by
  rw [copyWith_eq_extend]
  exact distinct_extend hi _

theorem keys_copyWith (f : Node → Node) {into : Entries Node} (hi : into.Distinct)
    (ks : List String) (source : Entries Node) :
    (copyWith f into ks source).keys =
      into.keys ++ (ks.filter (fun k => k ∈ source.keys ∧ k ∉ into.keys)).eraseDups := by
  rw [copyWith_eq_extend, keys_extend hi, keys_listed, List.filter_filter]
  congr 2
  refine List.filter_congr fun k _ => ?_
  rw [Bool.and_comm, Bool.decide_and]

theorem get?_copyWith (f : Node → Node) (into : Entries Node) (ks : List String)
    (source : Entries Node) (k : String) :
    (copyWith f into ks source).get? k =
      (if k ∈ ks then (source.get? k).map f else none).or (into.get? k) := by
  have hagree : ∀ v w, (k, v) ∈ listed f ks source → (k, w) ∈ listed f ks source → v = w := by
    intro v w hv hw
    rw [mem_listed] at hv hw
    exact Option.some.inj (hv.2.symm.trans hw.2)
  rw [copyWith_eq_extend, get?_extend into hagree, get?_listed]

theorem copyWith_append (f : Node → Node) (into : Entries Node) (ks ks' : List String)
    (source : Entries Node) :
    copyWith f into (ks ++ ks') source = copyWith f (copyWith f into ks source) ks' source :=
  List.foldl_append

theorem get?_map_values (f : Node → Node) (es : Entries Node) (k : String) :
    Entries.get? k (es.map (fun e => (e.1, f e.2))) = (es.get? k).map f := by
  induction es with
  | nil => rfl
  | cons e rest ih =>
      obtain ⟨key, n⟩ := e
      by_cases hk : key = k
      · simp [hk]
      · simp [hk, ih]

theorem copyWith_eq_copy (f : Node → Node) (into : Entries Node) (ks : List String)
    (source : Entries Node) :
    copyWith f into ks source = copy into ks (source.map (fun e => (e.1, f e.2))) := by
  have hlisted : listed f ks source = listed id ks (source.map (fun e => (e.1, f e.2))) := by
    refine List.filterMap_congr fun k _ => ?_
    rw [get?_map_values]
    cases source.get? k <;> rfl
  rw [copy, copyWith_eq_extend, copyWith_eq_extend, hlisted]

theorem filter_copyWith (keep : String → Bool) {ks : List String}
    (h : ∀ k ∈ ks, keep k = false) (f : Node → Node) (into source : Entries Node) :
    (copyWith f into ks source).filter (fun e => keep e.1) =
      into.filter (fun e => keep e.1) := by
  induction ks generalizing into with
  | nil => rfl
  | cons k ks ih =>
      have hks := ih fun j hj => h j (List.mem_cons_of_mem k hj)
      rw [copyWith, List.foldl_cons]
      refine (hks _).trans ?_
      cases source.get? k with
      | none => rfl
      | some n => exact filter_insert (h k List.mem_cons_self) (f n) into

theorem removeAll_eq_filter {es : Entries Node} (hd : es.Distinct) (ks : List String) :
    removeAll es ks = es.filter (fun e => e.1 ∉ ks) := by
  induction ks generalizing es with
  | nil => simp [removeAll]
  | cons k ks ih =>
      rw [removeAll, List.foldl_cons]
      refine (ih (distinct_erase k hd)).trans ?_
      rw [erase_eq_filter hd, List.filter_filter]
      refine List.filter_congr fun e _ => ?_
      by_cases hk : e.1 = k <;> simp [hk]

theorem removeAll_copy {into : Entries Node} (hi : into.Distinct) (ks : List String)
    (source : Entries Node) : removeAll (copy into ks source) ks = removeAll into ks := by
  rw [copy, removeAll_eq_filter (distinct_copyWith id hi ks source), removeAll_eq_filter hi]
  exact filter_copyWith (fun k => k ∉ ks) (by simp) id into source

/-- Listed keys that the source has bring its values with them. Keys that are there keep their
places, and the others follow in the order in which they are first listed. Lists can be copied one
after the other or together, values can be made sequences before or after, and when the listed keys
are removed it makes no difference that they were copied: what is not listed is left as it was. -/
theorem copy_listed {into : Entries Node} (hi : into.Distinct) (source : Entries Node)
    (ks ks' : List String) :
    (copy into ks source).keys =
      into.keys ++ (ks.filter (fun k => k ∈ source.keys ∧ k ∉ into.keys)).eraseDups ∧
    (∀ k, (copy into ks source).get? k =
      if k ∈ ks ∧ k ∈ source.keys then source.get? k else into.get? k) ∧
    copy (copy into ks source) ks' source = copy into (ks ++ ks') source ∧
    copyItems into ks source =
      copy into ks (source.map (fun e => (e.1, .seq e.2.toItems))) ∧
    removeAll (copy into ks source) ks = removeAll into ks ∧
    removeAll into ks = into.filter (fun e => e.1 ∉ ks) := by
  refine ⟨keys_copyWith id hi ks source, fun k => ?_, ?_, ?_, ?_, ?_⟩
  · rw [copy, get?_copyWith, Option.map_id, id]
    by_cases hk : k ∈ ks
    · by_cases hs : k ∈ source.keys
      · obtain ⟨n, hn⟩ := exists_get? hs
        rw [if_pos hk, if_pos ⟨hk, hs⟩, hn, Option.some_or]
      · rw [if_pos hk, if_neg (fun h => hs h.2), (get?_eq_none_iff k source).mpr hs, Option.none_or]
    · rw [if_neg hk, if_neg (fun h => hk h.1), Option.none_or]
  · exact (copyWith_append id into ks ks' source).symm
  · exact copyWith_eq_copy _ into ks source
  · exact removeAll_copy hi ks source
  · exact removeAll_eq_filter hi ks

theorem copy_listed_twice :
    Entries.keys (copy [("a", .null), ("b", .null)] ["c", "b", "z", "c"]
      [("b", .string "B"), ("c", .string "C")]) = ["a", "b", "c"] ∧
    Entries.get? "c" (copy [("a", .null), ("b", .null)] ["c", "b", "z", "c"]
      [("b", .string "B"), ("c", .string "C")]) = some (.string "C") ∧
    removeAll (copy [("a", .null), ("b", .null)] ["c", "b", "z", "c"]
      [("b", .string "B"), ("c", .string "C")]) ["c", "b", "z", "c"] = [("a", .null)] := by
  have hi : Entries.Distinct [("a", Node.null), ("b", .null)] := by decide
  obtain ⟨hkeys, hvalues, -, -, hcopied, hleft⟩ :=
    copy_listed hi [("b", .string "B"), ("c", .string "C")] ["c", "b", "z", "c"] []
  refine ⟨hkeys.trans (by decide), (hvalues "c").trans (if_pos (by decide)), ?_⟩
  rw [hcopied, hleft]
  rfl

end Entries

end ConfigShape

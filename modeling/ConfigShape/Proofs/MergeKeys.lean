import ConfigShape.Proofs.Agreement
import ConfigShape.Proofs.JsonText

namespace ConfigShape

namespace Entries

variable {α : Type}

def fill (es new : Entries α) : Entries α :=
  new.foldl (fun acc e => if acc.contains e.1 then acc else acc ++ [e]) es

theorem fill_eq_append {es : Entries α} (hd : Distinct es) (new : Entries α) :
    ∃ more : Entries α, fill es new = es ++ more ∧ more.Sublist new ∧ Distinct (fill es new) := by
  induction new generalizing es with
  | nil => exact ⟨[], (List.append_nil es).symm, List.nil_sublist _, hd⟩
  | cons e new ih =>
      by_cases he : es.contains e.1 = true
      · have hstep : fill es (e :: new) = fill es new := by
          rw [fill, List.foldl_cons, if_pos he, fill]
        obtain ⟨more, hmore, hsub, hdistinct⟩ := ih hd
        rw [hstep]
        exact ⟨more, hmore, hsub.cons e, hdistinct⟩
      · have hstep : fill es (e :: new) = fill (es ++ [e]) new := by
          rw [fill, List.foldl_cons, if_neg he, fill]
        have hd' : Distinct (es ++ [e]) := by
          rw [contains_iff] at he
          rw [← insert_of_not_mem e.2 he]
          exact distinct_insert e.1 e.2 hd
        obtain ⟨more, hmore, hsub, hdistinct⟩ := ih hd'
        rw [hstep]
        exact ⟨e :: more, by rw [hmore, List.append_assoc]; rfl, hsub.cons_cons e, hdistinct⟩

end Entries

namespace Node

def toYaml (n : Node) : Yaml := n.toJson.toYaml

def yamlEntries (es : Entries Node) : List (Yaml × Yaml) :=
  es.map (fun e => (.string e.1, e.2.toYaml))

@[simp] theorem yamlEntries_nil : yamlEntries [] = [] := rfl

@[simp] theorem yamlEntries_cons (e : String × Node) (es : Entries Node) :
    yamlEntries (e :: es) = (.string e.1, e.2.toYaml) :: yamlEntries es := rfl

theorem yamlEntries_append (es fs : Entries Node) :
    yamlEntries (es ++ fs) = yamlEntries es ++ yamlEntries fs := List.map_append

theorem toYaml_seq (items : List Node) : (Node.seq items).toYaml = .seq (items.map toYaml) := by
  have hitems : Json.toYamlItems (toJsonItems items) = items.map toYaml := by
    induction items with
    | nil => rfl
    | cons n rest ih => rw [toJsonItems, Json.toYamlItems, ih, List.map_cons, toYaml]
  rw [toYaml, toJson, Json.toYaml, hitems]

theorem toYaml_map (es : Entries Node) : (Node.map es).toYaml = .map (yamlEntries es) := by
  have hes : Json.toYamlEntries (toJsonMembers es) = yamlEntries es := by
    induction es with
    | nil => rfl
    | cons e rest ih =>
        obtain ⟨k, n⟩ := e
        rw [toJsonMembers, Json.toYamlEntries, ih, yamlEntries_cons, toYaml]
  rw [toYaml, toJson, Json.toYaml, hes]

theorem hasKey_yamlEntries (k : String) (es : Entries Node) :
    Yaml.hasKey (.string k) (yamlEntries es) = es.contains k := by
  induction es with
  | nil => rfl
  | cons e rest ih =>
      rw [yamlEntries_cons, Yaml.hasKey, List.any_cons, ← Yaml.hasKey, ih, Entries.contains,
        Entries.contains, Entries.get?_cons, Yaml.same]
      by_cases hk : e.1 = k
      · simp [hk]
      · simp [hk, Ne.symm hk]

theorem fill_yamlEntries (es new : Entries Node) :
    Yaml.fill (yamlEntries es) (yamlEntries new) = yamlEntries (Entries.fill es new) := by
  induction new generalizing es with
  | nil => rfl
  | cons e new ih =>
      rw [yamlEntries_cons, Yaml.fill, List.foldl_cons, hasKey_yamlEntries, Entries.fill,
        List.foldl_cons]
      split
      · exact ih es
      · have hadd : yamlEntries es ++ [(.string e.1, e.2.toYaml)] = yamlEntries (es ++ [e]) :=
          (yamlEntries_append es [e]).symm
        rw [hadd]
        exact ih (es ++ [e])

theorem isMergeKey_string_iff (k : String) :
    Yaml.isMergeKey (.string k) = true ↔ k = "<<" := by
  simp [Yaml.isMergeKey]

theorem find?_isMergeKey (es : Entries Node) :
    (yamlEntries es).find? (fun e => Yaml.isMergeKey e.1) =
      (Entries.get? "<<" es).map (fun n => (.string "<<", n.toYaml)) := by
  induction es with
  | nil => rfl
  | cons e rest ih =>
      obtain ⟨k, n⟩ := e
      rw [yamlEntries_cons, Entries.get?_cons]
      by_cases hk : k = "<<"
      · rw [if_pos hk, List.find?_cons_of_pos (by exact (isMergeKey_string_iff k).mpr hk), hk]
        rfl
      · rw [if_neg hk, List.find?_cons_of_neg (by exact mt (isMergeKey_string_iff k).mp hk), ih]

theorem last_first_perm {α : Type} (l : List α) : (l.getLast?.toList ++ l.dropLast).Perm l := by
  rcases l.eq_nil_or_concat with rfl | ⟨front, last, rfl⟩
  · exact .nil
  · rw [List.concat_eq_append, List.getLast?_concat, List.dropLast_concat]
    exact (List.perm_append_singleton last front).symm

theorem yamlEntries_last_first (es : Entries Node) :
    (yamlEntries es).getLast?.toList ++ (yamlEntries es).dropLast =
      yamlEntries (es.getLast?.toList ++ es.dropLast) := by
  rw [yamlEntries_append, yamlEntries, yamlEntries, yamlEntries, List.getLast?_map,
    Option.toList_map, List.map_dropLast]

theorem exists_dropMergeKey (es : Entries Node) :
    ∃ own : Entries Node, Yaml.dropMergeKey (yamlEntries es) = yamlEntries own ∧
      own.Perm (Entries.erase "<<" es) := by
  induction es with
  | nil => exact ⟨[], rfl, .nil⟩
  | cons e rest ih =>
      obtain ⟨k, n⟩ := e
      rw [yamlEntries_cons, Yaml.dropMergeKey, Entries.erase]
      by_cases hk : k = "<<"
      · rw [if_pos ((isMergeKey_string_iff k).mpr hk), if_pos hk, yamlEntries_last_first]
        exact ⟨_, rfl, last_first_perm rest⟩
      · obtain ⟨own, hown, hperm⟩ := ih
        rw [if_neg (mt (isMergeKey_string_iff k).mp hk), if_neg hk, hown]
        exact ⟨(k, n) :: own, rfl, hperm.cons (k, n)⟩

example : Yaml.dropMergeKey (yamlEntries [("<<", .map []), ("os", .null), ("n", .null),
      ("dist", .null)]) =
    yamlEntries [("dist", .null), ("os", .null), ("n", .null)] := rfl

mutual
def size : Node → Nat
  | .scalar _ => 1
  | .seq items => sizeItems items + 1
  | .map es => sizeEntries es + 1

def sizeItems : List Node → Nat
  | [] => 0
  | n :: rest => n.size + sizeItems rest

def sizeEntries : List (String × Node) → Nat
  | [] => 0
  | (_, n) :: rest => n.size + sizeEntries rest
end

theorem sizeEntries_append (es fs : Entries Node) :
    sizeEntries (es ++ fs) = sizeEntries es + sizeEntries fs := by
  induction es with
  | nil => exact (Nat.zero_add _).symm
  | cons e rest ih => rw [List.cons_append, sizeEntries, sizeEntries, ih, Nat.add_assoc]

theorem sizeEntries_le_of_sublist {es fs : Entries Node} (h : es.Sublist fs) :
    sizeEntries es ≤ sizeEntries fs := by
  induction h with
  | slnil => exact Nat.le_refl _
  | cons e h ih => exact Nat.le_trans ih (Nat.le_add_left _ _)
  | cons_cons e h ih => exact Nat.add_le_add_left ih _

theorem sizeEntries_of_perm {es fs : Entries Node} (h : es.Perm fs) :
    sizeEntries es = sizeEntries fs := by
  induction h with
  | nil => rfl
  | cons e h ih => rw [sizeEntries, sizeEntries, ih]
  | swap e e' es => exact Nat.add_left_comm _ _ _
  | trans h h' ih ih' => exact ih.trans ih'

theorem sizeEntries_erase {k : String} {n : Node} {es : Entries Node}
    (h : Entries.get? k es = some n) :
    sizeEntries (Entries.erase k es) + n.size = sizeEntries es := by
  induction es with
  | nil => cases h
  | cons e rest ih =>
      obtain ⟨k', m⟩ := e
      rw [Entries.get?_cons] at h
      split at h
      · rename_i hk
        cases h
        rw [Entries.erase, if_pos hk, sizeEntries, Nat.add_comm]
      · rename_i hk
        rw [Entries.erase, if_neg hk, sizeEntries, sizeEntries, Nat.add_assoc, ih h]

mutual
theorem size_classified (n : Node) : n.classified.size = n.size := by
  cases n with
  | scalar s => rfl
  | seq items => rw [classified, size, size, sizeItems_classified items]
  | map es =>
      rw [classified]
      split
      · rw [size, size, (sizeEntries_classified es).2]
      · rw [size, size, (sizeEntries_classified es).1]

theorem sizeItems_classified (items : List Node) :
    sizeItems (classifiedItems items) = sizeItems items := by
  cases items with
  | nil => rfl
  | cons n rest =>
      rw [classifiedItems, sizeItems, sizeItems, size_classified n, sizeItems_classified rest]

theorem sizeEntries_classified (es : List (String × Node)) :
    sizeEntries (classifiedEntries es) = sizeEntries es ∧
      sizeItems (Entries.values (classifiedEntries es)) = sizeEntries es := by
  cases es with
  | nil => exact ⟨rfl, rfl⟩
  | cons e rest =>
      obtain ⟨k, n⟩ := e
      obtain ⟨hentries, hvalues⟩ := sizeEntries_classified rest
      rw [Entries.values] at hvalues
      rw [classifiedEntries, sizeEntries, sizeEntries, Entries.values, List.map_cons, sizeItems,
        size_classified n, hentries, hvalues]
      exact ⟨rfl, rfl⟩
end

theorem fill_wellFormed {es new : Entries Node} (he : (Node.map es).WellFormed)
    (hn : (Node.map new).WellFormed) :
    (Node.map (Entries.fill es new)).WellFormed ∧
      sizeEntries (Entries.fill es new) ≤ sizeEntries es + sizeEntries new := by
  obtain ⟨more, hmore, hsub, hd⟩ := Entries.fill_eq_append he.1 new
  refine ⟨⟨hd, (wellFormedEntries_iff _).mpr fun e h => ?_⟩, ?_⟩
  · rw [hmore, List.mem_append] at h
    rcases h with h | h
    · exact (wellFormedEntries_iff es).mp he.2 e h
    · exact (wellFormedEntries_iff new).mp hn.2 e (hsub.subset h)
  · rw [hmore, sizeEntries_append]
    exact Nat.add_le_add_left (sizeEntries_le_of_sublist hsub) _

theorem fillAll_wellFormed {es : Entries Node} (he : (Node.map es).WellFormed) (items : List Node)
    (hi : wellFormedItems items) {out : List (Yaml × Yaml)}
    (h : Yaml.fillAll (yamlEntries es) (items.map toYaml) = .ok out) :
    ∃ fs : Entries Node, out = yamlEntries fs ∧ (Node.map fs).WellFormed ∧
      sizeEntries fs ≤ sizeEntries es + sizeItems items := by
  induction items generalizing es with
  | nil =>
      cases h
      exact ⟨es, rfl, he, Nat.le_refl _⟩
  | cons n rest ih =>
      cases n with
      | scalar s => cases s <;> cases h
      | seq items =>
          rw [List.map_cons, toYaml_seq] at h
          cases h
      | map new =>
          obtain ⟨hfill, hsize⟩ := fill_wellFormed he hi.1
          rw [List.map_cons, toYaml_map, Yaml.fillAll, fill_yamlEntries] at h
          obtain ⟨fs, rfl, hfs, hle⟩ := ih hfill hi.2 h
          refine ⟨fs, rfl, hfs, ?_⟩
          rw [sizeItems, size]
          omega

theorem absorb_of_not_mem {es : Entries Node} (h : "<<" ∉ es.keys) :
    Yaml.absorb (yamlEntries es) = .ok (yamlEntries es) := by
  rw [Yaml.absorb, find?_isMergeKey, (Entries.get?_eq_none_iff _ es).mpr h]
  rfl

theorem absorb_of_mem {es : Entries Node} (hw : (Node.map es).WellFormed) (hk : "<<" ∈ es.keys)
    {out : List (Yaml × Yaml)} (h : Yaml.absorb (yamlEntries es) = .ok out) :
    ∃ fs : Entries Node, out = yamlEntries fs ∧ (Node.map fs).WellFormed ∧
      sizeEntries fs < sizeEntries es := by
  obtain ⟨n, hn⟩ := Entries.exists_get? hk
  obtain ⟨own, hdrop, hperm⟩ := exists_dropMergeKey es
  have hown := (hw.erase "<<").of_perm hperm
  have hwn := hw.get? hn
  have hsize := sizeEntries_erase hn
  rw [← sizeEntries_of_perm hperm] at hsize
  rw [Yaml.absorb, find?_isMergeKey, hdrop, hn, Option.map_some] at h
  cases n with
  | scalar s => cases s <;> cases h
  | seq items =>
      rw [toYaml_seq] at h
      obtain ⟨fs, hout, hfs, hle⟩ := fillAll_wellFormed hown items hwn h
      refine ⟨fs, hout, hfs, ?_⟩
      rw [size] at hsize
      omega
  | map new =>
      rw [toYaml_map] at h
      obtain ⟨hfill, hle⟩ := fill_wellFormed hown hwn
      refine ⟨_, ?_, hfill, ?_⟩
      · rw [← fill_yamlEntries]
        exact (Except.ok.inj h).symm
      · rw [size] at hsize
        omega

/-- No map in the node has a merge key. -/
abbrev MergeFree (n : Node) : Prop := n.AllKeys (fun k => k ≠ "<<")

/-- What merging to a depth may make of a node: no larger one, and a smaller one if the node has a
merge key and the depth reaches it. -/
structure MergedTo (depth : Nat) (n m : Node) : Prop where
  wellFormed : m.WellFormed
  size_le : m.size ≤ n.size
  size_lt : n.toYaml.depth ≤ depth → ¬ n.MergeFree → m.size < n.size

/-- The same for the values of entries, none of which has a merge key itself. -/
structure MergedValues (depth : Nat) (es fs : Entries Node) : Prop where
  keys_eq : fs.keys = es.keys
  wellFormed : wellFormedEntries fs
  size_le : sizeEntries fs ≤ sizeEntries es
  size_lt : Yaml.depthOfEntries (yamlEntries es) ≤ depth → "<<" ∉ es.keys →
    ¬ (Node.map es).MergeFree → sizeEntries fs < sizeEntries es

/-- Whatever merging to the depth gives is the value of a node that it may give. -/
def Merges (depth : Nat) : Prop :=
  ∀ (n : Node) (v : Yaml), n.WellFormed → Yaml.mergeTo depth n.toYaml = .ok v →
    ∃ m : Node, v = m.toYaml ∧ MergedTo depth n m

theorem Merges.mapItems {depth : Nat} (hdepth : Merges depth) (items : List Node)
    (hw : wellFormedItems items) {out : List Yaml}
    (h : Yaml.mapItems (Yaml.mergeTo depth) (items.map toYaml) = .ok out) :
    ∃ ms : List Node, out = ms.map toYaml ∧ MergedTo (depth + 1) (.seq items) (.seq ms) := by
  induction items generalizing out with
  | nil =>
      cases h
      exact ⟨[], rfl, trivial, Nat.le_refl _, fun _ hfree => absurd trivial hfree⟩
  | cons n rest ih =>
      simp only [List.map_cons, Yaml.mapItems, bind_eq_ok_iff, Except.ok.injEq] at h
      obtain ⟨vs, hrest, v, hn, rfl⟩ := h
      obtain ⟨m, rfl, hm⟩ := hdepth n v hw.1 hn
      obtain ⟨ms, rfl, hms⟩ := ih hw.2 hrest
      have hle : sizeItems ms ≤ sizeItems rest := Nat.le_of_succ_le_succ hms.size_le
      refine ⟨m :: ms, rfl, ⟨hm.wellFormed, hms.wellFormed⟩, ?_, fun hd hfree => ?_⟩
      · exact Nat.succ_le_succ (Nat.add_le_add hm.size_le hle)
      · rw [toYaml_seq, Yaml.depth, List.map_cons, Yaml.depthOfItems] at hd
        obtain ⟨hdn, hdrest⟩ := Nat.max_le.mp (Nat.le_of_succ_le_succ hd)
        refine Nat.succ_lt_succ ?_
        rcases not_and_or.mp hfree with hn | hfree
        · exact Nat.add_lt_add_of_lt_of_le (hm.size_lt hdn hn) hle
        · have hlt := hms.size_lt (by rw [toYaml_seq]; exact Nat.succ_le_succ hdrest) hfree
          exact Nat.add_lt_add_of_le_of_lt hm.size_le (Nat.lt_of_succ_lt_succ hlt)

theorem Merges.mapValues {depth : Nat} (hdepth : Merges depth) (es : Entries Node)
    (hw : wellFormedEntries es) {out : List (Yaml × Yaml)}
    (h : Yaml.mapValues (Yaml.mergeTo depth) (yamlEntries es) = .ok out) :
    ∃ fs : Entries Node, out = yamlEntries fs ∧ MergedValues depth es fs := by
  induction es generalizing out with
  | nil =>
      cases h
      exact ⟨[], rfl, rfl, trivial, Nat.le_refl _, fun _ _ hfree => absurd trivial hfree⟩
  | cons e rest ih =>
      obtain ⟨k, n⟩ := e
      simp only [yamlEntries_cons, Yaml.mapValues, bind_eq_ok_iff, Except.ok.injEq] at h
      obtain ⟨vs, hrest, v, hn, rfl⟩ := h
      obtain ⟨m, rfl, hm⟩ := hdepth n v hw.1 hn
      obtain ⟨fs, rfl, hfs⟩ := ih hw.2 hrest
      have hle := hfs.size_le
      refine ⟨(k, m) :: fs, rfl, ?_, ⟨hm.wellFormed, hfs.wellFormed⟩, ?_, fun hd hk hfree => ?_⟩
      · exact congrArg (k :: ·) hfs.keys_eq
      · exact Nat.add_le_add hm.size_le hle
      · rw [Entries.keys, List.map_cons, List.mem_cons, not_or] at hk
        obtain ⟨hne, hrest⟩ := hk
        rw [yamlEntries_cons, Yaml.depthOfEntries] at hd
        obtain ⟨hdn, hdrest⟩ := Nat.max_le.mp hd
        rw [sizeEntries, sizeEntries]
        rcases not_and_or.mp hfree with hkey | hfree
        · exact absurd (Ne.symm hne) hkey
        rcases not_and_or.mp hfree with hn | hfree
        · exact Nat.add_lt_add_of_lt_of_le (hm.size_lt hdn hn) hle
        · exact Nat.add_lt_add_of_le_of_lt hm.size_le (hfs.size_lt hdrest hrest hfree)

theorem MergedValues.map {depth : Nat} {es fs : Entries Node} (h : MergedValues depth es fs)
    (hd : es.Distinct) : (Node.map fs).WellFormed := by
  refine ⟨?_, h.wellFormed⟩
  rw [Entries.Distinct, h.keys_eq]
  exact hd

theorem MergedTo.refl {depth : Nat} {n : Node} (hw : n.WellFormed)
    (h : n.toYaml.depth ≤ depth → n.MergeFree) : MergedTo depth n n :=
  ⟨hw, Nat.le_refl _, fun hd hfree => absurd (h hd) hfree⟩

theorem merges (depth : Nat) : Merges depth := by
  induction depth with
  | zero =>
      intro n v hw h
      cases h
      refine ⟨n, rfl, .refl hw fun hd => ?_⟩
      cases n with
      | scalar s => trivial
      | seq items =>
          rw [toYaml_seq] at hd
          cases hd
      | map es =>
          rw [toYaml_map] at hd
          cases hd
  | succ depth ih =>
      intro n v hw h
      cases n with
      | scalar s =>
          have hv : v = (Node.scalar s).toYaml := by cases s <;> exact (Except.ok.inj h).symm
          exact ⟨.scalar s, hv, .refl trivial fun _ => trivial⟩
      | seq items =>
          rw [toYaml_seq, Yaml.mergeTo, bind_eq_ok_iff] at h
          obtain ⟨out, hout, hv⟩ := h
          cases hv
          obtain ⟨ms, rfl, hms⟩ := ih.mapItems items hw hout
          exact ⟨.seq ms, (toYaml_seq ms).symm, hms⟩
      | map es =>
          rw [toYaml_map, Yaml.mergeTo, bind_eq_ok_iff] at h
          obtain ⟨taken, htaken, h⟩ := h
          rw [bind_eq_ok_iff] at h
          obtain ⟨out, hout, hv⟩ := h
          cases hv
          -- with a merge key the size falls here, else in a value that the depth below reaches
          by_cases hk : "<<" ∈ Entries.keys es
          · obtain ⟨fs, rfl, hfs, hlt⟩ := absorb_of_mem hw hk htaken
            obtain ⟨gs, rfl, hgs⟩ := ih.mapValues fs hfs.2 hout
            have hsmaller : (Node.map gs).size < (Node.map es).size :=
              Nat.succ_lt_succ (Nat.lt_of_le_of_lt hgs.size_le hlt)
            exact ⟨.map gs, (toYaml_map gs).symm, hgs.map hfs.1, Nat.le_of_lt hsmaller,
              fun _ _ => hsmaller⟩
          · rw [absorb_of_not_mem hk] at htaken
            cases htaken
            obtain ⟨gs, rfl, hgs⟩ := ih.mapValues es hw.2 hout
            refine ⟨.map gs, (toYaml_map gs).symm, hgs.map hw.1, Nat.succ_le_succ hgs.size_le,
              fun hd hfree => Nat.succ_lt_succ (hgs.size_lt ?_ hk hfree)⟩
            rw [toYaml_map] at hd
            exact Nat.le_of_succ_le_succ hd

theorem mergeTo_of_mergeFree (depth : Nat) {n : Node} (hfree : n.MergeFree) :
    Yaml.mergeTo depth n.toYaml = .ok n.toYaml := by
  induction depth generalizing n with
  | zero => rfl
  | succ depth ih =>
      cases n with
      | scalar s => cases s <;> rfl
      | seq items =>
          have hitems : Yaml.mapItems (Yaml.mergeTo depth) (items.map toYaml) =
              .ok (items.map toYaml) := by
            induction items with
            | nil => rfl
            | cons n rest ihr =>
                rw [List.map_cons, Yaml.mapItems, ihr hfree.2, ih hfree.1]
                rfl
          rw [toYaml_seq, Yaml.mergeTo, hitems]
          rfl
      | map es =>
          have hkeys : "<<" ∉ Entries.keys es := by
            intro hk
            obtain ⟨e, he, hkey⟩ := List.mem_map.mp hk
            exact ((allKeys_map_iff es).mp hfree e he).1 hkey
          have hvalues : Yaml.mapValues (Yaml.mergeTo depth) (yamlEntries es) =
              .ok (yamlEntries es) := by
            clear hkeys
            induction es with
            | nil => rfl
            | cons e rest ihr =>
                rw [yamlEntries_cons, Yaml.mapValues, ihr hfree.2.2, ih hfree.2.1]
                rfl
          rw [toYaml_map, Yaml.mergeTo, absorb_of_not_mem hkeys]
          simp only [bind, Except.bind, hvalues]

end Node

/-- The value of a text, before merging. -/
def Yaml.ofText (text : String) : Except YamlFault Yaml := ofTape (.ofEvents (events text.toList))

namespace Node

theorem ofYamlText_ok_iff {text : String} {v : Yaml} (hv : Yaml.ofText text = .ok v) (n : Node) :
    ofYamlText text = .ok n ↔
      ∃ w, v.merge = .ok w ∧ ∃ r, Raw.ofYaml w = .ok r ∧ r.lift = .ok n := by
  have hparse : Yaml.parse text = v.merge.mapError .merge := by
    rw [Yaml.parse, ← Yaml.ofText, hv]
    cases hm : v.merge <;> simp [bind, Except.bind, hm, Except.mapError]
  simp only [ofYamlText, hparse, bind_eq_ok_iff, mapError_eq_ok_iff]

theorem ofYamlText_toYaml_iff {text : String} {n : Node} (hc : n.Canonical) (hw : n.WellFormed)
    (hv : Yaml.ofText text = .ok n.toYaml) : ofYamlText text = .ok n ↔ n.MergeFree := by
  rw [ofYamlText_ok_iff hv]
  constructor
  · rintro ⟨w, hmerge, r, hr, hn⟩
    obtain ⟨m, rfl, hm⟩ := merges _ n w hw hmerge
    by_contra hfree
    -- classification keeps the size, so that a smaller node is not the one that was written
    have hsmaller := hm.size_lt (Nat.le_refl _) hfree
    have htree := Raw.ofYamlAt_toYaml "$" m.toJson hm.wellFormed.toJson
    rw [← toYaml, ← Raw.ofYaml, hr] at htree
    cases htree
    obtain ⟨-, rfl⟩ := (Raw.lift_ofJson_ok_iff hm.wellFormed.toJson n).mp hn
    rw [ofJson_toJson, size_classified] at hsmaller
    exact Nat.lt_irrefl _ hsmaller
  · intro hfree
    exact ⟨n.toYaml, mergeTo_of_mergeFree _ hfree, Raw.ofJson n.toJson,
      Raw.ofYamlAt_toYaml "$" n.toJson hw.toJson, Raw.lift_ofJson_toJson hc hw⟩

/-- A node decoded from JSON text, whose YAML text holds its value: it is read back from that text
exactly when no map anywhere in it has a merge key. -/
theorem ofYamlText_yamlText_iff {source : String} {n : Node} (hn : ofJsonText source = .ok n)
    (hread : Yaml.ofText n.yamlText = .ok n.toYaml) :
    ofYamlText n.yamlText = .ok n ↔ n.MergeFree := by
  obtain ⟨hc, hw⟩ := canonical_of_decoded (.inl hn)
  exact ofYamlText_toYaml_iff hc hw hread

theorem ofYamlText_yamlText_half :
    ofJsonText "\x7b\"a\":\x7b\"<\":[true,null]\x7d\x7d" =
        .ok (.map [("a", .map [("<", .seq [.scalar (.bool true), .null])])]) ∧
      ofYamlText "a:\n  <:\n  - true\n  - null\n" =
        .ok (.map [("a", .map [("<", .seq [.scalar (.bool true), .null])])]) := by
  let n : Node := .map [("a", .map [("<", .seq [.scalar (.bool true), .null])])]
  have hn : ofJsonText "\x7b\"a\":\x7b\"<\":[true,null]\x7d\x7d" = .ok n := rfl
  have htext : n.yamlText = "a:\n  <:\n  - true\n  - null\n" := rfl
  have hevents : Yaml.events "a:\n  <:\n  - true\n  - null\n".toList =
      [.mappingStart none none, .scalar none none "a" true, .mappingStart none none,
        .scalar none none "<" true, .sequenceStart none none, .scalar none none "true" true,
        .scalar none none "null" true, .sequenceEnd, .mappingEnd, .mappingEnd, .documentEnd,
        .streamEnd] := by decide +kernel
  have hread : Yaml.ofText n.yamlText = .ok n.toYaml := by
    rw [Yaml.ofText, htext, hevents]
    rfl
  have hbelow : (Node.map [("<", .seq [.scalar (.bool true), .null])]).MergeFree :=
    ⟨by decide, ⟨trivial, trivial, trivial⟩, trivial⟩
  have hfree : n.MergeFree := ⟨by decide, hbelow, trivial⟩
  exact ⟨hn, (ofYamlText_yamlText_iff hn hread).mpr hfree⟩

theorem not_all_yaml_read_back :
    ¬ ∀ (source : String) (n : Node), ofJsonText source = .ok n → n.FloatFree →
      Yaml.ofText n.yamlText = .ok n.toYaml → ofYamlText n.yamlText = .ok n := by
  intro h
  let n : Node := .map [("<<", .map [("a", .null)])]
  have hn : ofJsonText "\x7b\"<<\":\x7b\"a\":null\x7d\x7d" = .ok n := rfl
  have htext : n.yamlText = "<<:\n  a: null\n" := rfl
  have hevents : Yaml.events "<<:\n  a: null\n".toList =
      [.mappingStart none none, .scalar none none "<<" true, .mappingStart none none,
        .scalar none none "a" true, .scalar none none "null" true, .mappingEnd, .mappingEnd,
        .documentEnd, .streamEnd] := by decide +kernel
  have hread : Yaml.ofText n.yamlText = .ok n.toYaml := by
    rw [Yaml.ofText, htext, hevents]
    rfl
  obtain ⟨hc, hw⟩ := canonical_of_decoded (.inl hn)
  have hfree := (ofYamlText_toYaml_iff hc hw hread).mp
    (h _ n hn ⟨⟨trivial, trivial⟩, trivial⟩ hread)
  exact hfree.1 rfl

end Node

end ConfigShape

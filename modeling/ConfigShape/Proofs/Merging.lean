import ConfigShape.Proofs.AliasSurvival
import ConfigShape.Proofs.WellFormed

namespace ConfigShape

namespace Entries

variable {α : Type}

/-- The entries of one map laid over those of another: first come the keys that are laid over, then
the new ones, and where both have a key the new value wins. -/
structure Overlay (es new all : Entries α) : Prop where
  keys : all.keys = es.keys ++ new.keys.filter (fun k => k ∉ es.keys)
  values : ∀ k, all.get? k = (new.get? k).or (es.get? k)

theorem extend_eq_ofList {es : Entries α} (hd : es.Distinct) (new : Entries α) :
    extend es new = ofList (es ++ new) := by
  rw [ofList, extend, extend, List.foldl_append]
  congr 1
  exact (ofList_of_distinct hd).symm

theorem keys_extend {es : Entries α} (hd : es.Distinct) (new : Entries α) :
    keys (extend es new) = keys es ++ ((keys new).filter (fun k => k ∉ keys es)).eraseDups := by
  have hkeys : (keys es).eraseDups = keys es := by rw [← keys_ofList, ofList_of_distinct hd]
  have happend : keys (es ++ new) = keys es ++ keys new := List.map_append
  rw [extend_eq_ofList hd, keys_ofList, happend, List.eraseDups_append, hkeys]
  simp [List.removeAll]

theorem get?_extend {k : String} (es : Entries α) {new : Entries α}
    (h : ∀ v w, (k, v) ∈ new → (k, w) ∈ new → v = w) :
    get? k (extend es new) = (get? k new).or (get? k es) := by
  induction new generalizing es with
  | nil => rfl
  | cons e rest ih =>
      obtain ⟨key, value⟩ := e
      have hrest := ih (insert key value es) fun v w hv hw =>
        h v w (List.mem_cons_of_mem _ hv) (List.mem_cons_of_mem _ hw)
      rw [extend_cons, hrest, get?_insert, get?_cons]
      by_cases hk : key = k
      · subst hk
        rw [if_pos rfl, if_pos rfl]
        -- a later entry of the key would win, but it has the same value
        cases hg : get? key rest with
        | none => rfl
        | some w =>
            rw [h value w List.mem_cons_self (List.mem_cons_of_mem _ (mem_of_get? hg))]
            rfl
      · rw [if_neg hk, if_neg (fun he => hk he.symm)]

theorem Distinct.agree {new : Entries α} (hn : new.Distinct) (k : String) :
    ∀ v w, (k, v) ∈ new → (k, w) ∈ new → v = w := by
  intro v w hv hw
  rw [← get?_eq_some_iff hn] at hv hw
  exact Option.some.inj (hv.symm.trans hw)

theorem overlay_extend {es new : Entries α} (hd : es.Distinct) (hn : new.Distinct) :
    Overlay es new (extend es new) := by
  refine ⟨?_, fun k => get?_extend es (hn.agree k)⟩
  rw [keys_extend hd, eraseDups_of_nodup]
  exact List.Nodup.filter _ hn

namespace Overlay

variable {es new all other : Entries α}

theorem mem_keys_iff (h : Overlay es new all) (k : String) :
    k ∈ all.keys ↔ k ∈ es.keys ∨ k ∈ new.keys := by
  rw [h.keys, List.mem_append, List.mem_filter, decide_eq_true_eq]
  tauto

theorem unique (ha : Overlay es new all) (ho : Overlay es new other) (hd : all.Distinct) :
    all = other := by
  refine eq_of_get? hd ?_ fun k => ?_
  · rw [ha.keys, ho.keys]
  · rw [ha.values, ho.values]

theorem absorb (h : Overlay es new all) : Overlay all new all := by
  refine ⟨?_, fun k => ?_⟩
  · have hnone : new.keys.filter (fun k => k ∉ all.keys) = [] := by
      rw [List.filter_eq_nil_iff]
      intro k hk
      simpa using (h.mem_keys_iff k).mpr (Or.inr hk)
    rw [hnone, List.append_nil]
  · rw [h.values]
    cases new.get? k <;> rfl

theorem assoc {a b c ab bc all : Entries α} (hab : Overlay a b ab) (hbc : Overlay b c bc)
    (hall : Overlay ab c all) : Overlay a bc all := by
  refine ⟨?_, fun k => ?_⟩
  · -- what is new to the first two is what is new to the second and then to the first
    have hnew : c.keys.filter (fun k => k ∉ ab.keys) =
        (c.keys.filter (fun k => k ∉ b.keys)).filter (fun k => k ∉ a.keys) := by
      rw [List.filter_filter]
      refine List.filter_congr fun k _ => ?_
      simp [hab.mem_keys_iff k]
    rw [hall.keys, hnew, hab.keys, hbc.keys, List.filter_append, List.append_assoc]
  · rw [hall.values, hab.values, hbc.values, Option.or_assoc]

end Overlay

theorem extend_extend_self {es new : Entries α} (hd : es.Distinct) (hn : new.Distinct) :
    extend (extend es new) new = extend es new := by
  have hone := overlay_extend hd hn
  have htwo := overlay_extend (distinct_extend hd new) hn
  exact htwo.unique hone.absorb (distinct_extend (distinct_extend hd new) new)

theorem extend_assoc {a b c : Entries α} (ha : a.Distinct) (hb : b.Distinct) (hc : c.Distinct) :
    extend (extend a b) c = extend a (extend b c) := by
  have hab := overlay_extend ha hb
  have hbc := overlay_extend hb hc
  have hall := overlay_extend (distinct_extend ha b) hc
  have hright := overlay_extend ha (distinct_extend hb c)
  exact (hab.assoc hbc hall).unique hright (distinct_extend (distinct_extend ha b) c)

end Entries

namespace Node

theorem mergeInto_map (into : Entries Node) (table : AliasTable) (es : Entries Node) :
    mergeInto into table (.map es) = into.extend (table.resolve es) := rfl

theorem mergeInto_of_not_map (into : Entries Node) (table : AliasTable) {what : Node}
    (h : ∀ es, what ≠ .map es) : mergeInto into table what = into := by
  cases what with
  | scalar | seq => rfl
  | map es => exact absurd rfl (h es)

theorem mergeInto_no_aliases (into es : Entries Node) :
    mergeInto into [] (.map es) = into.extend es := rfl

/-- Merging puts what the aliases leave of a map over the entries, and leaves them as they are when
there is no map. A second time changes nothing more, and without aliases maps can be merged in any
grouping. -/
theorem mergeInto_overlay {into : Entries Node} (hi : into.Distinct) (table : AliasTable)
    {what : Node} (hw : what.WellFormed) :
    ((∀ es, what ≠ .map es) → mergeInto into table what = into) ∧
    (∀ es, what = .map es → ∃ left : Entries Node, what.resolveAliases table = .map left ∧
      Entries.Overlay into left (mergeInto into table what)) ∧
    mergeInto (mergeInto into table what) table what = mergeInto into table what ∧
    (∀ b c : Entries Node, b.Distinct → c.Distinct →
      mergeInto (mergeInto into [] (.map b)) [] (.map c) =
        mergeInto into [] (.map (mergeInto b [] (.map c)))) ∧
    mergeInto into [] (.map []) = into ∧ mergeInto [] [] (.map into) = into := by
  have hleft {es : Entries Node} (he : what = .map es) : (table.resolve es).Distinct := by
    subst he
    exact AliasTable.distinct_resolve table hw.1
  refine ⟨mergeInto_of_not_map into table, fun es he => ?_, ?_, fun b c hb hc => ?_, rfl, ?_⟩
  · subst he
    exact ⟨table.resolve es, rfl, Entries.overlay_extend hi (hleft rfl)⟩
  · cases what with
    | scalar | seq => rfl
    | map es =>
        rw [mergeInto_map, mergeInto_map]
        exact Entries.extend_extend_self hi (hleft rfl)
  · simp only [mergeInto_no_aliases]
    exact Entries.extend_assoc hi hb hc
  · rw [mergeInto_no_aliases]
    exact Entries.ofList_of_distinct hi

theorem mergeInto_overlay_alias :
    mergeInto [("jobs", .null), ("rvm", .string "2")] [("matrix", "jobs")]
        (.map [("matrix", .string "M"), ("os", .string "osx")]) =
      [("jobs", .string "M"), ("rvm", .string "2"), ("os", .string "osx")] ∧
    Entries.Overlay [("jobs", Node.null), ("rvm", .string "2")]
      [("os", .string "osx"), ("jobs", .string "M")]
      [("jobs", .string "M"), ("rvm", .string "2"), ("os", .string "osx")] ∧
    mergeInto [("jobs", .null), ("rvm", .string "2")] [("matrix", "jobs")] (.seq [.string "M"]) =
      [("jobs", .null), ("rvm", .string "2")] ∧
    mergeInto (mergeInto [("os", .string "linux")] [] (.map [("rvm", .string "1")])) []
        (.map [("jobs", .null), ("rvm", .string "2")]) =
      mergeInto [("os", .string "linux")] []
        (.map (mergeInto [("rvm", .string "1")] []
          (.map [("jobs", .null), ("rvm", .string "2")]))) := by
  have hi : Entries.Distinct [("jobs", Node.null), ("rvm", .string "2")] := by decide
  have ho : Entries.Distinct [("os", Node.string "linux")] := by decide
  have hw : (Node.map [("matrix", .string "M"), ("os", .string "osx")]).WellFormed :=
    ⟨by decide, trivial, trivial, trivial⟩
  obtain ⟨-, hmap, -⟩ := mergeInto_overlay hi [("matrix", "jobs")] hw
  obtain ⟨left, hleft, hover⟩ := hmap _ rfl
  obtain rfl : left = [("os", .string "osx"), ("jobs", .string "M")] :=
    (Node.map.inj hleft).symm
  have hitems : (Node.seq [.string "M"]).WellFormed := ⟨trivial, trivial⟩
  obtain ⟨hseq, -⟩ := mergeInto_overlay hi [("matrix", "jobs")] hitems
  obtain ⟨-, -, -, hgroup, -⟩ := mergeInto_overlay ho [] hitems
  exact ⟨rfl, hover, hseq (by simp), hgroup _ _ (by decide) hi⟩

end Node

end ConfigShape

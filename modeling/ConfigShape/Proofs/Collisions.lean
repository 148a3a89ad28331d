import Mathlib.Data.List.Induction
import Mathlib.Data.List.Nodup

namespace ConfigShape

variable {κ α : Type} [BEq κ]

/-- What is left of pairs when the keys stand where they come first, and of the values of a key the
one that comes last is kept. -/
structure LastWins (all es : List (κ × α)) : Prop where
  keys : es.map Prod.fst = (all.map Prod.fst).eraseDups
  values : ∀ e ∈ es, (all.filter (fun f => f.1 == e.1)).getLast? = some e

theorem LastWins.unique {all es fs : List (κ × α)} (he : LastWins all es) (hf : LastWins all fs) :
    es = fs := by
  let last (k : κ) : Option (κ × α) := (all.filter (fun f => f.1 == k)).getLast?
  have hsome {gs : List (κ × α)} (hg : LastWins all gs) :
      (gs.map Prod.fst).map last = gs.map some := by
    rw [List.map_map]
    exact List.map_congr_left hg.values
  have heq : es.map some = fs.map some := by
    rw [← hsome he, ← hsome hf, he.keys, hf.keys]
  exact List.map_injective_iff.mpr (fun _ _ => Option.some.inj) heq

theorem LastWins.mem {all es : List (κ × α)} (h : LastWins all es) {e : κ × α} (he : e ∈ es) :
    e ∈ all := (List.mem_filter.mp (List.mem_of_getLast? (h.values e he))).1

variable [LawfulBEq κ]

theorem eraseDups_concat (ks : List κ) (k : κ) :
    (ks ++ [k]).eraseDups = if k ∈ ks then ks.eraseDups else ks.eraseDups ++ [k] := by
  rw [List.eraseDups_append]
  by_cases h : k ∈ ks <;> simp [List.removeAll, h, List.eraseDups_cons]

theorem nodup_eraseDups (ks : List κ) : ks.eraseDups.Nodup := by
  induction ks using List.reverseRecOn with
  | nil => exact List.nodup_nil
  | append_singleton ks k ih =>
      rw [eraseDups_concat]
      split
      · exact ih
      · rename_i hk
        rw [← List.concat_eq_append]
        exact List.Nodup.concat (mt List.mem_eraseDups.mp hk) ih

theorem eraseDups_of_nodup {ks : List κ} (h : ks.Nodup) : ks.eraseDups = ks := by
  induction ks using List.reverseRecOn with
  | nil => rfl
  | append_singleton ks k ih =>
      obtain ⟨hks, -, hdisjoint⟩ := List.nodup_append.mp h
      have hk : k ∉ ks := fun hmem => hdisjoint k hmem k (List.mem_singleton_self k) rfl
      rw [eraseDups_concat, if_neg hk, ih hks]

namespace LastWins

variable {all es fs : List (κ × α)}

theorem nodup (h : LastWins all es) : (es.map Prod.fst).Nodup := by
  rw [h.keys]
  exact nodup_eraseDups _

theorem concat {k : κ} {v : α} (h : LastWins all es)
    (hkeys : fs.map Prod.fst =
      if k ∈ es.map Prod.fst then es.map Prod.fst else es.map Prod.fst ++ [k])
    (hself : (k, v) ∈ fs) (hmem : ∀ e ∈ fs, e = (k, v) ∨ e ∈ es) :
    LastWins (all ++ [(k, v)]) fs := by
  have hfs : fs.map Prod.fst = ((all ++ [(k, v)]).map Prod.fst).eraseDups := by
    rw [List.map_append, List.map_singleton, eraseDups_concat, hkeys, h.keys]
    simp only [List.mem_eraseDups]
  refine ⟨hfs, fun e he => ?_⟩
  have hnodup : (fs.map Prod.fst).Nodup := hfs ▸ nodup_eraseDups _
  rw [List.filter_append]
  by_cases hk : k = e.1
  · have hev : e = (k, v) := List.inj_on_of_nodup_map hnodup he hself hk.symm
    subst hev
    simp
  · have hes : e ∈ es := by
      rcases hmem e he with rfl | hes
      · exact absurd rfl hk
      · exact hes
    have hb : (k == e.1) = false := by simpa using hk
    simpa [hb] using h.values e hes

theorem of_foldl {put : κ → α → List (κ × α) → List (κ × α)}
    (hkeys : ∀ k v es, (put k v es).map Prod.fst =
      if k ∈ es.map Prod.fst then es.map Prod.fst else es.map Prod.fst ++ [k])
    (hself : ∀ k v es, (k, v) ∈ put k v es)
    (hmem : ∀ k v es, ∀ e ∈ put k v es, e = (k, v) ∨ e ∈ es) (all : List (κ × α)) :
    LastWins all (all.foldl (fun acc e => put e.1 e.2 acc) []) := by
  induction all using List.reverseRecOn with
  | nil => exact ⟨rfl, fun e he => absurd he List.not_mem_nil⟩
  | append_singleton all e ih =>
      rw [List.foldl_concat]
      exact ih.concat (hkeys _ _ _) (hself _ _ _) (hmem _ _ _)

end LastWins

end ConfigShape

import Mathlib.Data.List.Perm.Basic
import Mathlib.Data.List.Perm.Subperm
import Mathlib.Logic.Relation
import ConfigShape.Proofs.Lifting
import ConfigShape.Proofs.WellFormed

namespace ConfigShape

theorem Double.isZero_iff (d : Double) : d.isZero = true ↔ ∃ negative, d = zero negative := by
  constructor
  · intro h
    obtain ⟨negative, ordinal, hfinite⟩ := d
    cases eq_of_beq h
    exact ⟨negative, rfl⟩
  · rintro ⟨negative, rfl⟩
    rfl

theorem Double.same_iff (a b : Double) :
    a.same b = true ↔ a = b ∨ ∃ x y, a = zero x ∧ b = zero y := by
  simp only [same, Bool.or_eq_true, Bool.and_eq_true, beq_iff_eq, isZero_iff, or_comm,
    exists_and_exists_comm]

namespace Scalar

def zero (negative : Bool) : Scalar := .number (.float (Double.zero negative))

theorem same_iff (s t : Scalar) : s.same t = true ↔ s = t ∨ ∃ x y, s = zero x ∧ t = zero y := by
  cases s with
  | null | bool | string => cases t <;> simp [same, zero]
  | number m =>
      cases t with
      | null | bool | string => simp [same, zero]
      | number n =>
          cases m <;> cases n <;> simp [same, Number.same, zero, Double.same_iff]

theorem same_self (s : Scalar) : s.same s = true := (same_iff s s).mpr (Or.inl rfl)

theorem same_symm {s t : Scalar} (h : s.same t = true) : t.same s = true := by
  rw [same_iff] at h ⊢
  rcases h with rfl | ⟨x, y, hs, ht⟩
  · exact Or.inl rfl
  · exact Or.inr ⟨y, x, ht, hs⟩

theorem same_trans {s t u : Scalar} (h : s.same t = true) (h' : t.same u = true) :
    s.same u = true := by
  rw [same_iff] at h h' ⊢
  rcases h with rfl | ⟨x, y, hs, ht⟩
  · exact h'
  · rcases h' with rfl | ⟨y', z, -, hu⟩
    · exact Or.inr ⟨x, y, hs, ht⟩
    · exact Or.inr ⟨x, z, hs, hu⟩

end Scalar

namespace Node

def Agrees (e f : String × Node) : Prop := e.1 = f.1 ∧ e.2.same f.2 = true

theorem same_seq_iff (xs ys : List Node) :
    (Node.seq xs).same (.seq ys) = true ↔ List.Forall₂ (fun x y => x.same y = true) xs ys := by
  rw [same]
  induction xs generalizing ys with
  | nil => cases ys <;> simp [sameItems]
  | cons x xs ih => cases ys <;> simp [sameItems, ih]

theorem sameEntries_iff (es : List (String × Node)) (fs : Entries Node) :
    sameEntries es fs = true ↔
      ∃ gs, List.Forall₂ Agrees es gs ∧ ∀ g ∈ gs, fs.get? g.1 = some g.2 := by
  induction es with
  | nil => simp [sameEntries]
  | cons e rest ih =>
      obtain ⟨k, n⟩ := e
      rw [sameEntries, Bool.and_eq_true, ih]
      constructor
      · rintro ⟨hn, gs, hall, hgs⟩
        cases hk : fs.get? k with
        | none => simp [hk] at hn
        | some m =>
            rw [hk] at hn
            exact ⟨(k, m) :: gs, .cons ⟨rfl, hn⟩ hall, List.forall_mem_cons.mpr ⟨hk, hgs⟩⟩
      · rintro ⟨_, hall, hgs⟩
        cases hall with
        | cons hhead hall =>
            rename_i g gs
            obtain ⟨hkey, hsame⟩ := hhead
            rw [List.forall_mem_cons] at hgs
            refine ⟨?_, gs, hall, hgs.2⟩
            dsimp only at hkey
            rw [hkey, hgs.1]
            exact hsame

theorem keys_eq_of_agrees {es gs : Entries Node} (h : List.Forall₂ Agrees es gs) :
    es.keys = gs.keys := by
  induction h with
  | nil => rfl
  | cons h _ ih =>
      simp only [Entries.keys, List.map_cons] at ih ⊢
      rw [h.1, ih]

theorem distinct_of_agrees {es gs fs : Entries Node} (he : es.Distinct)
    (hall : List.Forall₂ Agrees es gs) (hperm : gs.Perm fs) : fs.Distinct := by
  refine Entries.Distinct.perm ?_ hperm.symm
  rw [Entries.Distinct, ← keys_eq_of_agrees hall]
  exact he

/-- Two maps have the same content exactly when one of them, put in another order, agrees with the
other entry by entry. -/
theorem same_map_iff {es : Entries Node} (he : es.Distinct) (fs : Entries Node) :
    (Node.map es).same (.map fs) = true ↔
      ∃ gs : Entries Node, List.Forall₂ Agrees es gs ∧ gs.Perm fs := by
  rw [same, Bool.and_eq_true, beq_iff_eq, sameEntries_iff]
  constructor
  · rintro ⟨hlength, gs, hall, hgs⟩
    refine ⟨gs, hall, ?_⟩
    -- no entry comes twice and all are among as many entries, so they are all of these
    have hnodup : gs.Nodup := by
      refine List.Nodup.of_map Prod.fst ?_
      rw [← Entries.keys, ← keys_eq_of_agrees hall]
      exact he
    have hsubset : gs ⊆ fs := fun g hg => Entries.mem_of_get? (hgs g hg)
    exact (List.subperm_of_subset hnodup hsubset).perm_of_length_le
      (Nat.le_of_eq (hlength.symm.trans hall.length_eq))
  · rintro ⟨gs, hall, hperm⟩
    have hf := distinct_of_agrees he hall hperm
    refine ⟨hall.length_eq.trans hperm.length_eq, gs, hall, fun g hg => ?_⟩
    rw [Entries.get?_eq_some_iff hf]
    exact hperm.mem_iff.mp hg

theorem same_self {n : Node} (h : n.WellFormed) : n.same n = true := by
  induction n using induction_parts with
  | scalar s => exact s.same_self
  | seq items ih =>
      rw [wellFormed_seq_iff] at h
      rw [same_seq_iff, List.forall₂_same]
      exact fun x hx => ih x hx (h x hx)
  | map es ih =>
      rw [wellFormed_map_iff] at h
      rw [same_map_iff h.1]
      refine ⟨es, ?_, List.Perm.refl es⟩
      rw [List.forall₂_same]
      exact fun e he => ⟨rfl, ih e he (h.2 e he)⟩

theorem same_symm {m n : Node} (hm : m.WellFormed) (h : m.same n = true) : n.same m = true := by
  induction m using induction_parts generalizing n with
  | scalar s =>
      cases n with
      | scalar t => exact Scalar.same_symm h
      | seq | map => cases h
  | seq xs ih =>
      cases n with
      | scalar | map => cases h
      | seq ys =>
          rw [wellFormed_seq_iff] at hm
          rw [same_seq_iff] at h ⊢
          exact (forall₂_imp_of_mem h fun x hx y hxy => ih x hx (hm x hx) hxy).flip
  | map es ih =>
      cases n with
      | scalar | seq => cases h
      | map fs =>
          rw [wellFormed_map_iff] at hm
          obtain ⟨gs, hall, hperm⟩ := (same_map_iff hm.1 fs).mp h
          rw [same_map_iff (distinct_of_agrees hm.1 hall hperm)]
          have hback : List.Forall₂ Agrees gs es := List.Forall₂.flip <|
            forall₂_imp_of_mem hall fun e he g heg =>
              ⟨heg.1.symm, ih e he (hm.2 e he) heg.2⟩
          exact List.perm_comp_forall₂ hperm.symm hback

theorem same_trans {m n k : Node} (hm : m.WellFormed) (h : m.same n = true)
    (h' : n.same k = true) : m.same k = true := by
  induction m using induction_parts generalizing n k with
  | scalar s =>
      cases n with
      | scalar t =>
          cases k with
          | scalar u => exact Scalar.same_trans h h'
          | seq | map => cases h'
      | seq | map => cases h
  | seq xs ih =>
      cases n with
      | scalar | map => cases h
      | seq ys =>
          cases k with
          | scalar | map => cases h'
          | seq zs =>
              rw [wellFormed_seq_iff] at hm
              rw [same_seq_iff] at h h' ⊢
              have hnext : List.Forall₂ (fun x y => ∀ z, y.same z = true → x.same z = true) xs ys :=
                forall₂_imp_of_mem h fun x hx y hxy z hyz => ih x hx (hm x hx) hxy hyz
              exact forall₂_comp hnext h' fun x y z hxy hyz => hxy z hyz
  | map es ih =>
      cases n with
      | scalar | seq => cases h
      | map fs =>
          cases k with
          | scalar | seq => cases h'
          | map hs =>
              rw [wellFormed_map_iff] at hm
              obtain ⟨gs, hall, hperm⟩ := (same_map_iff hm.1 fs).mp h
              obtain ⟨ks, hall', hperm'⟩ :=
                (same_map_iff (distinct_of_agrees hm.1 hall hperm) hs).mp h'
              rw [same_map_iff hm.1]
              obtain ⟨js, hjs, hpermj⟩ := List.perm_comp_forall₂ hperm hall'
              have hnext : List.Forall₂ (fun e g => ∀ f, Agrees g f → Agrees e f) es gs :=
                forall₂_imp_of_mem hall fun e he g heg f hgf =>
                  ⟨heg.1.trans hgf.1, ih e he (hm.2 e he) heg.2 hgf.2⟩
              exact ⟨js, forall₂_comp hnext hjs fun e g f heg hgf => heg f hgf,
                hpermj.trans hperm'⟩

/-- One change that leaves the content as it is: a zero gets the other sign or the entries of a map
another order, or an item or a value changes so. -/
inductive Turns : Node → Node → Prop
  | zero (negative : Bool) : Turns (.scalar (.zero negative)) (.scalar (.zero !negative))
  | reorder {es fs : Entries Node} (h : es.Perm fs) : Turns (.map es) (.map fs)
  | item (before after : List Node) {m n : Node} (h : Turns m n) :
      Turns (.seq (before ++ m :: after)) (.seq (before ++ n :: after))
  | value (before after : Entries Node) (key : String) {m n : Node} (h : Turns m n) :
      Turns (.map (before ++ (key, m) :: after)) (.map (before ++ (key, n) :: after))

theorem Turns.wellFormed {m n : Node} (h : Turns m n) (hm : m.WellFormed) : n.WellFormed := by
  induction h with
  | zero => trivial
  | reorder h => exact hm.of_perm h.symm
  | item before after _ ih =>
      simp only [wellFormed_seq_iff, List.forall_mem_append, List.forall_mem_cons] at hm ⊢
      exact ⟨hm.1, ih hm.2.1, hm.2.2⟩
  | value before after key _ ih =>
      simp only [wellFormed_map_iff, List.forall_mem_append, List.forall_mem_cons,
        Entries.Distinct, Entries.keys, List.map_append, List.map_cons] at hm ⊢
      exact ⟨hm.1, hm.2.1, ih hm.2.2.1, hm.2.2.2⟩

theorem Turns.same {m n : Node} (h : Turns m n) (hm : m.WellFormed) : m.same n = true := by
  induction h with
  | zero negative => exact (Scalar.same_iff _ _).mpr (Or.inr ⟨_, _, rfl, rfl⟩)
  | @reorder es fs h =>
      rw [wellFormed_map_iff] at hm
      rw [same_map_iff hm.1]
      refine ⟨es, ?_, h⟩
      rw [List.forall₂_same]
      exact fun e he => ⟨rfl, same_self (hm.2 e he)⟩
  | item before after _ ih =>
      simp only [wellFormed_seq_iff, List.forall_mem_append, List.forall_mem_cons] at hm
      rw [same_seq_iff]
      refine List.rel_append (List.forall₂_same.mpr ?_) (.cons (ih hm.2.1) (List.forall₂_same.mpr ?_))
      · exact fun x hx => same_self (hm.1 x hx)
      · exact fun x hx => same_self (hm.2.2 x hx)
  | @value before after key m n _ ih =>
      rw [wellFormed_map_iff] at hm
      obtain ⟨hd, hm⟩ := hm
      simp only [List.forall_mem_append, List.forall_mem_cons] at hm
      rw [same_map_iff hd]
      refine ⟨before ++ (key, n) :: after, List.rel_append (List.forall₂_same.mpr ?_)
        (.cons ⟨rfl, ih hm.2.1⟩ (List.forall₂_same.mpr ?_)), List.Perm.refl _⟩
      · exact fun e he => ⟨rfl, same_self (hm.1 e he)⟩
      · exact fun e he => ⟨rfl, same_self (hm.2.2 e he)⟩

abbrev TurnsInto : Node → Node → Prop := Relation.ReflTransGen Turns

theorem same_of_turnsInto {m n : Node} (h : TurnsInto m n) (hm : m.WellFormed) :
    m.same n = true ∧ n.WellFormed := by
  induction h with
  | refl => exact ⟨same_self hm, hm⟩
  | tail _ hturn ih => exact ⟨same_trans hm ih.1 (hturn.same ih.2), hturn.wellFormed ih.2⟩

theorem turnsInto_items {xs ys : List Node} (h : List.Forall₂ TurnsInto xs ys)
    (before : List Node) : TurnsInto (.seq (before ++ xs)) (.seq (before ++ ys)) := by
  induction h generalizing before with
  | nil => exact .refl
  | @cons x y xs ys hxy _ ih =>
      have hfirst : TurnsInto (.seq (before ++ x :: xs)) (.seq (before ++ y :: xs)) :=
        Relation.ReflTransGen.lift (fun n => Node.seq (before ++ n :: xs))
          (fun _ _ => Turns.item before xs) _ _ hxy
      have hrest := ih (before ++ [y])
      rw [List.append_assoc, List.append_assoc] at hrest
      exact hfirst.trans hrest

theorem turnsInto_entries {es fs : Entries Node}
    (h : List.Forall₂ (fun e f => e.1 = f.1 ∧ TurnsInto e.2 f.2) es fs) (before : Entries Node) :
    TurnsInto (.map (before ++ es)) (.map (before ++ fs)) := by
  induction h generalizing before with
  | nil => exact .refl
  | @cons e f es fs hef _ ih =>
      obtain ⟨key, m⟩ := e
      obtain ⟨key', n⟩ := f
      obtain ⟨rfl, hmn⟩ := hef
      have hfirst : TurnsInto (.map (before ++ (key, m) :: es)) (.map (before ++ (key, n) :: es)) :=
        Relation.ReflTransGen.lift (fun n => Node.map (before ++ (key, n) :: es))
          (fun _ _ => Turns.value before es key) _ _ hmn
      have hrest := ih (before ++ [(key, n)])
      rw [List.append_assoc, List.append_assoc] at hrest
      exact hfirst.trans hrest

theorem turnsInto_of_same {m n : Node} (hm : m.WellFormed) (h : m.same n = true) :
    TurnsInto m n := by
  induction m using induction_parts generalizing n with
  | scalar s =>
      cases n with
      | seq | map => cases h
      | scalar t =>
          rcases (Scalar.same_iff s t).mp h with rfl | ⟨x, y, rfl, rfl⟩
          · exact .refl
          · by_cases hxy : x = y
            · subst hxy
              exact .refl
            · rw [Bool.eq_not_of_ne (Ne.symm hxy)]
              exact .single (.zero x)
  | seq xs ih =>
      cases n with
      | scalar | map => cases h
      | seq ys =>
          rw [wellFormed_seq_iff] at hm
          rw [same_seq_iff] at h
          have hall : List.Forall₂ TurnsInto xs ys :=
            forall₂_imp_of_mem h fun x hx y hxy => ih x hx (hm x hx) hxy
          exact turnsInto_items hall []
  | map es ih =>
      cases n with
      | scalar | seq => cases h
      | map fs =>
          rw [wellFormed_map_iff] at hm
          obtain ⟨gs, hall, hperm⟩ := (same_map_iff hm.1 fs).mp h
          have hvalues : List.Forall₂ (fun e g => e.1 = g.1 ∧ TurnsInto e.2 g.2) es gs :=
            forall₂_imp_of_mem hall fun e he g heg => ⟨heg.1, ih e he (hm.2 e he) heg.2⟩
          exact (turnsInto_entries hvalues []).tail (.reorder hperm)

end Node

namespace AllowList

def Covers (allowed others : AllowList) : Prop := ∀ b ∈ others, ∃ a ∈ allowed, a.same b = true

/-- Another list of the same contents: in another order, without members that have the content of
others, or with members of the same content in the places of its own. -/
inductive Restates : AllowList → AllowList → Prop
  | reorder {allowed others : AllowList} (h : allowed.Perm others) : Restates allowed others
  | dedup {allowed others : AllowList} (hs : others.Sublist allowed) (h : others.Covers allowed) :
      Restates allowed others
  | replace {allowed others : AllowList}
      (h : List.Forall₂ (fun a b => a.same b = true) allowed others) : Restates allowed others

theorem covers_of_subset {allowed others : AllowList} (hw : ∀ b ∈ others, b.WellFormed)
    (h : others ⊆ allowed) : allowed.Covers others :=
  fun b hb => ⟨b, h hb, Node.same_self (hw b hb)⟩

theorem Restates.covers {allowed others : AllowList} (h : Restates allowed others)
    (hw : ∀ a ∈ allowed, a.WellFormed) (hw' : ∀ b ∈ others, b.WellFormed) :
    allowed.Covers others ∧ others.Covers allowed := by
  cases h with
  | reorder h => exact ⟨covers_of_subset hw' h.symm.subset, covers_of_subset hw h.subset⟩
  | dedup hs h => exact ⟨covers_of_subset hw' hs.subset, h⟩
  | replace h =>
      have hback : List.Forall₂ (fun b a => b.same a = true) others allowed :=
        (forall₂_imp_of_mem h fun a ha b hab => Node.same_symm (hw a ha) hab).flip
      exact ⟨fun b hb => exists_of_forall₂ h hb, fun a ha => exists_of_forall₂ hback ha⟩

theorem allows_of_covers {allowed others : AllowList} (hw : ∀ a ∈ allowed, a.WellFormed)
    (h : allowed.Covers others) {n : Node} (hn : others.allows n = true) :
    allowed.allows n = true := by
  obtain ⟨b, hb, hbn⟩ := List.any_eq_true.mp hn
  obtain ⟨a, ha, hab⟩ := h b hb
  exact List.any_eq_true.mpr ⟨a, ha, Node.same_trans (hw a ha) hab hbn⟩

theorem Restates.allows_eq {allowed others : AllowList} (h : Restates allowed others)
    (hw : ∀ a ∈ allowed, a.WellFormed) (hw' : ∀ b ∈ others, b.WellFormed) :
    others.allows = allowed.allows := by
  obtain ⟨hcovers, hcovered⟩ := h.covers hw hw'
  funext n
  rw [Bool.eq_iff_iff]
  exact ⟨allows_of_covers hw hcovers, allows_of_covers hw' hcovered⟩

end AllowList

/-- Equality of content is an equivalence of all nodes whose maps have distinct keys. It relates a
node to those that it can be turned into by putting entries in another order and by changing the
signs of zeros. An integer never has the content of a double, and items are compared in their order.
So an allow-list can be put in another order, lose members whose content it has twice, or have its
members replaced by others of the same content, and still keeps and accepts the same. -/
theorem Node.same_iff_rearranged :
    Equivalence (fun m n : {n : Node // n.WellFormed} => m.1.same n.1 = true) ∧
    (∀ m n : Node, m.WellFormed → (m.same n = true ↔ TurnsInto m n)) ∧
    (∀ (i : Integer) (d : Double),
      (Node.scalar (.number (.int i))).same (.scalar (.number (.float d))) = false ∧
      (Node.scalar (.number (.float d))).same (.scalar (.number (.int i))) = false) ∧
    (∀ xs ys : List Node, (Node.seq xs).same (.seq ys) = true ↔
      List.Forall₂ (fun x y => x.same y = true) xs ys) ∧
    (∀ allowed others : AllowList, allowed.Restates others → (∀ a ∈ allowed, a.WellFormed) →
      (∀ b ∈ others, b.WellFormed) → ∀ (items : List Node) (n : Node),
        others.keep items = allowed.keep items ∧ others.accept? n = allowed.accept? n) := by
  refine ⟨⟨fun m => same_self m.2, fun {m _} => same_symm m.2, fun {m _ _} => same_trans m.2⟩,
    fun m n hm => ⟨turnsInto_of_same hm, fun h => (same_of_turnsInto h hm).1⟩,
    fun i d => ⟨rfl, rfl⟩, same_seq_iff, fun allowed others h hw hw' items n => ?_⟩
  have hallows := h.allows_eq hw hw'
  simp only [AllowList.keep, AllowList.accept?, hallows, and_self]

theorem Node.same_iff_rearranged_zeros :
    ∃ m n : Node,
      m = .map [("a", .seq [.scalar (.zero false), .map [("x", .null), ("y", .string "1")]]),
        ("b", .seq [])] ∧
      n = .map [("b", .seq []),
        ("a", .seq [.scalar (.zero true), .map [("y", .string "1"), ("x", .null)]])] ∧
      TurnsInto m n ∧ n.same m = true ∧
      AllowList.keep [n] [m, .seq []] = AllowList.keep [m, n] [m, .seq []] ∧
      AllowList.accept? [n, .null] m = AllowList.accept? [.null, n] m := by
  let m : Node := .map [("a", .seq [.scalar (.zero false), .map [("x", .null), ("y", .string "1")]]),
    ("b", .seq [])]
  let n : Node := .map [("b", .seq []),
    ("a", .seq [.scalar (.zero true), .map [("y", .string "1"), ("x", .null)]])]
  have hm : m.WellFormed := by
    simp [m, WellFormed, wellFormedItems, wellFormedEntries, Entries.Distinct, Entries.keys]
  have hn : n.WellFormed := by
    simp [n, WellFormed, wellFormedItems, wellFormedEntries, Entries.Distinct, Entries.keys]
  have hsame : m.same n = true := by decide
  obtain ⟨hequiv, hturns, -, -, hlists⟩ := Node.same_iff_rearranged
  have hback : n.same m = true := hequiv.symm (x := ⟨m, hm⟩) (y := ⟨n, hn⟩) hsame
  have hboth : ∀ a ∈ [m, n], a.WellFormed :=
    List.forall_mem_cons.mpr ⟨hm, List.forall_mem_singleton.mpr hn⟩
  have hwithNull : ∀ a ∈ [Node.null, n], a.WellFormed :=
    List.forall_mem_cons.mpr ⟨trivial, List.forall_mem_singleton.mpr hn⟩
  have hone : AllowList.Restates [m, n] [n] := by
    refine .dedup (List.sublist_cons_self m [n]) (List.forall_mem_cons.mpr ⟨?_, ?_⟩)
    · exact ⟨n, List.mem_singleton_self n, hback⟩
    · exact List.forall_mem_singleton.mpr ⟨n, List.mem_singleton_self n, same_self hn⟩
  have hperm : [Node.null, n].Perm [n, .null] := List.Perm.swap n .null []
  refine ⟨m, n, rfl, rfl, (hturns m n hm).mp hsame, hback, ?_, ?_⟩
  · exact (hlists _ _ hone hboth (List.forall_mem_singleton.mpr hn) _ m).1
  · exact (hlists _ _ (.reorder hperm) hwithNull
      (fun b hb => hwithNull b (hperm.mem_iff.mpr hb)) [] m).2

end ConfigShape

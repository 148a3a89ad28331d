import ConfigShape.Proofs.Entries
import ConfigShape.Raw.Basic

namespace ConfigShape

theorem bind_eq_ok_iff {ε α β : Type} (x : Except ε α) (f : α → Except ε β) (b : β) :
    (x >>= f) = .ok b ↔ ∃ a, x = .ok a ∧ f a = .ok b := by
  cases x <;> simp [bind, Except.bind]

theorem bind_eq_error_iff {ε α β : Type} (x : Except ε α) (f : α → Except ε β) (e : ε) :
    (x >>= f) = .error e ↔ x = .error e ∨ ∃ a, x = .ok a ∧ f a = .error e := by
  cases x <;> simp [bind, Except.bind]

def faultOf? {ε α : Type} : Except ε α → Option ε
  | .ok _ => none
  | .error e => some e

theorem faultOf?_eq_some_iff {ε α : Type} (x : Except ε α) (e : ε) :
    faultOf? x = some e ↔ x = .error e := by
  cases x <;> simp [faultOf?]

theorem faultOf?_bind {ε α β : Type} (x : Except ε α) {f : α → Except ε β} {o : Option ε}
    (h : ∀ a, x = .ok a → faultOf? (f a) = o) : faultOf? (x >>= f) = (faultOf? x).or o := by
  cases x with
  | error e => rfl
  | ok a => exact h a rfl

theorem mapError_eq_ok_iff {ε δ α : Type} (f : ε → δ) (x : Except ε α) (a : α) :
    x.mapError f = .ok a ↔ x = .ok a := by
  cases x <;> simp [Except.mapError]

theorem exists_of_forall₂ {α β : Type} {R : α → β → Prop} {xs : List α} {ys : List β}
    (h : List.Forall₂ R xs ys) {y : β} (hy : y ∈ ys) : ∃ x ∈ xs, R x y := by
  induction h with
  | nil => cases hy
  | cons hp _ ih =>
      rcases List.mem_cons.mp hy with rfl | hy
      · exact ⟨_, List.mem_cons_self, hp⟩
      · obtain ⟨x, hx, hxy⟩ := ih hy
        exact ⟨x, List.mem_cons_of_mem _ hx, hxy⟩

theorem forall₂_imp_of_mem {α β : Type} {R S : α → β → Prop} {xs : List α} {ys : List β}
    (h : List.Forall₂ R xs ys) (hS : ∀ x ∈ xs, ∀ y, R x y → S x y) : List.Forall₂ S xs ys :=
  ((List.forall₂_and_left xs ys).mpr ⟨hS, h⟩).imp fun _ y hxy => hxy.1 y hxy.2

theorem forall₂_comp {α β γ : Type} {R : α → β → Prop} {S : β → γ → Prop} {T : α → γ → Prop}
    {xs : List α} {ys : List β} {zs : List γ} (h : List.Forall₂ R xs ys) (h' : List.Forall₂ S ys zs)
    (hT : ∀ x y z, R x y → S y z → T x z) : List.Forall₂ T xs zs := by
  induction h generalizing zs with
  | nil =>
      cases h'
      exact .nil
  | cons hxy _ ih =>
      cases h' with
      | cons hyz h' => exact .cons (hT _ _ _ hxy hyz) (ih h')

namespace Raw

/-- The map made of values under the names of their entries. -/
def named (es : List (RawKey × Raw)) (ns : List Node) : Entries Node :=
  Entries.ofList ((es.map (fun e => e.1.text)).zip ns)

theorem liftEntries_eq (path : String) (done : Entries Node) (es : List (RawKey × Raw)) :
    liftEntries path done es =
      (liftItems path es).map
        (fun ns => Entries.extend done ((es.map (fun e => e.1.text)).zip ns)) := by
  induction es generalizing done with
  | nil => simp [liftEntries, liftItems, Entries.extend, Except.map]
  | cons e rest ih =>
      obtain ⟨key, r⟩ := e
      simp only [liftEntries, liftItems]
      cases liftAt (childPath path key) r with
      | error f => rfl
      | ok n =>
          change liftEntries path (Entries.insert key.text n done) rest = _
          rw [ih]
          cases liftItems path rest <;> rfl

theorem liftItems_cons_ok_iff (path : String) (key : RawKey) (r : Raw)
    (rest : List (RawKey × Raw)) (ms : List Node) :
    liftItems path ((key, r) :: rest) = .ok ms ↔
      ∃ n ns, liftAt (childPath path key) r = .ok n ∧ liftItems path rest = .ok ns ∧
        ms = n :: ns := by
  simp only [liftItems, bind_eq_ok_iff, Except.ok.injEq]
  constructor
  · rintro ⟨n, hn, ns, hs, rfl⟩
    exact ⟨n, ns, hn, hs, rfl⟩
  · rintro ⟨n, ns, hn, hs, rfl⟩
    exact ⟨n, hn, ns, hs, rfl⟩

theorem keysAreNames_iff (es : List (RawKey × Raw)) :
    keysAreNames es = true ↔ es ≠ [] ∧ ∀ e ∈ es, ∃ s, e.1 = .name s := by
  have hn (k : RawKey) : k.isName = true ↔ ∃ s, k = .name s := by cases k <;> simp [RawKey.isName]
  simp [keysAreNames, hn]

theorem keysCount_of_names {es : List (RawKey × Raw)} (h : keysAreNames es = true) :
    keysCount es = false := by
  cases es with
  | nil => rfl
  | cons e rest =>
      obtain ⟨s, hs⟩ := ((keysAreNames_iff _).mp h).2 e (by simp)
      simp [keysCount, countsFrom, hs]

theorem liftAt_container_ok_iff (path : String) (es : List (RawKey × Raw)) (n : Node) :
    liftAt path (.container es) = .ok n ↔
      (es = [] ∧ n = .seq []) ∨
      (keysCount es = true ∧ ∃ ns, liftItems path es = .ok ns ∧ n = .seq ns) ∨
      (keysAreNames es = true ∧ ∃ ns, liftItems path es = .ok ns ∧ n = .map (named es ns)) := by
  cases es with
  | nil => simp [liftAt, classify, keysCount, keysAreNames, eq_comm]
  | cons e rest =>
      simp only [liftAt, classify, List.isEmpty_cons, liftEntries_eq]
      by_cases hc : keysCount (e :: rest) = true
      · have hn : keysAreNames (e :: rest) ≠ true := by
          intro hn
          rw [keysCount_of_names hn] at hc
          cases hc
        cases liftItems path (e :: rest) <;> simp [hc, hn, bind, Except.bind, eq_comm]
      · by_cases hn : keysAreNames (e :: rest) = true
        · cases liftItems path (e :: rest) <;>
            simp [hc, hn, bind, Except.bind, Except.map, named, Entries.ofList, eq_comm]
        · simp [hc, hn]

theorem liftItems_cons_error_iff (path : String) (key : RawKey) (r : Raw)
    (rest : List (RawKey × Raw)) (f : ShapeFault) :
    liftItems path ((key, r) :: rest) = .error f ↔
      liftAt (childPath path key) r = .error f ∨
      ∃ n, liftAt (childPath path key) r = .ok n ∧ liftItems path rest = .error f := by
  simp only [liftItems, bind_eq_error_iff, reduceCtorEq, and_false, exists_false, or_false]

theorem classify_eq_empty_iff (es : List (RawKey × Raw)) : classify es = .empty ↔ es = [] := by
  constructor
  · intro h
    rw [classify] at h
    split at h
    · rename_i hempty
      exact List.isEmpty_iff.mp hempty
    · split at h
      · cases h
      · split at h <;> cases h
  · rintro rfl
    rfl

/-- A container is refused for its own keys, or else for the first of its parts that is refused. -/
theorem liftAt_container_error_iff (path : String) (es : List (RawKey × Raw)) (f : ShapeFault) :
    liftAt path (.container es) = .error f ↔
      (classify es = .mixed ∧ f = .mixedKeys path) ∨
      (classify es ≠ .mixed ∧ liftItems path es = .error f) := by
  simp only [liftAt, liftEntries_eq]
  cases hc : classify es with
  | empty =>
      have hes := (classify_eq_empty_iff es).mp hc
      simp [hes, liftItems]
  | sequence => simp [bind_eq_error_iff]
  | map => cases liftItems path es <;> simp [bind, Except.bind, Except.map]
  | mixed => simp [eq_comm]

/-- A relation between raw trees and nodes that each kind of container keeps. -/
structure LiftInvariant (P : Raw → Node → Prop) : Prop where
  scalar (s : Scalar) : P (.scalar s) (.scalar s)
  empty : P (.container []) (.seq [])
  sequence (es : List (RawKey × Raw)) (ns : List Node) (hc : keysCount es = true)
    (hp : List.Forall₂ (fun e n => P e.2 n) es ns) : P (.container es) (.seq ns)
  map (es : List (RawKey × Raw)) (ns : List Node) (hk : keysAreNames es = true)
    (hp : List.Forall₂ (fun e n => P e.2 n) es ns) : P (.container es) (.map (named es ns))

mutual
theorem LiftInvariant.of_liftAt {P : Raw → Node → Prop} (hP : LiftInvariant P) (r : Raw)
    (path : String) (n : Node) (h : liftAt path r = .ok n) : P r n := by
  cases r with
  | scalar s =>
      simp only [liftAt, Except.ok.injEq] at h
      exact h ▸ hP.scalar s
  | container es =>
      rcases (liftAt_container_ok_iff path es n).mp h with
        ⟨rfl, rfl⟩ | ⟨hc, ns, hns, rfl⟩ | ⟨hk, ns, hns, rfl⟩
      · exact hP.empty
      · exact hP.sequence es ns hc (hP.of_liftItems es path ns hns)
      · exact hP.map es ns hk (hP.of_liftItems es path ns hns)

theorem LiftInvariant.of_liftItems {P : Raw → Node → Prop} (hP : LiftInvariant P)
    (es : List (RawKey × Raw)) (path : String) (ns : List Node) (h : liftItems path es = .ok ns) :
    List.Forall₂ (fun e n => P e.2 n) es ns := by
  cases es with
  | nil =>
      simp only [liftItems, Except.ok.injEq] at h
      exact h ▸ List.Forall₂.nil
  | cons e rest =>
      obtain ⟨key, r⟩ := e
      obtain ⟨n, ms, hr, hs, rfl⟩ := (liftItems_cons_ok_iff path key r rest ns).mp h
      exact List.Forall₂.cons (hP.of_liftAt r _ n hr) (hP.of_liftItems rest path ms hs)
end

theorem exists_of_mem_named {R : RawKey × Raw → Node → Prop} {es : List (RawKey × Raw)}
    {ns : List Node} (h : List.Forall₂ R es ns) {f : String × Node} (hf : f ∈ named es ns) :
    ∃ e ∈ es, f.1 = e.1.text ∧ R e f.2 := by
  obtain ⟨k, n⟩ := f
  rcases Entries.mem_extend hf with hf | hf
  · cases hf
  · rw [List.zip_map_left, List.mem_map] at hf
    obtain ⟨⟨e, m⟩, he, hem⟩ := hf
    cases hem
    exact ⟨e, (List.of_mem_zip he).1, rfl, List.forall₂_zip h he⟩

theorem named_ne_nil {R : RawKey × Raw → Node → Prop} {es : List (RawKey × Raw)} {ns : List Node}
    (h : List.Forall₂ R es ns) (hne : es ≠ []) : named es ns ≠ [] := by
  cases h with
  | nil => exact absurd rfl hne
  | @cons e n es ns _ _ =>
      intro hnil
      have hk : e.1.text ∈ Entries.keys (named (e :: es) (n :: ns)) :=
        (Entries.mem_keys_extend _ _ _).mpr (Or.inr (by simp [Entries.keys]))
      rw [hnil] at hk
      cases hk

theorem distinct_named (es : List (RawKey × Raw)) (ns : List Node) :
    Entries.Distinct (named es ns) := Entries.distinct_ofList _

end Raw

end ConfigShape

import Mathlib.Data.List.Forall2
import ConfigShape.Command.Run
import ConfigShape.Proofs.Lifting

namespace ConfigShape

theorem mapM_eq_ok_iff {ε α β : Type} (f : α → Except ε β) (xs : List α) (ys : List β) :
    xs.mapM f = .ok ys ↔ List.Forall₂ (fun x y => f x = .ok y) xs ys := by
  induction xs generalizing ys with
  | nil => simp [pure, Except.pure, eq_comm]
  | cons x xs ih =>
      simp only [List.mapM_cons, bind_eq_ok_iff, ih, List.forall₂_cons_left_iff, pure, Except.pure,
        Except.ok.injEq]
      constructor
      · rintro ⟨y, hy, zs, hzs, rfl⟩
        exact ⟨y, zs, hy, hzs, rfl⟩
      · rintro ⟨y, zs, hy, hzs, rfl⟩
        exact ⟨y, hy, zs, hzs, rfl⟩

theorem exists_forall₂_iff {α β : Type} (R : α → β → Prop) (xs : List α) :
    (∃ ys, List.Forall₂ R xs ys) ↔ ∀ x ∈ xs, ∃ y, R x y := by
  induction xs with
  | nil => simp
  | cons x xs ih =>
      simp only [List.forall_mem_cons, ← ih, List.forall₂_cons_left_iff]
      constructor
      · rintro ⟨_, y, zs, hy, hzs, rfl⟩
        exact ⟨⟨y, hy⟩, zs, hzs⟩
      · rintro ⟨⟨y, hy⟩, zs, hzs⟩
        exact ⟨_, y, zs, hy, hzs, rfl⟩

def decode (path : FilePath) (text : String) : Except DecodeFault Node :=
  if isJsonPath path then Node.ofJsonText text else Node.ofYamlText text

theorem readDocument_eq_ok_iff (files : Files) (path : FilePath) (n : Node) :
    readDocument files path = .ok n ↔
      ∃ text, files.readText path = .ok text ∧ decode path text = .ok n := by
  rw [readDocument]
  cases files.readText path with
  | error f => simp
  | ok text => simp [decode, mapError_eq_ok_iff]

namespace Inputs

/-- The paths that a pattern stands for: itself if it has no wildcard, and else those found for it.
A text that is no pattern stands for none. -/
def found (files : Files) (pattern : String) : List FilePath :=
  if Glob.hasWildcard pattern then
    match Glob.PathPattern.parse pattern with
    | .ok p => Glob.expand files p
    | .error _ => []
  else [pattern]

def resolved (inputs : Inputs) (files : Files) : List FilePath :=
  inputs.patterns.flatMap (found files)

/-- The document is what the input at its path holds, as far as it is selected. -/
def Holds (inputs : Inputs) (files : Files) (d : FilePath × Node) : Prop :=
  ∃ n, readDocument files d.1 = .ok n ∧ d.2 = inputs.selected n

theorem pathsOf_eq_ok_iff (files : Files) (pattern : String) (ps : List FilePath) :
    pathsOf files pattern = .ok ps ↔ found files pattern ≠ [] ∧ found files pattern = ps := by
  rw [pathsOf, found]
  split
  · cases Glob.PathPattern.parse pattern with
    | error f => simp
    | ok p =>
        dsimp only
        cases Glob.expand files p <;> simp
  · simp

theorem paths_eq_ok_iff (files : Files) (patterns : List String) (ps : List FilePath) :
    paths files patterns = .ok ps ↔
      (∀ pattern ∈ patterns, found files pattern ≠ []) ∧ patterns.flatMap (found files) = ps := by
  have hall (pss : List (List FilePath)) :
      List.Forall₂ (fun pattern ps => found files pattern = ps) patterns pss ↔
        patterns.map (found files) = pss := by
    rw [← List.forall₂_map_left_iff (R := Eq), List.forall₂_eq_eq_eq]
  simp only [paths, bind_eq_ok_iff, mapM_eq_ok_iff, pathsOf_eq_ok_iff, List.forall₂_and_left, hall,
    Except.ok.injEq, List.flatMap_def]
  constructor
  · rintro ⟨pss, ⟨hne, rfl⟩, rfl⟩
    exact ⟨hne, rfl⟩
  · rintro ⟨hne, rfl⟩
    exact ⟨_, ⟨hne, rfl⟩, rfl⟩

theorem forall₂_holds_iff (inputs : Inputs) (files : Files) (ps : List FilePath)
    (documents : List (FilePath × Node)) :
    List.Forall₂ (fun path d => path = d.1 ∧ inputs.Holds files d) ps documents ↔
      documents.map Prod.fst = ps ∧ ∀ d ∈ documents, inputs.Holds files d := by
  induction documents generalizing ps with
  | nil => simp [eq_comm]
  | cons d rest ih =>
      simp only [List.forall₂_cons_right_iff, ih, List.forall_mem_cons, List.map_cons]
      constructor
      · rintro ⟨path, ps, ⟨rfl, hd⟩, ⟨rfl, hrest⟩, rfl⟩
        exact ⟨rfl, hd, hrest⟩
      · rintro ⟨rfl, hd, hrest⟩
        exact ⟨d.1, _, ⟨rfl, hd⟩, ⟨rfl, hrest⟩, rfl⟩

theorem load_eq_ok_iff (inputs : Inputs) (files : Files) (documents : List (FilePath × Node)) :
    inputs.load files = .ok documents ↔
      (∀ pattern ∈ inputs.patterns, found files pattern ≠ []) ∧
      documents.map Prod.fst = inputs.resolved files ∧
      ∀ d ∈ documents, inputs.Holds files d := by
  have hone (path : FilePath) (d : FilePath × Node) :
      (do let n ← readDocument files path
          Except.ok (path, inputs.selected n)) = .ok d ↔ path = d.1 ∧ inputs.Holds files d := by
    obtain ⟨other, m⟩ := d
    simp only [bind_eq_ok_iff, Except.ok.injEq, Prod.mk.injEq, Holds]
    constructor
    · rintro ⟨n, hn, rfl, rfl⟩
      exact ⟨rfl, n, hn, rfl⟩
    · rintro ⟨rfl, n, hn, rfl⟩
      exact ⟨n, hn, rfl, rfl⟩
  simp only [load, bind_eq_ok_iff (paths _ _), paths_eq_ok_iff, mapM_eq_ok_iff, hone,
    forall₂_holds_iff]
  constructor
  · rintro ⟨ps, ⟨hne, rfl⟩, hps, hd⟩
    exact ⟨hne, hps, hd⟩
  · rintro ⟨hne, hps, hd⟩
    exact ⟨_, ⟨hne, rfl⟩, hps, hd⟩

theorem exists_load_iff (inputs : Inputs) (files : Files) :
    (∃ documents, inputs.load files = .ok documents) ↔
      (∀ pattern ∈ inputs.patterns, found files pattern ≠ []) ∧
      ∀ path ∈ inputs.resolved files, ∃ n, readDocument files path = .ok n := by
  simp only [load_eq_ok_iff, exists_and_left, ← forall₂_holds_iff, exists_forall₂_iff]
  refine and_congr_right fun _ => forall₂_congr fun path _ => ?_
  constructor
  · rintro ⟨d, rfl, n, hn, -⟩
    exact ⟨n, hn⟩
  · rintro ⟨n, hn⟩
    exact ⟨(path, inputs.selected n), rfl, n, hn, rfl⟩

end Inputs

end ConfigShape

import Mathlib.Tactic.Tauto
import ConfigShape.Proofs.Lifting

namespace ConfigShape.Raw

def Mixed (es : List (RawKey × Raw)) : Prop :=
  es ≠ [] ∧ ¬ (∀ e ∈ es, e.1.isName = true) ∧
    es.map Prod.fst ≠ (List.range es.length).map (fun (i : Nat) => RawKey.index i)

instance (es : List (RawKey × Raw)) : Decidable (Mixed es) :=
  inferInstanceAs (Decidable (_ ∧ _ ∧ _))

def pathText (way : List RawKey) : String := "$" ++ String.join (way.map (fun k => "." ++ k.text))

mutual
/-- The containers of a tree in document order, a container before those in it, each with the keys
on the way to it. -/
def containersAt (way : List RawKey) : Raw → List (List RawKey × List (RawKey × Raw))
  | .scalar _ => []
  | .container es => (way, es) :: containersOf way es

def containersOf (way : List RawKey) :
    List (RawKey × Raw) → List (List RawKey × List (RawKey × Raw))
  | [] => []
  | (key, r) :: rest => containersAt (way ++ [key]) r ++ containersOf way rest
end

def mixedFault? (cs : List (List RawKey × List (RawKey × Raw))) : Option ShapeFault :=
  (cs.find? (fun c => Mixed c.2)).map (fun c => .mixedKeys (pathText c.1))

theorem childPath_pathText (way : List RawKey) (key : RawKey) :
    childPath (pathText way) key = pathText (way ++ [key]) := by
  simp only [childPath, pathText, List.map_append, List.map_singleton, String.join_append,
    String.join_cons, String.join_nil, String.append_empty, String.append_assoc]

theorem mixedFault?_append (cs ds : List (List RawKey × List (RawKey × Raw))) :
    mixedFault? (cs ++ ds) = (mixedFault? cs).or (mixedFault? ds) := by
  simp only [mixedFault?, List.find?_append, Option.map_or]

theorem countsFrom_iff (n : Nat) (es : List (RawKey × Raw)) :
    countsFrom (n : Int) es = true ↔
      es.map Prod.fst = (List.range' n es.length).map (fun (i : Nat) => RawKey.index i) := by
  induction es generalizing n with
  | nil => simp [countsFrom]
  | cons e rest ih =>
      have hcast : (n : Int) + 1 = ((n + 1 : Nat) : Int) := rfl
      simp only [countsFrom, hcast, Bool.and_eq_true, beq_iff_eq, ih, List.map_cons,
        List.length_cons, List.range'_succ, List.cons.injEq]

theorem keysCount_iff (es : List (RawKey × Raw)) :
    keysCount es = true ↔
      es ≠ [] ∧ es.map Prod.fst = (List.range es.length).map (fun (i : Nat) => RawKey.index i) := by
  have h := countsFrom_iff 0 es
  rw [← List.range_eq_range'] at h
  simp only [keysCount, Bool.and_eq_true, Bool.not_eq_true', List.isEmpty_eq_false_iff]
  exact and_congr_right fun _ => h

theorem classify_eq_mixed_iff (es : List (RawKey × Raw)) : classify es = .mixed ↔ Mixed es := by
  have hnames : keysAreNames es = true ↔ es ≠ [] ∧ ∀ e ∈ es, e.1.isName = true := by
    simp [keysAreNames]
  have hfails : classify es = .mixed ↔
      es ≠ [] ∧ ¬ keysCount es = true ∧ ¬ keysAreNames es = true := by
    rw [classify]
    cases es with
    | nil => simp
    | cons e rest => by_cases hc : keysCount (e :: rest) = true <;> simp [hc]
  rw [hfails, keysCount_iff, hnames, Mixed]
  tauto

theorem faultOf?_liftAt_container (path : String) (es : List (RawKey × Raw)) :
    faultOf? (liftAt path (.container es)) =
      if Mixed es then some (.mixedKeys path) else faultOf? (liftItems path es) := by
  ext f
  rw [faultOf?_eq_some_iff, liftAt_container_error_iff, ne_eq, classify_eq_mixed_iff]
  by_cases hm : Mixed es
  · simp [hm, eq_comm]
  · simp [hm, faultOf?_eq_some_iff]

mutual
theorem faultOf?_liftAt (way : List RawKey) (r : Raw) :
    faultOf? (liftAt (pathText way) r) = mixedFault? (containersAt way r) := by
  cases r with
  | scalar s => rfl
  | container es =>
      rw [faultOf?_liftAt_container, containersAt, mixedFault?, List.find?_cons,
        faultOf?_liftItems way es]
      by_cases hm : Mixed es
      · simp only [hm, if_true, decide_true, Option.map_some]
      · simp only [hm, if_false, decide_false, mixedFault?]

theorem faultOf?_liftItems (way : List RawKey) (es : List (RawKey × Raw)) :
    faultOf? (liftItems (pathText way) es) = mixedFault? (containersOf way es) := by
  cases es with
  | nil => rfl
  | cons e rest =>
      obtain ⟨key, r⟩ := e
      rw [containersOf, mixedFault?_append, ← faultOf?_liftAt, ← faultOf?_liftItems way rest,
        ← childPath_pathText, liftItems]
      refine faultOf?_bind _ fun n hn => ?_
      cases liftItems (pathText way) rest <;> rfl
end

/-- The content of a container whose parts are lifted to `ms`: a sequence of them, or a map of them
under the names of their entries. -/
def Holds (es : List (RawKey × Raw)) (ms : List Node) : Node → Prop
  | .scalar _ => False
  | .seq items => items = ms
  | .map entries => es ≠ [] ∧ LastWins ((es.map (fun e => e.1.text)).zip ms) entries

structure ShapedAs (es : List (RawKey × Raw)) (n : Node) : Prop where
  shape : n.shape? = some (classify es)
  isMap : n.isMap = keysAreNames es
  isSequence : n.isSequence = keysCount es

inductive LiftsTo : Raw → Node → Prop
  | scalar (s : Scalar) : LiftsTo (.scalar s) (.scalar s)
  | container {es : List (RawKey × Raw)} {ms : List Node} {n : Node}
      (parts : List.Forall₂ (fun e m => LiftsTo e.2 m) es ms) (content : Holds es ms n)
      (shaped : ShapedAs es n) : LiftsTo (.container es) n

theorem shapedAs_seq {es : List (RawKey × Raw)} {ms : List Node} (hc : keysCount es = true)
    (hlen : es.length = ms.length) : ShapedAs es (.seq ms) := by
  have hes : es.isEmpty = false := by
    simpa using ((keysCount_iff es).mp hc).1
  have hms : ms.isEmpty = false := by
    rw [← Bool.not_eq_true, List.isEmpty_iff_length_eq_zero, ← hlen,
      ← List.isEmpty_iff_length_eq_zero, hes, Bool.not_eq_true]
  have hnames : keysAreNames es = false := by
    rw [Bool.eq_false_iff]
    intro hn
    rw [keysCount_of_names hn] at hc
    cases hc
  refine ⟨?_, ?_, ?_⟩
  · simp [Node.shape?, hms, classify, hes, hc]
  · exact hnames.symm
  · rw [hc, Node.isSequence, hms, Bool.not_false]

theorem shapedAs_map {es : List (RawKey × Raw)} {entries : Entries Node}
    (hn : keysAreNames es = true) (hne : entries ≠ []) : ShapedAs es (.map entries) := by
  have hes : es.isEmpty = false := by
    simpa using ((keysAreNames_iff es).mp hn).1
  have hentries : entries.isEmpty = false := by simpa using hne
  refine ⟨?_, ?_, ?_⟩
  · simp [Node.shape?, hentries, classify, hes, hn, keysCount_of_names hn]
  · rw [hn, Node.isMap, hentries, Bool.not_false]
  · exact (keysCount_of_names hn).symm

theorem liftsTo_container_iff (es : List (RawKey × Raw)) (n : Node) :
    LiftsTo (.container es) n ↔
      ∃ ms, List.Forall₂ (fun e m => LiftsTo e.2 m) es ms ∧
        ((es = [] ∧ n = .seq []) ∨ (keysCount es = true ∧ n = .seq ms) ∨
          (keysAreNames es = true ∧ n = .map (named es ms))) := by
  constructor
  · rintro (_ | @⟨_, ms, _, parts, content, shaped⟩)
    refine ⟨ms, parts, ?_⟩
    cases n with
    | scalar s => exact content.elim
    | seq items =>
        obtain rfl : items = ms := content
        cases parts with
        | nil => exact Or.inl ⟨rfl, rfl⟩
        | cons _ _ => exact Or.inr (Or.inl ⟨shaped.isSequence.symm, rfl⟩)
    | map entries =>
        obtain ⟨hne, hlast⟩ := content
        obtain rfl : entries = named es ms := hlast.unique (Entries.lastWins_ofList _)
        have hentries := named_ne_nil parts hne
        have hmap : (Node.map (named es ms)).isMap = true := by simpa [Node.isMap] using hentries
        exact Or.inr (Or.inr ⟨shaped.isMap.symm.trans hmap, rfl⟩)
  · rintro ⟨ms, parts, ⟨rfl, rfl⟩ | ⟨hc, rfl⟩ | ⟨hn, rfl⟩⟩
    · exact .container .nil rfl ⟨rfl, rfl, rfl⟩
    · exact .container parts rfl (shapedAs_seq hc parts.length_eq)
    · have hne := ((keysAreNames_iff es).mp hn).1
      exact .container parts ⟨hne, Entries.lastWins_ofList _⟩
        (shapedAs_map hn (named_ne_nil parts hne))

mutual
theorem liftAt_ok_iff (path : String) (r : Raw) (n : Node) :
    liftAt path r = .ok n ↔ LiftsTo r n := by
  cases r with
  | scalar s =>
      constructor
      · intro h
        cases h
        exact .scalar s
      · intro h
        cases h
        rfl
  | container es =>
      rw [liftAt_container_ok_iff, liftsTo_container_iff]
      simp only [liftItems_ok_iff path es]
      constructor
      · rintro (⟨rfl, rfl⟩ | ⟨hc, ms, parts, rfl⟩ | ⟨hn, ms, parts, rfl⟩)
        · exact ⟨[], .nil, Or.inl ⟨rfl, rfl⟩⟩
        · exact ⟨ms, parts, Or.inr (Or.inl ⟨hc, rfl⟩)⟩
        · exact ⟨ms, parts, Or.inr (Or.inr ⟨hn, rfl⟩)⟩
      · rintro ⟨ms, parts, ⟨rfl, rfl⟩ | ⟨hc, rfl⟩ | ⟨hn, rfl⟩⟩
        · exact Or.inl ⟨rfl, rfl⟩
        · exact Or.inr (Or.inl ⟨hc, ms, parts, rfl⟩)
        · exact Or.inr (Or.inr ⟨hn, ms, parts, rfl⟩)

theorem liftItems_ok_iff (path : String) (es : List (RawKey × Raw)) (ms : List Node) :
    liftItems path es = .ok ms ↔ List.Forall₂ (fun e m => LiftsTo e.2 m) es ms := by
  cases es with
  | nil =>
      rw [List.forall₂_nil_left_iff, liftItems, Except.ok.injEq, eq_comm]
  | cons e rest =>
      obtain ⟨key, r⟩ := e
      rw [liftItems_cons_ok_iff, List.forall₂_cons_left_iff]
      simp only [liftAt_ok_iff _ r, liftItems_ok_iff path rest]
end

/-- A tree is refused exactly when a container in it, however deep, mixes its keys, and the first
such container in document order is told by its path. Any other tree is lifted container by
container, each to a node of the shape of its keys that holds what its entries are lifted to. -/
theorem lift_by_containers :
    (∀ (r : Raw) (f : ShapeFault), lift r = .error f ↔
      ∃ way es, (containersAt [] r).find? (fun c => Mixed c.2) = some (way, es) ∧
        f = .mixedKeys (pathText way)) ∧
    (∀ r : Raw, (∃ f, lift r = .error f) ↔ ∃ c ∈ containersAt [] r, Mixed c.2) ∧
    (∀ (r : Raw) (n : Node), lift r = .ok n ↔ LiftsTo r n) := by
  have hfault (r : Raw) : faultOf? (lift r) = mixedFault? (containersAt [] r) :=
    faultOf?_liftAt [] r
  refine ⟨fun r f => ?_, fun r => ?_, liftAt_ok_iff "$"⟩
  · rw [← faultOf?_eq_some_iff, hfault, mixedFault?, Option.map_eq_some_iff, Prod.exists]
    simp only [eq_comm]
  · have hsome : (∃ f, lift r = .error f) ↔ (mixedFault? (containersAt [] r)).isSome := by
      simp only [Option.isSome_iff_exists, ← hfault, faultOf?_eq_some_iff]
    rw [hsome, mixedFault?, Option.isSome_map, List.find?_isSome]
    simp only [decide_eq_true_eq]

example : lift (.container [(.name "a", .scalar .null), (.name "b", .scalar (.bool true)),
    (.name "a", .container [])]) = .ok (.map [("a", .seq []), ("b", .scalar (.bool true))]) := rfl

end ConfigShape.Raw

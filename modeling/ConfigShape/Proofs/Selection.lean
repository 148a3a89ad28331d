import ConfigShape.Proofs.DottedPaths
import ConfigShape.Proofs.JsonText
import ConfigShape.Proofs.Outcome

namespace ConfigShape

namespace Arguments

def selectText? : List Word → Option String
  | [] => none
  | .option .select (some text) :: _ => some text
  | .option .select none :: .value text :: _ => some text
  | _ :: rest => selectText? rest

def selectionText? : List String → Option String
  | [] => none
  | first :: rest =>
    (Subcommand.named.lookup first).bind (fun sub => selectText? (rest.map (Word.read sub)))

theorem selectText?_value (s : String) (rest : List Word) :
    selectText? (.value s :: rest) = selectText? rest := rfl

theorem selectText?_drop {words : List Word} {count : Nat}
    (h : count ≤ (leadingValues words).length) :
    selectText? (words.drop count) = selectText? words := by
  induction count generalizing words with
  | zero => rfl
  | succ count ih =>
      match words with
      | [] => rfl
      | .value s :: rest =>
          rw [List.drop_succ_cons, selectText?_value]
          exact ih (Nat.le_of_succ_le_succ h)
      | .option _ _ :: _ | .unknownOption :: _ | .endOfOptions :: _ => simp [leadingValues] at h

theorem select?_of_take {g made : Given} {o : OptionName} {value : String}
    (h : g.take o value = some made) :
    if o = .select then g.select? = none ∧ made.select? = some value
    else made.select? = g.select? := by
  cases o with
  | select =>
      simp only [Given.take] at h
      split at h
      · cases h
      · rename_i hs
        cases h
        simpa using hs
  | input =>
      simp only [Given.take, Option.some.injEq] at h
      subst h
      rfl
  | profile | out =>
      simp only [Given.take] at h
      split at h
      · cases h
      · cases h
        rfl
  | format =>
      simp only [Given.take] at h
      split at h
      · cases h
      · simp only [Option.map_eq_some_iff] at h
        obtain ⟨f, -, rfl⟩ := h
        rfl
  | idle | help => cases h

theorem select?_of_foldlM {g made : Given} {o : OptionName} (ho : o ≠ .select)
    {values : List String} (h : values.foldlM (fun g v => g.take o v) g = some made) :
    made.select? = g.select? := by
  induction values generalizing g with
  | nil =>
      cases h
      rfl
  | cons value rest ih =>
      simp only [List.foldlM_cons, Option.bind_eq_bind, Option.bind_eq_some_iff] at h
      obtain ⟨next, hnext, hrest⟩ := h
      have hstep := select?_of_take hnext
      rw [if_neg ho] at hstep
      rw [ih hrest, hstep]

theorem selectText?_option {o : OptionName} (ho : o ≠ .select) (attached : Option String)
    (rest : List Word) : selectText? (.option o attached :: rest) = selectText? rest := by
  cases o with
  | select => exact absurd rfl ho
  | input | profile | format | out | idle | help => rfl

theorem select?_of_takeValues {g made : Given} {o : OptionName} {words : List Word} {count : Nat}
    (h : takeValues g o words = some (made, count)) :
    made.select?.or (selectText? (words.drop count)) =
      g.select?.or (selectText? (.option o none :: words)) := by
  simp only [takeValues, Option.ite_none_left_eq_some, Option.map_eq_some_iff, Prod.mk.injEq] at h
  obtain ⟨hne, other, hfold, rfl, rfl⟩ := h
  by_cases ho : o = .select
  · subst ho
    match words with
    | .value text :: rest =>
        have htake : g.take .select text = some other := by
          simpa [leadingValues] using hfold
        obtain ⟨hnone, hsome⟩ := select?_of_take htake
        rw [hnone, hsome]
        rfl
    | [] | .option _ _ :: _ | .unknownOption :: _ | .endOfOptions :: _ =>
        simp [leadingValues] at hne
  · -- the words that are passed by are values of another option
    rw [select?_of_foldlM ho hfold, selectText?_option ho, selectText?_drop]
    split
    · exact Nat.le_refl _
    · exact List.length_take_le' _ _

/-- When all words are read, the selection has the text that was given before them, or else the
first that is given among them. -/
theorem select?_of_readWords {fuel : Nat} {g made : Given} {words : List Word}
    (h : readWords fuel g words = .done made) :
    made.select? = g.select?.or (selectText? words) := by
  fun_induction readWords fuel g words with
  | case2 | case3 =>
      cases h
      exact Option.or_none.symm
  | case7 _ g attached rest _ ih =>
      rw [ih h, selectText?_option (by decide)]
  | case8 _ g o value rest _ _ next htake ih =>
      have hstep := select?_of_take htake
      rw [ih h]
      by_cases ho : o = .select
      · subst ho
        obtain ⟨hnone, hsome⟩ := hstep
        rw [hnone, hsome]
        rfl
      · rw [if_neg ho] at hstep
        rw [hstep, selectText?_option ho]
  | case10 _ g o rest _ _ next count htake ih =>
      rw [ih h, select?_of_takeValues htake]
  | case1 | case4 | case5 | case6 | case9 | case11 | case12 => cases h

theorem inputs_of_request {sub : Subcommand} {g : Given} {i : Invocation}
    (h : g.request sub = .run i) : i.inputs = g.inputs := by
  simp only [Given.request] at h
  split at h
  · cases h
  · cases sub <;> cases h <;> rfl

theorem helpOf_ne_run (args : List String) (i : Invocation) : helpOf args ≠ .run i := by
  match args with
  | [] | _ :: _ :: _ => simp [helpOf]
  | [name] =>
      simp only [helpOf]
      split <;> simp

theorem select?_of_arguments {args : List String} {i : Invocation}
    (h : Request.ofArguments args = .run i) :
    i.inputs.select? = (selectionText? args).map selectionOf := by
  match args with
  | [] => cases h
  | first :: rest =>
      simp only [Request.ofArguments] at h
      cases hsub : Subcommand.named.lookup first with
      | none =>
          simp only [hsub] at h
          split at h
          · exact absurd h (helpOf_ne_run rest i)
          · split at h <;> cases h
      | some sub =>
          simp only [hsub, ofWords] at h
          split at h
          · rename_i g hread
            rw [inputs_of_request h, Given.inputs, select?_of_readWords hread, selectionText?, hsub]
            rfl
          · cases h
          · cases h

end Arguments

namespace Node

theorem itemOr_null_name (n : Node) (key : String) :
    n.itemOr [.name key] .null =
      match n with
      | .map es => (Entries.get? key es).getD .null
      | _ => .null := by
  cases n with
  | scalar | seq => rfl
  | map es =>
      simp only [itemOr, item?, get?]
      cases Entries.get? key es with
      | none => rfl
      | some next =>
          by_cases hnull : next.isNull = true
          · cases next with
            | scalar s => cases s <;> simp_all [isNull]
            | seq | map => cases hnull
          · simp [hnull]

theorem path_of_item? {key s : String} {path : KeyPath}
    (h : (Node.map [(key, .string s)]).item? path = some (.string s)) : path = [.name key] := by
  cases path with
  | nil => cases h
  | cons k path =>
      cases k with
      | index i => cases h
      | name other =>
          simp only [item?, get?, Entries.get?_cons, Entries.get?_nil] at h
          split at h
          · rename_i next hnext
            split at hnext
            · rename_i hkey
              cases hnext
              subst hkey
              cases path with
              | nil => rfl
              | cons k path => cases k <;> cases h
            · cases hnext
          · cases h

theorem exists_jsonText {n : Node} (hc : n.Canonical) (hw : n.WellFormed) (hf : n.FloatFree)
    (hd : n.depth ≤ Json.maxDepth) : ∃ text, ofJsonText text = .ok n := by
  have hnone : ∀ b ∈ Utf8.ofChars [], Json.isBlank b = true := Json.isBlank_of_mem_nil
  exact ⟨_, ofJsonText_write Json.compact_blank hc hw hf hd hnone⟩

theorem exists_jsonText_map {key : String} (hk : ¬ RawKey.IsIndexText key) (s : String) :
    ∃ text, ofJsonText text = .ok (.map [(key, .string s)]) := by
  have hd : (Node.map [(key, .string s)]).depth = 1 := rfl
  refine exists_jsonText ⟨List.cons_ne_nil _ _, hk, trivial, trivial⟩
    ⟨List.nodup_singleton key, trivial, trivial⟩ ⟨trivial, trivial⟩ ?_
  rw [hd]
  decide

theorem exists_jsonText_seq (count : Nat) (s : String) :
    ∃ text, ofJsonText text = .ok (.seq (List.replicate count (.string s))) := by
  have hitems : canonicalItems (List.replicate count (.string s)) ∧
      wellFormedItems (List.replicate count (.string s)) ∧
      floatFreeItems (List.replicate count (.string s)) ∧
      depthItems (List.replicate count (.string s)) = 0 := by
    induction count with
    | zero => exact ⟨trivial, trivial, trivial, rfl⟩
    | succ count ih =>
        obtain ⟨hc, hw, hf, hd⟩ := ih
        refine ⟨⟨trivial, hc⟩, ⟨trivial, hw⟩, ⟨trivial, hf⟩, ?_⟩
        rw [List.replicate_succ, depthItems, hd]
        rfl
  obtain ⟨hc, hw, hf, hd⟩ := hitems
  refine exists_jsonText hc hw hf ?_
  rw [depth, hd]
  decide

end Node

namespace RawKey

theorem IsIndexText.not_mem_dot {s : String} (h : IsIndexText s) : '.' ∉ s.toList :=
  fun hdot => not_isIndexText_of_mem hdot (by decide) (by decide) h

end RawKey

/-- A key and its text as a dotted path lead to the same place in every document only if the text
is plain: one that is an index in one of the two senses, or is cut at a dot, is told apart by a
document that has it as a key, or has a sequence. -/
theorem KeyPath.agrees_iff (s : String) :
    (∀ (text : String) (n : Node), Node.ofJsonText text = .ok n ∨ Node.ofYamlText text = .ok n →
      n.itemOr [.name s] .null = n.itemOr (ofDotted s) .null) ↔ IsPlain s := by
  constructor
  · intro h
    by_cases hindex : RawKey.IsIndexText s
    · have hne : s ≠ "" := by
        rintro rfl
        exact RawKey.not_isIndexText_empty hindex
      refine ⟨hne, hindex.not_mem_dot, ?_⟩
      cases hi : Key.index? s.toList with
      | none => rfl
      | some i =>
          -- a sequence long enough has an item at that place, and nothing at the name
          obtain ⟨text, htext⟩ := Node.exists_jsonText_seq (i.toNat + 1) "x"
          have hagree := h text _ (.inl htext)
          rw [ofDotted_of_not_mem hne hindex.not_mem_dot, Key.ofSegment, hi] at hagree
          simp [Node.itemOr, Node.item?, Node.get?, Node.isNull] at hagree
    · -- the map that has the text as its one key leads to its value by that key alone
      obtain ⟨text, htext⟩ := Node.exists_jsonText_map hindex "x"
      have hagree := h text _ (.inl htext)
      rw [← ofDotted_eq_name_iff]
      refine Node.path_of_item? (s := "x") ?_
      rw [Node.itemOr_null_name] at hagree
      simp only [Entries.get?_cons, if_true, Option.getD_some, Node.itemOr] at hagree
      cases hitem : (Node.map [(s, .string "x")]).item? (ofDotted s) with
      | none => simp [hitem] at hagree
      | some m => rw [hagree, hitem, Option.getD_some]
  · intro h text n _
    rw [(ofDotted_eq_name_iff s).mpr h]

namespace Invocation

/-- The text of a selection is one key, however it looks: of a map its value is gone on with, and of
anything else null. The path that the text spells in dotted form leads to the same in all documents
only if the text is plain. -/
theorem selected_by_whole_text {args : List String} {i : Invocation}
    (hi : Request.ofArguments args = .run i) {s : String}
    (hs : Arguments.selectionText? args = some s) :
    (∀ files documents, i.inputs.load files = .ok documents → ∀ d ∈ documents,
      ∃ n, readDocument files d.1 = .ok n ∧ d.2 = i.inputs.selected n) ∧
    (∀ n, i.inputs.selected n =
      match n with
      | .map es => (Entries.get? s es).getD .null
      | _ => .null) ∧
    ((∀ text n, Node.ofJsonText text = .ok n ∨ Node.ofYamlText text = .ok n →
      i.inputs.selected n = n.itemOr (KeyPath.ofDotted s) .null) ↔ KeyPath.IsPlain s) := by
  have hselect : i.inputs.select? = some [.name s] := by
    rw [Arguments.select?_of_arguments hi, hs]
    rfl
  have hselected (n : Node) : i.inputs.selected n = n.itemOr [.name s] .null := by
    simp only [Inputs.selected, hselect]
  refine ⟨fun files documents hl => ?_, fun n => ?_, ?_⟩
  · exact ((Inputs.load_eq_ok_iff _ _ _).mp hl).2.2
  · rw [hselected, Node.itemOr_null_name]
  · simp only [hselected, KeyPath.agrees_iff]

theorem selected_by_whole_text_jobs :
    ∃ i, Request.ofArguments ["classify", "-i", "a.yml", "b.yml", "--select=jobs.0"] = .run i ∧
      i.inputs.selected (.map [("jobs", .seq [.string "x"])]) = .null ∧
      i.inputs.selected (.map [("jobs.0", .string "y")]) = .string "y" ∧
      ¬ ∀ text n, Node.ofJsonText text = .ok n ∨ Node.ofYamlText text = .ok n →
        i.inputs.selected n = n.itemOr (KeyPath.ofDotted "jobs.0") .null := by
  have hi : Request.ofArguments ["classify", "-i", "a.yml", "b.yml", "--select=jobs.0"] =
      .run (.classify ⟨⟨some [.name "jobs.0"], ["a.yml", "b.yml"]⟩, false⟩) := rfl
  obtain ⟨-, hselected, hdotted⟩ := selected_by_whole_text hi (s := "jobs.0") rfl
  refine ⟨_, hi, hselected _, hselected _, fun h => ?_⟩
  exact (hdotted.mp h).2.1 (by decide)

theorem not_all_selections_dotted :
    ¬ ∀ (args : List String) (i : Invocation) (s : String), Request.ofArguments args = .run i →
      Arguments.selectionText? args = some s →
      ∀ n, i.inputs.selected n = n.itemOr (KeyPath.ofDotted s) .null := by
  intro h
  have hfound := h ["normalize", "--select", "a.0", "-i", "d.json"] _ "a.0" rfl rfl
    (.map [("a", .seq [.string "x"])])
  cases hfound

end Invocation

end ConfigShape

import ConfigShape.Proofs.Inputs

namespace ConfigShape

namespace Normalization

def assembled (profile : Profile) (documents : List (FilePath × Node)) : Node :=
  assemble (documents.map (fun d => (d.1, profile.apply d.2)))

theorem document_eq_ok_iff (n : Normalization) (files : Files) (d : Node) :
    n.document files = .ok d ↔
      ∃ profile documents, n.loadProfile files = .ok profile ∧
        n.inputs.load files = .ok documents ∧ assembled profile documents = d := by
  simp only [document, bind_eq_ok_iff, Except.ok.injEq, assembled, exists_and_left]

theorem exists_loadProfile_iff (n : Normalization) (files : Files) :
    (∃ profile, n.loadProfile files = .ok profile) ↔
      ∀ path, n.profile? = some path → ∃ profile, Profile.load files path = .ok profile := by
  rw [loadProfile]
  cases n.profile? with
  | none => simp
  | some path => simp [mapError_eq_ok_iff]

theorem run_of_fault {n : Normalization} {files : Files} {f : Failure}
    (h : n.document files = .error f) (p : Palette) : n.run p files = .failed p files f := by
  simp only [run, h]

theorem run_of_printed {n : Normalization} {files : Files} {d : Node}
    (h : n.document files = .ok d) (hout : n.out? = none) (p : Palette) :
    n.run p files = ⟨0, n.format.render d ++ "\n", "", files⟩ := by
  simp only [run, h, hout]

theorem run_of_written {n : Normalization} {files written : Files} {d : Node} {path : FilePath}
    (h : n.document files = .ok d) (hout : n.out? = some path)
    (hw : writeOut files path (n.format.render d) = (written, none)) (p : Palette) :
    n.run p files = ⟨0, "", "", written⟩ := by
  simp only [run, h, hout, hw]

end Normalization

namespace Classification

theorem run_of_fault {c : Classification} {files : Files} {f : Failure}
    (h : c.inputs.load files = .error f) (p : Palette) : c.run p files = .failed p files f := by
  simp only [run, h]

theorem run_of_loaded {c : Classification} {files : Files} {documents : List (FilePath × Node)}
    (h : c.inputs.load files = .ok documents) (p : Palette) :
    c.run p files = ⟨0, text p documents, "", files⟩ := by
  simp only [run, h]

end Classification

namespace Invocation

def inputs : Invocation → Inputs
  | .normalize n => n.inputs
  | .classify c => c.inputs

def profile? : Invocation → Option FilePath
  | .normalize n => n.profile?
  | .classify _ => none

/-- What can be in the way of a run: the profile is not read or not accepted, a pattern stands for
no path, or one of the inputs is not read or not decoded. -/
inductive Obstacle (i : Invocation) (files : Files) : Prop
  | profile {path : FilePath} {f : LoadFault} (hp : i.profile? = some path)
      (hf : Profile.load files path = .error f)
  | pattern {pattern : String} (hm : pattern ∈ i.inputs.patterns)
      (hn : Inputs.found files pattern = [])
  | unread {path : FilePath} {f : FileFault} (hm : path ∈ i.inputs.resolved files)
      (hf : files.readText path = .error f)
  | undecoded {path : FilePath} {text : String} {f : DecodeFault}
      (hm : path ∈ i.inputs.resolved files) (ht : files.readText path = .ok text)
      (hf : decode path text = .error f)

theorem not_obstacle_iff (i : Invocation) (files : Files) :
    ¬ i.Obstacle files ↔
      (∀ path, i.profile? = some path → ∃ profile, Profile.load files path = .ok profile) ∧
      ∃ documents, i.inputs.load files = .ok documents := by
  rw [Inputs.exists_load_iff]
  constructor
  · intro h
    refine ⟨fun path hp => ?_, fun pattern hm hn => h (.pattern hm hn), fun path hm => ?_⟩
    · cases hf : Profile.load files path with
      | error f => exact absurd (.profile hp hf) h
      | ok profile => exact ⟨profile, rfl⟩
    · simp only [readDocument_eq_ok_iff]
      cases ht : files.readText path with
      | error f => exact absurd (.unread hm ht) h
      | ok text =>
          cases hf : decode path text with
          | error f => exact absurd (.undecoded hm ht hf) h
          | ok n => exact ⟨n, text, rfl, hf⟩
  · rintro ⟨hprofile, hfound, hread⟩ (⟨hp, hf⟩ | ⟨hm, hn⟩ | ⟨hm, hf⟩ | ⟨hm, ht, hf⟩)
    · obtain ⟨profile, hok⟩ := hprofile _ hp
      rw [hok] at hf
      cases hf
    · exact hfound _ hm hn
    · obtain ⟨n, hn⟩ := hread _ hm
      obtain ⟨text, ht, -⟩ := (readDocument_eq_ok_iff _ _ _).mp hn
      rw [ht] at hf
      cases hf
    · obtain ⟨n, hn⟩ := hread _ hm
      obtain ⟨other, ho, hd⟩ := (readDocument_eq_ok_iff _ _ _).mp hn
      rw [ht] at ho
      cases ho
      rw [hd] at hf
      cases hf

theorem run_of_obstacle {i : Invocation} (hi : i.isIdle = false) {files : Files}
    (h : i.Obstacle files) (p : Palette) : ∃ f, i.run p files = .failed p files f := by
  have hnone := mt (not_obstacle_iff i files).mpr (not_not.mpr h)
  cases i with
  | normalize n =>
      cases hd : n.document files with
      | error f =>
          refine ⟨f, ?_⟩
          rw [run, hi]
          exact Normalization.run_of_fault hd p
      | ok d =>
          obtain ⟨profile, documents, hp, hl, -⟩ := (n.document_eq_ok_iff files d).mp hd
          exact absurd ⟨(n.exists_loadProfile_iff files).mp ⟨profile, hp⟩, documents, hl⟩ hnone
  | classify c =>
      cases hl : c.inputs.load files with
      | error f =>
          refine ⟨f, ?_⟩
          rw [run, hi]
          exact Classification.run_of_fault hl p
      | ok documents =>
          refine absurd ⟨?_, documents, hl⟩ hnone
          rintro path ⟨⟩

/-- A run either does all of its work or none. If anything is in its way, whatever the input, it
ends with code 1, prints nothing, and leaves the files as they were. Otherwise the documents of all
inputs are there, in order, and they are what it prints or writes; it ends with code 0 as soon as
the writing succeeds. -/
theorem run_all_or_nothing {i : Invocation} (hi : i.isIdle = false) (p : Palette)
    (files : Files) :
    (i.Obstacle files →
      (i.run p files).code = 1 ∧ (i.run p files).output = "" ∧ (i.run p files).files = files) ∧
    (¬ i.Obstacle files → ∃ documents : List (FilePath × Node),
      documents.map Prod.fst = i.inputs.resolved files ∧
      (∀ d ∈ documents, i.inputs.Holds files d) ∧
      (∀ c, i = .classify c →
        i.run p files = ⟨0, Classification.text p documents, "", files⟩) ∧
      ∀ n, i = .normalize n → ∃ profile, n.loadProfile files = .ok profile ∧
        (n.out? = none → i.run p files =
          ⟨0, n.format.render (Normalization.assembled profile documents) ++ "\n", "", files⟩) ∧
        ∀ path written, n.out? = some path →
          writeOut files path (n.format.render (Normalization.assembled profile documents)) =
            (written, none) →
          i.run p files = ⟨0, "", "", written⟩) := by
  constructor
  · intro h
    obtain ⟨f, hf⟩ := run_of_obstacle hi h p
    rw [hf]
    exact ⟨rfl, rfl, rfl⟩
  · intro h
    obtain ⟨hprofile, documents, hl⟩ := (not_obstacle_iff i files).mp h
    obtain ⟨-, hps, hd⟩ := (Inputs.load_eq_ok_iff _ _ _).mp hl
    refine ⟨documents, hps, hd, ?_, ?_⟩
    · rintro c rfl
      rw [run, hi]
      exact Classification.run_of_loaded hl p
    · rintro n rfl
      obtain ⟨profile, hp⟩ := (n.exists_loadProfile_iff files).mpr hprofile
      have hdocument := (n.document_eq_ok_iff files _).mpr ⟨profile, documents, hp, hl, rfl⟩
      refine ⟨profile, hp, fun hout => ?_, fun path written hout hw => ?_⟩
      · rw [run, hi]
        exact Normalization.run_of_printed hdocument hout p
      · rw [run, hi]
        exact Normalization.run_of_written hdocument hout hw p

theorem run_all_or_nothing_cut_short :
    ∃ files : Files, files.readText "a.json" = .ok "[true]" ∧ files.readText "b.json" = .ok "[" ∧
      ((normalize ⟨⟨none, ["a.json", "b.json"]⟩, none, .json, some "c.json", false⟩).run ⟨false⟩
        files).code = 1 ∧
      ((normalize ⟨⟨none, ["a.json", "b.json"]⟩, none, .json, some "c.json", false⟩).run ⟨false⟩
        files).files = files ∧
      ((normalize ⟨⟨none, ["a.json"]⟩, none, .json, none, false⟩).run ⟨false⟩ files).code = 0 := by
  let files : Files := ⟨.directory [("a.json", .file (Utf8.encode "[true]")),
    ("b.json", .file (Utf8.encode "["))], []⟩
  have ha : files.readText "a.json" = .ok "[true]" := rfl
  have hb : files.readText "b.json" = .ok "[" := rfl
  obtain ⟨f, hf⟩ : ∃ f, decode "b.json" "[" = .error f := ⟨_, rfl⟩
  have hobstacle : (normalize ⟨⟨none, ["a.json", "b.json"]⟩, none, .json, some "c.json",
      false⟩).Obstacle files :=
    .undecoded (List.mem_cons_of_mem _ List.mem_cons_self) hb hf
  have hfree : ¬ (normalize ⟨⟨none, ["a.json"]⟩, none, .json, none, false⟩).Obstacle files := by
    rw [not_obstacle_iff]
    refine ⟨?_, [("a.json", .seq [.scalar (.bool true)])], rfl⟩
    rintro path ⟨⟩
  obtain ⟨hcode, -, hfiles⟩ := (run_all_or_nothing rfl ⟨false⟩ files).1 hobstacle
  obtain ⟨documents, -, -, -, hrun⟩ := (run_all_or_nothing rfl ⟨false⟩ files).2 hfree
  obtain ⟨profile, -, hprinted, -⟩ := hrun _ rfl
  refine ⟨files, ha, hb, hcode, hfiles, ?_⟩
  rw [hprinted rfl]

end Invocation

end ConfigShape

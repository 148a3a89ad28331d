import ConfigShape.Proofs.Outcome

namespace ConfigShape

namespace Normalization

def withPatterns (n : Normalization) (patterns : List String) : Normalization :=
  { n with inputs := { n.inputs with patterns } }

/-- The run makes this document, which is what it prints where it does not write to a file. -/
def Prints (n : Normalization) (files : Files) (d : Node) : Prop :=
  n.document files = .ok d ∧ (n.out? = none → ∀ p,
    (Invocation.normalize n).run p files = ⟨0, n.format.render d ++ "\n", "", files⟩)

theorem prints_of_document {n : Normalization} (hi : n.idle = false) {files : Files} {d : Node}
    (h : n.document files = .ok d) : n.Prints files d := by
  refine ⟨h, fun hout p => ?_⟩
  rw [Invocation.run, Invocation.isIdle, hi]
  exact run_of_printed h hout p

theorem assembled_of_many (profile : Profile) {documents : List (FilePath × Node)}
    (h : 2 ≤ documents.length) :
    assembled profile documents =
      .map (Entries.ofList (documents.map (fun d => (d.1, profile.apply d.2)))) := by
  match documents with
  | [] | [_] => simp at h
  | _ :: _ :: _ => rfl

theorem document_alone {n : Normalization} {files : Files} {profile : Profile}
    (hp : n.loadProfile files = .ok profile) {d : FilePath × Node} (hd : n.inputs.Holds files d)
    {patterns : List String} (hone : Inputs.paths files patterns = .ok [d.1]) :
    (n.withPatterns patterns).document files = .ok (profile.apply d.2) := by
  obtain ⟨hfound, hps⟩ := (Inputs.paths_eq_ok_iff files patterns [d.1]).mp hone
  rw [document_eq_ok_iff]
  refine ⟨profile, [d], hp, ?_, rfl⟩
  rw [Inputs.load_eq_ok_iff]
  exact ⟨hfound, hps.symm, fun e he => List.mem_singleton.mp he ▸ hd⟩

theorem holds_unique {inputs : Inputs} {files : Files} {d e : FilePath × Node}
    (hd : inputs.Holds files d) (he : inputs.Holds files e) (h : d.1 = e.1) : d = e := by
  obtain ⟨n, hn, hd⟩ := hd
  obtain ⟨m, hm, he⟩ := he
  rw [h, hm] at hn
  cases hn
  exact Prod.ext h (hd.trans he.symm)

/-- With inputs that come to two paths or more, all of them decoded, a run gives a map. Its keys are
the paths, each once where it comes first: pattern after pattern, what is found for a pattern in its
place. Under each path is the document that the same run gives when that is its only path. -/
theorem prints_assembly {n : Normalization} (hi : n.idle = false) {files : Files}
    {profile : Profile} (hp : n.loadProfile files = .ok profile) {ps : List FilePath}
    (hps : Inputs.paths files n.inputs.patterns = .ok ps) (htwo : 2 ≤ ps.length)
    (hread : ∀ path ∈ ps, ∃ m, readDocument files path = .ok m) :
    ∃ es : Entries Node, n.Prints files (.map es) ∧
      es.keys = (n.inputs.patterns.flatMap (Inputs.found files)).eraseDups ∧
      ∀ path ∈ ps, ∃ d, es.get? path = some d ∧
        ∀ patterns, Inputs.paths files patterns = .ok [path] →
          (n.withPatterns patterns).Prints files d := by
  obtain ⟨hfound, rfl⟩ := (Inputs.paths_eq_ok_iff _ _ _).mp hps
  obtain ⟨documents, hl⟩ := (n.inputs.exists_load_iff files).mpr ⟨hfound, hread⟩
  obtain ⟨-, hpaths, hd⟩ := (Inputs.load_eq_ok_iff _ _ _).mp hl
  let made := documents.map (fun d => (d.1, profile.apply d.2))
  have hkeys : Entries.keys made = n.inputs.resolved files := by
    rw [← hpaths, Entries.keys, List.map_map]
    rfl
  have hlength : 2 ≤ documents.length := by
    have hlen := congrArg List.length hpaths
    rw [List.length_map] at hlen
    rw [hlen]
    exact htwo
  refine ⟨Entries.ofList made, prints_of_document hi ?_, ?_, fun path hpath => ?_⟩
  · rw [document_eq_ok_iff]
    exact ⟨profile, documents, hp, hl, assembled_of_many profile hlength⟩
  · rw [Entries.keys_ofList, hkeys]
    rfl
  · have hloaded : path ∈ documents.map Prod.fst := hpaths ▸ hpath
    obtain ⟨d, hmem, rfl⟩ := List.mem_map.mp hloaded
    refine ⟨profile.apply d.2, Entries.get?_ofList (hkeys ▸ hpath) ?_, fun patterns hone => ?_⟩
    · intro other hother
      obtain ⟨e, he, heq⟩ := List.mem_map.mp hother
      simp only [Prod.mk.injEq] at heq
      obtain ⟨hpath, rfl⟩ := heq
      rw [holds_unique (hd e he) (hd d hmem) hpath]
    · have halone := document_alone hp (hd d hmem) hone
      exact prints_of_document (n := n.withPatterns patterns) hi halone

theorem prints_assembly_overlap :
    ∃ (files : Files) (es : Entries Node),
      (Normalization.mk ⟨none, ["b.json", "*.json"]⟩ none .json none false).Prints files (.map es) ∧
      es.keys = ["b.json", "a.json"] ∧
      ∃ d, es.get? "a.json" = some d ∧
        (Normalization.mk ⟨none, ["a.json"]⟩ none .json none false).Prints files d := by
  let files : Files := ⟨.directory [("a.json", .file (Utf8.encode "[true]")),
    ("b.json", .file (Utf8.encode "null"))], []⟩
  have ha : readDocument files "a.json" = .ok (.seq [.scalar (.bool true)]) := rfl
  have hb : readDocument files "b.json" = .ok .null := rfl
  have hnames : files.names "." = ["a.json", "b.json"] := List.mergeSort_of_pairwise (by decide)
  have hstar : Inputs.found files "*.json" = ["a.json", "b.json"] := by
    have hpattern : Glob.PathPattern.parse "*.json" = .ok ⟨false,
        [[.anyRun, .char '.', .char 'j', .char 's', .char 'o', .char 'n']], false⟩ := rfl
    rw [Inputs.found, hpattern]
    change ((files.names ".").filter (fun name => Glob.Pattern.fits _ name.toList)).flatMap
      (fun name => Glob.expandFrom files [] (Glob.childPath "." name)) = _
    rw [hnames]
    rfl
  have hfound : ["b.json", "*.json"].flatMap (Inputs.found files) =
      ["b.json", "a.json", "b.json"] := by
    rw [List.flatMap_cons, List.flatMap_singleton, hstar]
    rfl
  have hps : Inputs.paths files ["b.json", "*.json"] = .ok ["b.json", "a.json", "b.json"] := by
    rw [Inputs.paths_eq_ok_iff]
    have hliteral : Inputs.found files "b.json" = ["b.json"] := rfl
    exact ⟨by simp [hliteral, hstar], hfound⟩
  have hread : ∀ path ∈ ["b.json", "a.json", "b.json"], ∃ m, readDocument files path = .ok m := by
    simp [ha, hb]
  obtain ⟨es, hprints, hkeys, hget⟩ := prints_assembly
    (n := ⟨⟨none, ["b.json", "*.json"]⟩, none, .json, none, false⟩) rfl rfl hps (by decide) hread
  obtain ⟨d, hd, hone⟩ := hget "a.json" (by simp)
  refine ⟨files, es, hprints, ?_, d, hd, hone ["a.json"] rfl⟩
  rw [hkeys, hfound]
  decide

end Normalization

end ConfigShape

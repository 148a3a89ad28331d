import ConfigShape.Profile.Load
import ConfigShape.Proofs.Sections

namespace ConfigShape

namespace SectionRule

def Listless (rule : SectionRule) : Prop := rule.shape = .enumeration ∧ rule.allowed = none

def Prefixless (rule : SectionRule) : Prop := rule.shape = .prefixMap ∧ rule.prefixKey = none

theorem lacksList_iff (rule : SectionRule) : Profile.lacksList rule = true ↔ rule.Listless := by
  simp [Profile.lacksList, Listless]

theorem lacksPrefix_iff (rule : SectionRule) :
    Profile.lacksPrefix rule = true ↔ rule.Prefixless := by
  simp [Profile.lacksPrefix, Prefixless]

instance (rule : SectionRule) : Decidable rule.Listless := decidable_of_iff _ rule.lacksList_iff

instance (rule : SectionRule) : Decidable rule.Prefixless :=
  decidable_of_iff _ rule.lacksPrefix_iff

theorem apply_enumeration {rule : SectionRule} {allowed : AllowList} (h : rule.shape = .enumeration)
    (ha : rule.allowed = some allowed) (n : Node) :
    rule.apply n = (((n.resolveAliases rule.aliases).toString? rule.prefixKey).bind
      (fun s => allowed.accept? (.string s))).getD .null := by
  simp only [apply, h, ha, Option.getD_some]
  cases (n.resolveAliases rule.aliases).toString? rule.prefixKey <;> rfl

end SectionRule

def Notice.isWarning : Notice → Bool
  | .prefixMissing _ => true
  | _ => false

namespace Profile

/-- One warning for each rule that lacks its prefix, in the order of the rules. -/
def warnings (rules : List (String × SectionRule)) : List Notice :=
  (rules.filter (fun e => e.2.Prefixless)).map (fun e => .prefixMissing e.1)

def placed (sections : Entries SectionRule) : List (String × SectionRule) :=
  sections.map (fun e => ("sections." ++ e.1, e.2))

/-- The place of the list that is missed first, and the rules that come before it: the rule of the
document is looked at first, then those of the sections. -/
inductive StopsAt (p : Profile) : List (String × SectionRule) → String → Prop
  | root (h : p.root.Listless) : StopsAt p [] "root.allowed"
  | section_ {before after : Entries SectionRule} {name : String} {rule : SectionRule}
      (hroot : ¬ p.root.Listless) (hs : p.sections = before ++ (name, rule) :: after)
      (hbefore : ∀ e ∈ before, ¬ e.2.Listless) (h : rule.Listless) :
      StopsAt p (("root", p.root) :: placed before) ("sections." ++ name ++ ".allowed")

theorem check_of_listless {rule : SectionRule} (h : rule.Listless) (path : String)
    (rest : List (String × SectionRule)) :
    check ((path, rule) :: rest) = ([], some ⟨path ++ ".allowed"⟩) := by
  rw [check, if_pos (rule.lacksList_iff.mpr h)]

theorem check_of_not_listless {rule : SectionRule} (h : ¬ rule.Listless) (path : String)
    (rest : List (String × SectionRule)) :
    check ((path, rule) :: rest) =
      (warnings [(path, rule)] ++ (check rest).1, (check rest).2) := by
  rw [check, if_neg (mt rule.lacksList_iff.mp h)]
  by_cases hp : rule.Prefixless
  · simp [warnings, hp, rule.lacksPrefix_iff.mpr hp]
  · simp [warnings, hp, mt rule.lacksPrefix_iff.mp hp]

theorem warnings_append (xs ys : List (String × SectionRule)) :
    warnings (xs ++ ys) = warnings xs ++ warnings ys := by
  rw [warnings, List.filter_append, List.map_append]
  rfl

theorem check_append {before : List (String × SectionRule)} (h : ∀ e ∈ before, ¬ e.2.Listless)
    (after : List (String × SectionRule)) :
    check (before ++ after) = (warnings before ++ (check after).1, (check after).2) := by
  induction before with
  | nil => rfl
  | cons e rest ih =>
      rw [List.forall_mem_cons] at h
      rw [List.cons_append, check_of_not_listless h.1, ih h.2, ← List.append_assoc,
        ← warnings_append, List.singleton_append]

theorem check_of_passed {rules : List (String × SectionRule)} (h : ∀ e ∈ rules, ¬ e.2.Listless) :
    check rules = (warnings rules, none) := by
  have hcheck := check_append h []
  rw [List.append_nil] at hcheck
  rw [hcheck, check, List.append_nil]

theorem not_listless_of_mem_placed {sections : Entries SectionRule}
    (h : ∀ e ∈ sections, ¬ e.2.Listless) : ∀ e ∈ placed sections, ¬ e.2.Listless := by
  rw [placed, List.forall_mem_map]
  exact h

theorem check_of_stopsAt {p : Profile} {before : List (String × SectionRule)} {place : String}
    (h : p.StopsAt before place) : check p.rules = (warnings before, some ⟨place⟩) := by
  cases h with
  | root h => exact check_of_listless h "root" _
  | section_ hroot hs hbefore h =>
      rename_i before after name rule
      have hrules : p.rules = (("root", p.root) :: placed before) ++
          ("sections." ++ name, rule) :: placed after := by
        rw [rules, hs, List.map_append, List.map_cons, List.cons_append]
        rfl
      have hpassed := not_listless_of_mem_placed hbefore
      rw [hrules, check_append (List.forall_mem_cons.mpr ⟨hroot, hpassed⟩),
        check_of_listless h, List.append_nil]

/-- If any rule has no list, there is a first one that has none. -/
theorem exists_stopsAt {p : Profile} (h : ∃ e ∈ p.rules, e.2.Listless) :
    ∃ before place, p.StopsAt before place := by
  by_cases hroot : p.root.Listless
  · exact ⟨_, _, .root hroot⟩
  · obtain ⟨e, he, hl⟩ := h
    rcases List.mem_cons.mp he with rfl | he
    · exact absurd hl hroot
    · obtain ⟨entry, hentry, rfl⟩ := List.mem_map.mp he
      have hfound : (p.sections.find? (fun e => e.2.Listless)).isSome := by
        rw [List.find?_isSome]
        exact ⟨entry, hentry, by simpa using hl⟩
      obtain ⟨⟨name, rule⟩, hfirst⟩ := Option.isSome_iff_exists.mp hfound
      obtain ⟨hrule, before, after, hs, hbefore⟩ := List.find?_eq_some_iff_append.mp hfirst
      exact ⟨_, _, .section_ hroot hs (by simpa using hbefore) (by simpa using hrule)⟩

theorem ofBytes_of_stopsAt {bytes rest : List UInt8} {p : Profile}
    (hread : Json.Reader.run (read Json.maxDepth) bytes = .ok (p, rest))
    {before : List (String × SectionRule)} {place : String} (h : p.StopsAt before place) :
    ofBytes bytes = .error (.flaw ⟨place⟩) ∧ ofBytesNotices bytes = warnings before := by
  simp only [ofBytes, ofBytesNotices, hread, check_of_stopsAt h, and_self]

theorem ofBytes_of_passed {bytes rest : List UInt8} {p : Profile}
    (hread : Json.Reader.run (read Json.maxDepth) bytes = .ok (p, rest))
    (h : ∀ e ∈ p.rules, ¬ e.2.Listless) :
    ofBytes bytes = .ok p ∧ ofBytesNotices bytes = warnings p.rules := by
  simp only [ofBytes, ofBytesNotices, hread, check_of_passed h, and_self]

theorem StopsAt.exists_listless {p : Profile} {before : List (String × SectionRule)}
    {place : String} (h : p.StopsAt before place) : ∃ e ∈ p.rules, e.2.Listless := by
  cases h with
  | root h => exact ⟨_, List.mem_cons_self, h⟩
  | section_ hroot hs hbefore h =>
      rename_i before after name rule
      have hmem : (name, rule) ∈ p.sections := by
        rw [hs]
        exact List.mem_append_right before List.mem_cons_self
      exact ⟨_, List.mem_cons_of_mem _ (List.mem_map_of_mem hmem), h⟩

theorem ofBytes_eq_error_iff {bytes rest : List UInt8} {p : Profile}
    (hread : Json.Reader.run (read Json.maxDepth) bytes = .ok (p, rest)) (f : ProfileFault) :
    ofBytes bytes = .error f ↔ ∃ before place, p.StopsAt before place ∧ f = .flaw ⟨place⟩ := by
  constructor
  · intro hf
    by_cases hl : ∃ e ∈ p.rules, e.2.Listless
    · obtain ⟨before, place, hstop⟩ := exists_stopsAt hl
      rw [(ofBytes_of_stopsAt hread hstop).1] at hf
      exact ⟨before, place, hstop, (Except.error.inj hf).symm⟩
    · rw [(ofBytes_of_passed hread (by simpa using hl)).1] at hf
      cases hf
  · rintro ⟨before, place, hstop, rfl⟩
    exact (ofBytes_of_stopsAt hread hstop).1

theorem accepted_of_load {files : Files} {path : FilePath} {p : Profile}
    (h : load files path = .ok p) : p.WellFormed ∧ ∀ e ∈ p.rules, lacksList e.2 = false := by
  rw [load] at h
  split at h
  · cases h
  · exact accepted_of_ofBytes ((mapError_eq_ok_iff _ _ _).mp h)

theorem isWarning_of_mem_warnings {rules : List (String × SectionRule)} {notice : Notice}
    (h : notice ∈ warnings rules) : notice.isWarning = true := by
  obtain ⟨e, -, rfl⟩ := List.mem_map.mp h
  rfl

theorem isWarning_of_mem_ofBytesNotices {bytes : List UInt8} {notice : Notice}
    (h : notice ∈ ofBytesNotices bytes) : notice.isWarning = true := by
  cases hread : Json.Reader.run (read Json.maxDepth) bytes with
  | error e => simp [ofBytesNotices, hread] at h
  | ok made =>
      by_cases hl : ∃ e ∈ made.1.rules, e.2.Listless
      · obtain ⟨before, place, hstop⟩ := exists_stopsAt hl
        rw [(ofBytes_of_stopsAt hread hstop).2] at h
        exact isWarning_of_mem_warnings h
      · rw [(ofBytes_of_passed hread (by simpa using hl)).2] at h
        exact isWarning_of_mem_warnings h

theorem filter_loadNotices {files : Files} {path : FilePath} {bytes : List UInt8}
    (h : files.read path = .ok bytes) :
    (loadNotices files path).filter Notice.isWarning = ofBytesNotices bytes := by
  have hkept : (ofBytesNotices bytes).filter Notice.isWarning = ofBytesNotices bytes :=
    List.filter_eq_self.mpr fun _ => isWarning_of_mem_ofBytesNotices
  simp only [loadNotices, h, List.filter_append, hkept]
  cases ofBytes bytes <;> simp [Notice.isWarning]

/-- A profile that can be read is refused exactly when one of its rules is an enumeration without a
list. The place that is told is that of the first such rule, and the warnings are those of the rules
before it; of a profile that is accepted they are those of all rules. A file adds nothing to that. So
every enumeration of a profile that is accepted has its list, and looks a text up in that list
alone. -/
theorem checked_before_use :
    (∀ (bytes rest : List UInt8) (p : Profile),
      Json.Reader.run (read Json.maxDepth) bytes = .ok (p, rest) →
      ((∃ f, ofBytes bytes = .error f) ↔ ∃ e ∈ p.rules, e.2.Listless) ∧
      (∀ f, ofBytes bytes = .error f ↔
        ∃ before place, p.StopsAt before place ∧ f = .flaw ⟨place⟩) ∧
      (∀ before place, p.StopsAt before place → ofBytesNotices bytes = warnings before) ∧
      ((∀ e ∈ p.rules, ¬ e.2.Listless) →
        ofBytes bytes = .ok p ∧ ofBytesNotices bytes = warnings p.rules)) ∧
    (∀ (files : Files) (path : FilePath) (bytes : List UInt8), files.read path = .ok bytes →
      load files path = (ofBytes bytes).mapError .profile ∧
      (loadNotices files path).filter Notice.isWarning = ofBytesNotices bytes) ∧
    (∀ p : Profile, (∃ text, parse text = .ok p) ∨ (∃ files path, load files path = .ok p) →
      ∀ e ∈ p.rules, e.2.shape = .enumeration → ∃ allowed, e.2.allowed = some allowed ∧
        ∀ n, e.2.apply n = (((n.resolveAliases e.2.aliases).toString? e.2.prefixKey).bind
          (fun s => AllowList.accept? allowed (.string s))).getD .null) := by
  refine ⟨fun bytes rest p hread => ⟨?_, ofBytes_eq_error_iff hread,
    fun before place h => (ofBytes_of_stopsAt hread h).2, ofBytes_of_passed hread⟩,
    fun files path bytes hread => ⟨?_, filter_loadNotices hread⟩, fun p hp e he hshape => ?_⟩
  · simp only [ofBytes_eq_error_iff hread]
    constructor
    · rintro ⟨f, before, place, hstop, -⟩
      exact hstop.exists_listless
    · intro hl
      obtain ⟨before, place, hstop⟩ := exists_stopsAt hl
      exact ⟨_, before, place, hstop, rfl⟩
  · rw [load, hread]
  · have hl : lacksList e.2 = false := by
      rcases hp with ⟨text, h⟩ | ⟨files, path, h⟩
      · exact (accepted_of_parse h).2 e he
      · exact (accepted_of_load h).2 e he
    cases ha : e.2.allowed with
    | none =>
        rw [(e.2.lacksList_iff).mpr ⟨hshape, ha⟩] at hl
        cases hl
    | some allowed => exact ⟨allowed, rfl, SectionRule.apply_enumeration hshape ha⟩

set_option maxRecDepth 4000 in
theorem checked_before_use_dist :
    ∃ (files : Files) (bytes : List UInt8), bytes = Utf8.encode
        "\x7b\"root\": [\"map_ex\"], \"sections\": \x7b\"env\": [\"map_ex\"],
          \"os\": [\"enum\", null, [], \x7b\x7d, []], \"dist\": [\"enum\"], \"jobs\": [\"map_ex\"]\x7d\x7d" ∧
      files.read "p.json" = .ok bytes ∧
      load files "p.json" = .error (.profile (.flaw ⟨"sections.dist.allowed"⟩)) ∧
      (loadNotices files "p.json").filter Notice.isWarning =
        [.prefixMissing "root", .prefixMissing "sections.env"] ∧
      ∃ p allowed, parse "\x7b\"root\": [\"enum\", null, [], \x7b\x7d, [\"focal\"]]\x7d" = .ok p ∧
        p.root.allowed = some allowed ∧ p.root.apply (.string "focal") = .string "focal" := by
  let bytes : List UInt8 := Utf8.encode
    "\x7b\"root\": [\"map_ex\"], \"sections\": \x7b\"env\": [\"map_ex\"],
          \"os\": [\"enum\", null, [], \x7b\x7d, []], \"dist\": [\"enum\"], \"jobs\": [\"map_ex\"]\x7d\x7d"
  let files : Files := ⟨.directory [("p.json", .file bytes)], []⟩
  let bare (shape : ShapeRule) : SectionRule := ⟨shape, none, [], [], none⟩
  let os : SectionRule := ⟨.enumeration, none, [], [], some []⟩
  let p : Profile := ⟨bare .prefixMap, [("env", bare .prefixMap), ("os", os),
    ("dist", bare .enumeration), ("jobs", bare .prefixMap)]⟩
  have hread : files.read "p.json" = .ok bytes := rfl
  have hrun : Json.Reader.run (read Json.maxDepth) bytes = .ok (p, []) := rfl
  have hbare : ¬ (bare .prefixMap).Listless := by decide
  have hos : ¬ os.Listless := by decide
  have hdist : (bare .enumeration).Listless := by decide
  have hsections : p.sections = [("env", bare .prefixMap), ("os", os)] ++
      ("dist", bare .enumeration) :: [("jobs", bare .prefixMap)] := rfl
  have hstop := StopsAt.section_ hbare hsections
    (List.forall_mem_cons.mpr ⟨hbare, List.forall_mem_singleton.mpr hos⟩) hdist
  obtain ⟨hbytes, hfiles, haccepted⟩ := checked_before_use
  obtain ⟨-, herror, hwarnings, -⟩ := hbytes bytes [] p hrun
  obtain ⟨hload, hnotices⟩ := hfiles files "p.json" bytes hread
  let q : Profile := ⟨⟨.enumeration, none, [], [], some [.string "focal"]⟩, []⟩
  have hq : parse "\x7b\"root\": [\"enum\", null, [], \x7b\x7d, [\"focal\"]]\x7d" = .ok q := rfl
  obtain ⟨allowed, hallowed, happly⟩ :=
    haccepted q (.inl ⟨_, hq⟩) ("root", q.root) List.mem_cons_self rfl
  refine ⟨files, bytes, rfl, hread, ?_, ?_, q, allowed, hq, hallowed, ?_⟩
  · rw [hload, (herror _).mpr ⟨_, _, hstop, rfl⟩]
    rfl
  · rw [hnotices, hwarnings _ _ hstop]
    decide
  · cases hallowed
    exact happly (.string "focal")

end Profile

end ConfigShape

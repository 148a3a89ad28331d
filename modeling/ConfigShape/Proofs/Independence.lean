import ConfigShape.Proofs.Sections

namespace ConfigShape

namespace Entries

variable {α : Type}

theorem keys_insert_of_mem {key : String} (value : α) {es : Entries α} (h : key ∈ keys es) :
    keys (insert key value es) = keys es := by
  rw [keys_insert, if_pos h]

end Entries

namespace Profile

theorem distinct_applySections (sections : Entries SectionRule) {es : Entries Node}
    (he : es.Distinct) : (applySections sections es).Distinct := by
  rw [Entries.Distinct, keys_applySections]
  exact he

theorem applySections_of_perm {sections others : Entries SectionRule} (hs : sections.Distinct)
    (hp : others.Perm sections) {es : Entries Node} (he : es.Distinct) :
    applySections others es = applySections sections es := by
  refine Entries.eq_of_get? (distinct_applySections others he) ?_ fun k => ?_
  · rw [keys_applySections, keys_applySections]
  · rw [get?_applySections (hs.perm hp), get?_applySections hs]
    congr 1
    funext n
    rw [reshape, reshape, Entries.get?_of_perm hs hp]

theorem applySections_insert {sections : Entries SectionRule} (hs : sections.Distinct)
    {es : Entries Node} (he : es.Distinct) {name : String} (hn : name ∈ es.keys) (n : Node) :
    applySections sections (es.insert name n) =
      (applySections sections es).insert name (reshape sections name n) := by
  have hmade : name ∈ (applySections sections es).keys := by
    rw [keys_applySections]
    exact hn
  refine Entries.eq_of_get? (distinct_applySections sections (Entries.distinct_insert name n he))
    ?_ fun k => ?_
  · rw [keys_applySections, Entries.keys_insert_of_mem n hn, Entries.keys_insert_of_mem _ hmade,
      keys_applySections]
  · rw [get?_applySections hs, Entries.get?_insert, Entries.get?_insert, get?_applySections hs]
    by_cases hk : k = name
    · rw [if_pos hk, if_pos hk, hk]
      rfl
    · rw [if_neg hk, if_neg hk]

/-- When the root rule gives a map, its keys stay as they are. A section that has a rule holds what
that rule makes of its value, applied once, and any other keeps its value. The order of the rules
makes no difference, and a document whose root map has another value under one key gives another
value under that key alone. -/
theorem sections_independent {p : Profile} (hp : p.sections.Distinct) {document : Node}
    (hd : document.WellFormed) {es : Entries Node} (hes : p.root.apply document = .map es) :
    ∃ made : Entries Node, p.apply document = .map made ∧ made.keys = es.keys ∧
      (∀ name rule n, p.sections.get? name = some rule → es.get? name = some n →
        made.get? name = some (rule.apply n)) ∧
      (∀ name n, p.sections.get? name = none → es.get? name = some n →
        made.get? name = some n) ∧
      (∀ sections, sections.Perm p.sections →
        (Profile.mk p.root sections).apply document = .map made) ∧
      (∀ other name n, name ∈ es.keys → p.root.apply other = .map (es.insert name n) →
        p.apply other = .map (made.insert name (reshape p.sections name n))) := by
  have he : es.Distinct := by
    have hw := p.root.wellFormed_apply hd
    rw [hes] at hw
    exact ((Node.wellFormed_map_iff es).mp hw).1
  refine ⟨applySections p.sections es, apply_of_map hes, keys_applySections p.sections es,
    fun name rule n hr hn => ?_, fun name n hr hn => ?_, fun sections hs => ?_,
    fun other name n hn hother => ?_⟩
  · simp only [get?_applySections hp, hn, Option.map_some, reshape, hr]
  · simp only [get?_applySections hp, hn, Option.map_some, reshape, hr]
  · have hroot : (Profile.mk p.root sections).root.apply document = .map es := hes
    rw [apply_of_map hroot, applySections_of_perm hp hs he]
  · rw [apply_of_map hother, applySections_insert hp he hn]

theorem sections_independent_jobs :
    ∃ p : Profile, p.sections = [("os", ⟨.sequence, none, [], [], none⟩),
        ("env", ⟨.prefixMap, some "jobs", [], [("matrix", "jobs")], none⟩)] ∧
      ∃ made : Entries Node,
        p.apply (.map [("env", .map [("matrix", .string "A")]), ("os", .string "linux"),
          ("sudo", .null)]) = .map made ∧
        made.get? "env" = some (.map [("jobs", .seq [.string "A"])]) ∧
        made.get? "sudo" = some .null ∧
        (Profile.mk p.root p.sections.reverse).apply (.map [("env", .map [("matrix", .string "A")]),
          ("os", .string "linux"), ("sudo", .null)]) = .map made ∧
        p.apply (.map [("env", .map [("matrix", .string "A")]), ("os", .null), ("sudo", .null)]) =
          .map (made.insert "os" (.seq [])) := by
  let p : Profile := ⟨SectionRule.plain, [("os", ⟨.sequence, none, [], [], none⟩),
    ("env", ⟨.prefixMap, some "jobs", [], [("matrix", "jobs")], none⟩)]⟩
  have hp : p.sections.Distinct := by decide
  have hd : (Node.map [("env", .map [("matrix", .string "A")]), ("os", .string "linux"),
      ("sudo", .null)]).WellFormed := by
    simp [Node.WellFormed, Node.wellFormedEntries, Entries.Distinct, Entries.keys]
  have hes : p.root.apply (.map [("env", .map [("matrix", .string "A")]), ("os", .string "linux"),
      ("sudo", .null)]) = .map [("env", .map [("matrix", .string "A")]), ("os", .string "linux"),
      ("sudo", .null)] := rfl
  obtain ⟨made, hmade, -, hruled, hother, horder, hone⟩ := sections_independent hp hd hes
  refine ⟨p, rfl, made, hmade, hruled "env" _ _ rfl rfl, hother "sudo" _ rfl rfl,
    horder _ (List.reverse_perm _), ?_⟩
  exact hone _ "os" .null (by decide) rfl

end Profile

end ConfigShape

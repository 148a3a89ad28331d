import ConfigShape.Document
import ConfigShape.Proofs.YamlTree

namespace ConfigShape

namespace Yaml

def bare : Yaml → Yaml
  | .tagged _ v => v.bare
  | v => v

/-- What can be at fault in a value: a number that is no key, or a key of the mapping at `path`. -/
inductive Site where
  | number (n : YamlNumber)
  | key (path : String) (k : Yaml)

def Site.Faulty : Site → Prop
  | .number n => n = .nan ∨ ∃ negative, n = .infinite negative
  | .key _ k => (∃ items, k.bare = .seq items) ∨ ∃ entries, k.bare = .map entries

def Site.fault? : Site → Option ShapeFault
  | .number (.int _) | .number (.float _) => none
  | .number n => some (.unrepresentableNumber n.text)
  | .key path k =>
    match k.bare with
    | .seq _ => some (.unsupportedKey path "sequence")
    | .map _ => some (.unsupportedKey path "mapping")
    | _ => none

def entryPath (path : String) (k : Yaml) : String :=
  match Raw.keyOf? k with
  | some key => Raw.childPath path key
  | none => path

mutual
/-- All numbers and keys of a value whose place is `path`, in document order. -/
def sites (path : String) : Yaml → List Site
  | .null | .bool _ | .string _ => []
  | .number n => [.number n]
  | .seq items => sitesOfItems path 0 items
  | .map es => sitesOfEntries path es
  | .tagged _ v => v.sites path

def sitesOfItems (path : String) (i : Int) : List Yaml → List Site
  | [] => []
  | v :: rest => v.sites (Raw.childPath path (.index i)) ++ sitesOfItems path (i + 1) rest

def sitesOfEntries (path : String) : List (Yaml × Yaml) → List Site
  | [] => []
  | (k, v) :: rest => .key path k :: (v.sites (entryPath path k) ++ sitesOfEntries path rest)
end

def firstFault? (sites : List Site) : Option ShapeFault := sites.findSome? Site.fault?

theorem firstFault?_append (xs ys : List Site) :
    firstFault? (xs ++ ys) = (firstFault? xs).or (firstFault? ys) := List.findSome?_append

theorem firstFault?_cons (s : Site) (rest : List Site) :
    firstFault? (s :: rest) = s.fault?.or (firstFault? rest) := by
  rw [firstFault?, List.findSome?_cons]
  cases s.fault? <;> rfl

theorem Site.fault?_isSome_iff (s : Site) : s.fault?.isSome = true ↔ s.Faulty := by
  cases s with
  | number n => cases n <;> simp [fault?, Faulty]
  | key path k => cases hk : k.bare <;> simp [fault?, Faulty, hk]

theorem Site.fault?_ne_mixedKeys {s : Site} {f : ShapeFault} (h : s.fault? = some f)
    (path : String) : f ≠ .mixedKeys path := by
  rintro rfl
  cases s with
  | number n => cases n <;> cases h
  | key place k => cases hk : k.bare <;> simp [fault?, hk] at h

end Yaml

namespace Raw

open Yaml

theorem keyOfYaml_bare (path : String) (k : Yaml) : keyOfYaml path k.bare = keyOfYaml path k := by
  cases k with
  | tagged tag v => exact keyOfYaml_bare path v
  | null | bool | number | string | seq | map => rfl

theorem bare_ne_tagged (k : Yaml) (tag : String) (v : Yaml) : k.bare ≠ .tagged tag v := by
  cases k with
  | tagged t w => exact bare_ne_tagged w tag v
  | null | bool | number | string | seq | map => exact nofun

theorem faultOf?_keyOfYaml (path : String) (k : Yaml) :
    faultOf? (keyOfYaml path k) = (Site.key path k).fault? := by
  rw [← keyOfYaml_bare, Site.fault?]
  cases hk : k.bare with
  | tagged tag v => exact absurd hk (bare_ne_tagged k tag v)
  | null | bool | number | string | seq | map => rfl

theorem faultOf?_numberOfYaml (n : YamlNumber) :
    faultOf? (numberOfYaml n) = (Site.number n).fault? := by
  cases n <;> rfl

mutual
theorem faultOf?_ofYamlAt (path : String) (v : Yaml) :
    faultOf? (ofYamlAt path v) = firstFault? (v.sites path) := by
  cases v with
  | null | bool | string => rfl
  | number n =>
      rw [ofYamlAt, sites, firstFault?_cons, ← faultOf?_numberOfYaml]
      exact faultOf?_bind _ fun _ _ => rfl
  | seq items =>
      rw [ofYamlAt, sites, ← faultOf?_ofYamlItems path 0 items]
      cases ofYamlItems path 0 items <;> rfl
  | map es =>
      rw [ofYamlAt, sites, ← faultOf?_ofYamlEntries path [] es]
      cases ofYamlEntries path [] es <;> rfl
  | tagged tag v => exact faultOf?_ofYamlAt path v

theorem faultOf?_ofYamlItems (path : String) (i : Int) (items : List Yaml) :
    faultOf? (ofYamlItems path i items) = firstFault? (sitesOfItems path i items) := by
  cases items with
  | nil => rfl
  | cons v rest =>
      rw [ofYamlItems, sitesOfItems, firstFault?_append, ← faultOf?_ofYamlAt _ v,
        ← faultOf?_ofYamlItems path (i + 1) rest]
      refine faultOf?_bind _ fun r hr => ?_
      cases ofYamlItems path (i + 1) rest <;> rfl

theorem faultOf?_ofYamlEntries (path : String) (done : List (RawKey × Raw))
    (entries : List (Yaml × Yaml)) :
    faultOf? (ofYamlEntries path done entries) = firstFault? (sitesOfEntries path entries) := by
  cases entries with
  | nil => rfl
  | cons e rest =>
      obtain ⟨k, v⟩ := e
      rw [ofYamlEntries, sitesOfEntries, firstFault?_cons, firstFault?_append, ← faultOf?_keyOfYaml]
      refine faultOf?_bind _ fun key hkey => ?_
      have hpath : entryPath path k = childPath path key := by
        rw [entryPath, (keyOfYaml_eq_ok_iff path k key).mp hkey]
      rw [hpath, ← faultOf?_ofYamlAt _ v]
      refine faultOf?_bind _ fun r hr => ?_
      -- what is collected so far has no say in the faults to come
      exact faultOf?_ofYamlEntries path (put key r done) rest
end

theorem ofYaml_eq_error_iff (y : Yaml) (f : ShapeFault) :
    ofYaml y = .error f ↔ firstFault? (y.sites "$") = some f := by
  rw [← faultOf?_eq_some_iff, ofYaml, faultOf?_ofYamlAt]

theorem exists_firstFault?_iff (sites : List Site) :
    (∃ f, firstFault? sites = some f) ↔ ∃ s ∈ sites, s.Faulty := by
  rw [← Option.isSome_iff_exists, firstFault?, List.findSome?_isSome_iff]
  simp only [Site.fault?_isSome_iff]

theorem firstFault?_ne_mixedKeys {sites : List Site} {f : ShapeFault}
    (h : firstFault? sites = some f) (path : String) : f ≠ .mixedKeys path := by
  obtain ⟨s, -, hs⟩ := List.exists_of_findSome?_eq_some h
  exact Site.fault?_ne_mixedKeys hs path

/-- A value is refused exactly for a number that is not finite or a key that is a container, at any
depth and under any tags, and the first of them in document order is told. In a text such a fault
comes before all mixed keys, wherever they are. -/
theorem first_yaml_fault_told :
    (∀ (y : Yaml) (f : ShapeFault),
      ofYaml y = .error f ↔ firstFault? (y.sites "$") = some f) ∧
    (∀ y : Yaml, (∃ f, ofYaml y = .error f) ↔ ∃ s ∈ y.sites "$", s.Faulty) ∧
    (∀ (text : String) (y : Yaml), Yaml.parse text = .ok y → (∃ s ∈ y.sites "$", s.Faulty) →
      ∃ f, firstFault? (y.sites "$") = some f ∧ (∀ path, f ≠ .mixedKeys path) ∧
        Node.ofYamlText text = .error (.shape f)) := by
  refine ⟨ofYaml_eq_error_iff, fun y => ?_, fun text y hparse hfaulty => ?_⟩
  · simp only [ofYaml_eq_error_iff, exists_firstFault?_iff]
  · obtain ⟨f, hf⟩ := (exists_firstFault?_iff _).mpr hfaulty
    refine ⟨f, hf, firstFault?_ne_mixedKeys hf, ?_⟩
    have htree := (ofYaml_eq_error_iff y f).mpr hf
    simp only [Node.ofYamlText, hparse, Except.mapError, bind, Except.bind, htree]

theorem first_yaml_fault_told_infinite :
    Node.ofYamlText "- 0: a\n  b: c\n- .nan: .inf\n- .nan\n" =
      .error (.shape (.unrepresentableNumber ".inf")) := by
  let y : Yaml := .seq [.map [(.number (.int ⟨0, by decide, by decide⟩), .string "a"),
    (.string "b", .string "c")], .map [(.number .nan, .number (.infinite false))], .number .nan]
  have hevents : Yaml.events "- 0: a\n  b: c\n- .nan: .inf\n- .nan\n".toList =
      [.sequenceStart none none, .mappingStart none none, .scalar none none "0" true,
        .scalar none none "a" true, .scalar none none "b" true, .scalar none none "c" true,
        .mappingEnd, .mappingStart none none, .scalar none none ".nan" true,
        .scalar none none ".inf" true, .mappingEnd, .scalar none none ".nan" true, .sequenceEnd,
        .documentEnd, .streamEnd] := by decide +kernel
  have hparse : Yaml.parse "- 0: a\n  b: c\n- .nan: .inf\n- .nan\n" = .ok y := by
    rw [Yaml.parse, hevents]
    rfl
  have hfirst : firstFault? (y.sites "$") = some (.unrepresentableNumber ".inf") := rfl
  have hfaulty : ∃ s ∈ y.sites "$", s.Faulty := (exists_firstFault?_iff _).mp ⟨_, hfirst⟩
  obtain ⟨f, hf, -, htext⟩ := first_yaml_fault_told.2.2 _ y hparse hfaulty
  rw [hfirst] at hf
  cases hf
  exact htext

end Raw

end ConfigShape

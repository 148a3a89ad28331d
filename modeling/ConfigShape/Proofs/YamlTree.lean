import ConfigShape.Proofs.IndexText
import ConfigShape.Proofs.Lifting
import ConfigShape.Raw.Yaml

namespace ConfigShape.Raw

theorem mem_put {e : RawKey × Raw} {key : RawKey} {r : Raw} {es : List (RawKey × Raw)}
    (h : e ∈ put key r es) : e = (key, r) ∨ e ∈ es := by
  induction es with
  | nil => exact Or.inl (List.mem_singleton.mp h)
  | cons f rest ih =>
      obtain ⟨k, s⟩ := f
      simp only [put] at h
      split at h
      · rename_i hk
        subst hk
        rcases List.mem_cons.mp h with h | h
        · exact Or.inl h
        · exact Or.inr (List.mem_cons_of_mem _ h)
      · rcases List.mem_cons.mp h with rfl | h
        · exact Or.inr List.mem_cons_self
        · rcases ih h with he | he
          · exact Or.inl he
          · exact Or.inr (List.mem_cons_of_mem _ he)

theorem ofYamlItems_cons_ok_iff (path : String) (i : Int) (v : Yaml) (rest : List Yaml)
    (es : List (RawKey × Raw)) :
    ofYamlItems path i (v :: rest) = .ok es ↔
      ∃ r fs, ofYamlAt (childPath path (.index i)) v = .ok r ∧
        ofYamlItems path (i + 1) rest = .ok fs ∧ es = (.index i, r) :: fs := by
  simp only [ofYamlItems, bind_eq_ok_iff, Except.ok.injEq]
  constructor
  · rintro ⟨r, hr, fs, hs, rfl⟩
    exact ⟨r, fs, hr, hs, rfl⟩
  · rintro ⟨r, fs, hr, hs, rfl⟩
    exact ⟨r, hr, fs, hs, rfl⟩

theorem ofYamlEntries_cons_ok_iff (path : String) (done : List (RawKey × Raw)) (k v : Yaml)
    (rest : List (Yaml × Yaml)) (es : List (RawKey × Raw)) :
    ofYamlEntries path done ((k, v) :: rest) = .ok es ↔
      ∃ key r, keyOfYaml path k = .ok key ∧ ofYamlAt (childPath path key) v = .ok r ∧
        ofYamlEntries path (put key r done) rest = .ok es := by
  simp only [ofYamlEntries, bind_eq_ok_iff]
  constructor
  · rintro ⟨key, hk, r, hr, hs⟩
    exact ⟨key, r, hk, hr, hs⟩
  · rintro ⟨key, r, hk, hr, hs⟩
    exact ⟨key, hk, r, hr, hs⟩

theorem ofYamlAt_number_ok_iff (path : String) (n : YamlNumber) (r : Raw) :
    ofYamlAt path (.number n) = .ok r ↔
      ∃ m, numberOfYaml n = .ok m ∧ .scalar (.number m) = r := by
  simp only [ofYamlAt, bind_eq_ok_iff, Except.ok.injEq]

theorem ofYamlAt_seq_ok_iff (path : String) (items : List Yaml) (r : Raw) :
    ofYamlAt path (.seq items) = .ok r ↔
      ∃ es, ofYamlItems path 0 items = .ok es ∧ .container es = r := by
  simp only [ofYamlAt, bind_eq_ok_iff, Except.ok.injEq]

theorem ofYamlAt_map_ok_iff (path : String) (es : List (Yaml × Yaml)) (r : Raw) :
    ofYamlAt path (.map es) = .ok r ↔
      ∃ fs, ofYamlEntries path [] es = .ok fs ∧ .container fs = r := by
  simp only [ofYamlAt, bind_eq_ok_iff, Except.ok.injEq]

/-- The key that a value becomes, if it is not refused. Its place only matters for the refusal. -/
def keyOf? (k : Yaml) : Option RawKey := (keyOfYaml "" k).toOption

theorem keyOfYaml_eq_ok_iff (path : String) (k : Yaml) (key : RawKey) :
    keyOfYaml path k = .ok key ↔ keyOf? k = some key := by
  cases k with
  | tagged tag v => exact keyOfYaml_eq_ok_iff path v key
  | null | bool | number | string | seq | map => simp [keyOf?, keyOfYaml, Except.toOption]

theorem keyOfYaml_name {path : String} (v : Yaml) {s : String}
    (h : keyOfYaml path v = .ok (.name s)) : ¬ RawKey.IsIndexText s := by
  cases v with
  | null =>
      cases h
      exact RawKey.not_isIndexText_empty
  | bool b => cases b <;> cases h
  | number n => exact RawKey.keyOfNumber_name (Except.ok.inj h)
  | string t =>
      obtain ⟨rfl, hn⟩ := (RawKey.ofName_eq_name_iff t s).mp (Except.ok.inj h)
      exact hn
  | seq items => cases h
  | map es => cases h
  | tagged tag v => exact keyOfYaml_name v h

end ConfigShape.Raw

import ConfigShape.Proofs.WellFormed
import ConfigShape.Proofs.YamlTree
import ConfigShape.Raw.Json

namespace ConfigShape

def Number.toYaml : Number → YamlNumber
  | .int i => .int i
  | .float d => .float d

namespace Json

mutual
/-- The YAML value of the same structure. Keys become strings. -/
def toYaml : Json → Yaml
  | .null => .null
  | .bool b => .bool b
  | .number n => .number n.toYaml
  | .string s => .string s
  | .array items => .seq (toYamlItems items)
  | .object members => .map (toYamlEntries members)

def toYamlItems : List Json → List Yaml
  | [] => []
  | v :: rest => v.toYaml :: toYamlItems rest

def toYamlEntries : List (String × Json) → List (Yaml × Yaml)
  | [] => []
  | (k, v) :: rest => (.string k, v.toYaml) :: toYamlEntries rest
end

end Json

namespace Raw

theorem numberOfYaml_toYaml (n : Number) : numberOfYaml n.toYaml = .ok n := by
  cases n <;> rfl

theorem put_of_fresh {key : RawKey} {es : List (RawKey × Raw)} (h : ∀ e ∈ es, e.1 ≠ key)
    (r : Raw) : put key r es = es ++ [(key, r)] := by
  induction es with
  | nil => rfl
  | cons e rest ih =>
      obtain ⟨k, s⟩ := e
      rw [List.forall_mem_cons] at h
      rw [put, if_neg h.1, ih h.2, List.cons_append]

mutual
theorem ofYamlAt_toYaml (path : String) (v : Json) (hv : v.WellFormed) :
    ofYamlAt path v.toYaml = .ok (ofJson v) := by
  cases v with
  | null | bool | string => rfl
  | number n =>
      rw [Json.toYaml, ofYamlAt_number_ok_iff]
      exact ⟨n, numberOfYaml_toYaml n, rfl⟩
  | array items =>
      rw [Json.toYaml, ofYamlAt_seq_ok_iff]
      exact ⟨_, ofYamlItems_toYaml path 0 items hv, rfl⟩
  | object members =>
      rw [Json.toYaml, ofYamlAt_map_ok_iff]
      exact ⟨_, ofYamlEntries_toYaml path [] members hv.1 hv.2, rfl⟩

theorem ofYamlItems_toYaml (path : String) (i : Int) (items : List Json)
    (hw : Json.wellFormedItems items) :
    ofYamlItems path i (Json.toYamlItems items) = .ok (ofJsonItems i items) := by
  cases items with
  | nil => rfl
  | cons v rest =>
      rw [Json.toYamlItems, ofYamlItems_cons_ok_iff]
      exact ⟨_, _, ofYamlAt_toYaml _ v hw.1, ofYamlItems_toYaml path (i + 1) rest hw.2, rfl⟩

theorem ofYamlEntries_toYaml (path : String) (done : List (RawKey × Raw))
    (members : List (String × Json))
    (hd : (done.map (fun e => e.1.text) ++ Entries.keys members).Nodup)
    (hw : Json.wellFormedMembers members) :
    ofYamlEntries path done (Json.toYamlEntries members) = .ok (done ++ ofJsonMembers members) := by
  cases members with
  | nil => rw [Json.toYamlEntries, ofYamlEntries, ofJsonMembers, List.append_nil]
  | cons m rest =>
      obtain ⟨k, v⟩ := m
      -- texts tell keys apart, so that no entry is overwritten
      have hfresh : ∀ e ∈ done, e.1 ≠ RawKey.ofName k := by
        intro e he heq
        have htext : e.1.text = k := by rw [heq, RawKey.text_ofName]
        refine (List.nodup_append.mp hd).2.2 e.1.text (List.mem_map_of_mem he) k ?_ htext
        exact List.mem_cons_self
      have hnext : ((done ++ [(RawKey.ofName k, ofJson v)]).map (fun e => e.1.text) ++
          Entries.keys rest).Nodup := by
        rw [List.map_append, List.map_singleton, RawKey.text_ofName, List.append_assoc]
        exact hd
      rw [Json.toYamlEntries, ofYamlEntries_cons_ok_iff]
      refine ⟨_, _, rfl, ofYamlAt_toYaml _ v hw.1, ?_⟩
      rw [put_of_fresh hfresh, ofYamlEntries_toYaml path _ rest hnext hw.2, List.append_assoc]
      rfl
end

mutual
theorem mixedKeys_of_liftAt (path : String) (r : Raw) (f : ShapeFault)
    (h : liftAt path r = .error f) :
    ∃ way : List RawKey, f = .mixedKeys (way.foldl childPath path) := by
  cases r with
  | scalar s => cases h
  | container es =>
      rcases (liftAt_container_error_iff path es f).mp h with ⟨-, hf⟩ | ⟨-, hs⟩
      · exact ⟨[], hf⟩
      · exact mixedKeys_of_liftItems path es f hs

theorem mixedKeys_of_liftItems (path : String) (es : List (RawKey × Raw)) (f : ShapeFault)
    (h : liftItems path es = .error f) :
    ∃ way : List RawKey, f = .mixedKeys (way.foldl childPath path) := by
  cases es with
  | nil => cases h
  | cons e rest =>
      obtain ⟨key, r⟩ := e
      rcases (liftItems_cons_error_iff path key r rest f).mp h with hr | ⟨n, -, hs⟩
      · obtain ⟨way, hway⟩ := mixedKeys_of_liftAt (childPath path key) r f hr
        exact ⟨key :: way, hway⟩
      · exact mixedKeys_of_liftItems path rest f hs
end

/-- A JSON value and the YAML value of its structure have one tree. So they are decoded to the same
node, or refused for mixed keys at the same path. -/
theorem ofYaml_toYaml (v : Json) (hv : v.WellFormed) :
    ofYaml v.toYaml = .ok (ofJson v) ∧
    (ofYaml v.toYaml >>= lift) = lift (ofJson v) ∧
    ∀ f, lift (ofJson v) = .error f →
      ∃ way : List RawKey, f = .mixedKeys (way.foldl childPath "$") := by
  have htree : ofYaml v.toYaml = .ok (ofJson v) := ofYamlAt_toYaml "$" v hv
  refine ⟨htree, ?_, fun f => mixedKeys_of_liftAt "$" (ofJson v) f⟩
  rw [htree]
  rfl

theorem ofYaml_toYaml_padded :
    ofYaml (.map [(.string "a", .map [(.string "1", .bool true), (.string "01", .null)])]) =
      .ok (.container [(.name "a", .container [(.index 1, .scalar (.bool true)),
        (.name "01", .scalar .null)])]) ∧
    (ofYaml (.map [(.string "a", .map [(.string "1", .bool true), (.string "01", .null)])]) >>=
      lift) = .error (.mixedKeys "$.a") := by
  have hw : (Json.object [("a", .object [("1", .bool true), ("01", .null)])]).WellFormed :=
    ⟨by decide, ⟨by decide, trivial, trivial, trivial⟩, trivial⟩
  have ha : RawKey.ofName "a" = .name "a" := rfl
  have hone : RawKey.ofName "1" = .index 1 := RawKey.ofName_toString 1 (by decide)
  have hpadded : RawKey.ofName "01" = .name "01" := rfl
  have hj : ofJson (.object [("a", .object [("1", .bool true), ("01", .null)])]) =
      .container [(.name "a", .container [(.index 1, .scalar (.bool true)),
        (.name "01", .scalar .null)])] := by
    simp only [ofJson, ofJsonMembers, ha, hone, hpadded]
  obtain ⟨htree, hboth, -⟩ := ofYaml_toYaml _ hw
  rw [hj] at htree hboth
  exact ⟨htree, hboth.trans rfl⟩

end Raw

end ConfigShape

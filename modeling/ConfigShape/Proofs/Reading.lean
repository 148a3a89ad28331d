import ConfigShape.Proofs.Entries
import ConfigShape.Proofs.Lifting
import ConfigShape.Proofs.WellFormed
import ConfigShape.Profile.Reader

namespace ConfigShape

namespace Json

/-- Whatever the text, a value that is read has the property. -/
def Gives {α : Type} (P : α → Prop) (read : Reader α) : Prop :=
  ∀ s v rest, read s = .ok (v, rest) → P v

variable {α σ : Type}

theorem under_eq_ok_iff (step : Step) (x : Except Stop α) (a : α) :
    under step x = .ok a ↔ x = .ok a := by
  cases x <;> simp [under]

theorem mismatch_ne_ok (expected : String) (s : List UInt8) (a : α) :
    mismatch expected s ≠ .ok a := by
  intro h
  rw [mismatch] at h
  split at h
  · cases h
  · repeat' split at h
    all_goals
      simp only [bind_eq_ok_iff, stop, reduceCtorEq, and_false, exists_false] at h

theorem gives_listItems {I : σ → Prop} {item : Nat → σ → Reader σ}
    (hitem : ∀ i acc, I acc → Gives I (item i acc)) (fuel i : Nat) {acc : σ} (hacc : I acc) :
    Gives I (listItems item fuel i acc) := by
  intro s v rest h
  induction fuel generalizing i acc s with
  | zero => cases h
  | succ fuel ih =>
      simp only [listItems, bind_eq_ok_iff] at h
      obtain ⟨⟨more, s'⟩, -, h⟩ := h
      dsimp only at h
      split at h
      · simp only [bind_eq_ok_iff, under_eq_ok_iff] at h
        obtain ⟨⟨acc', s''⟩, hstep, h⟩ := h
        exact ih (i + 1) (hitem i acc hacc _ _ _ hstep) _ h
      · cases h
        exact hacc

theorem gives_objectMembers {I : σ → Prop} {member : String → σ → Reader σ}
    (hmember : ∀ key acc, I acc → Gives I (member key acc)) (fuel : Nat) (first : Bool) {acc : σ}
    (hacc : I acc) : Gives I (objectMembers member fuel first acc) := by
  intro s v rest h
  induction fuel generalizing first acc s with
  | zero => cases h
  | succ fuel ih =>
      simp only [objectMembers, bind_eq_ok_iff] at h
      obtain ⟨⟨more, s'⟩, -, h⟩ := h
      dsimp only at h
      split at h
      · simp only [bind_eq_ok_iff] at h
        obtain ⟨⟨key, s''⟩, -, ⟨acc', s'''⟩, hstep, h⟩ := h
        exact ih false (hmember key acc hacc _ _ _ hstep) _ h
      · cases h
        exact hacc

theorem gives_memberValue {P : α → Prop} {read : Reader α} (hread : Gives P read) (key : String) :
    Gives P (memberValue read key) := by
  intro s v rest h
  simp only [memberValue, bind_eq_ok_iff, under_eq_ok_iff] at h
  obtain ⟨s', -, h⟩ := h
  exact hread s' v rest h

def EntriesOf (P : α → Prop) (es : Entries α) : Prop := es.Distinct ∧ ∀ e ∈ es, P e.2

theorem entriesOf_nil (P : α → Prop) : EntriesOf P [] := by
  refine ⟨List.nodup_nil, ?_⟩
  simp

theorem gives_objectMember {P : α → Prop} {read : Reader α} (hread : Gives P read) (key : String)
    (members : Entries α) (hmembers : EntriesOf P members) :
    Gives (EntriesOf P) (objectMember read key members) := by
  intro s es rest h
  simp only [objectMember, bind_eq_ok_iff] at h
  obtain ⟨⟨v, s'⟩, hv, h⟩ := h
  cases h
  refine ⟨Entries.distinct_insert key v hmembers.1, fun e he => ?_⟩
  rcases Entries.mem_insert he with rfl | he
  · exact gives_memberValue hread key _ _ _ hv
  · exact hmembers.2 e he

theorem gives_object {P : α → Prop} {read : Reader α} (hread : Gives P read) (fuel : Nat) :
    Gives (EntriesOf P) (objectMembers (objectMember read) fuel true []) :=
  gives_objectMembers (gives_objectMember hread) fuel true (entriesOf_nil P)

theorem gives_objectOf {P : α → Prop} {read : Nat → Reader α} (hread : ∀ depth, Gives P (read depth))
    (depth : Nat) : Gives (EntriesOf P) (objectOf depth read) := by
  intro s es rest h
  unfold objectOf at h
  split at h
  · cases h
  · exact gives_object (hread _) _ _ _ _ h
  · exact absurd h (mismatch_ne_ok _ _ _)

theorem gives_list {P : α → Prop} {read : Reader α} (hread : Gives P read) :
    Gives (fun items => ∀ v ∈ items, P v) (list read) := by
  intro s items rest h
  simp only [list, bind_eq_ok_iff] at h
  obtain ⟨⟨reversed, s'⟩, hr, h⟩ := h
  cases h
  have hitem : ∀ i acc, (∀ v ∈ acc, P v) → Gives (fun acc => ∀ v ∈ acc, P v) (listItem read i acc) := by
    intro i acc hacc s acc' rest h
    simp only [listItem, bind_eq_ok_iff] at h
    obtain ⟨⟨v, s'⟩, hv, h⟩ := h
    cases h
    intro w hw
    rcases List.mem_cons.mp hw with rfl | hw
    · exact hread _ _ _ hv
    · exact hacc w hw
  intro v hv
  exact gives_listItems hitem _ 0 (by simp) _ _ _ hr v (List.mem_reverse.mp hv)

theorem gives_listedFields {I : σ → Prop} {fields : List (σ → Reader σ)}
    (hfields : ∀ field ∈ fields, ∀ acc, I acc → Gives I (field acc)) (i : Nat) {acc : σ}
    (hacc : I acc) : Gives I (listedFields fields i acc) := by
  intro s v rest h
  induction fields generalizing i acc s with
  | nil =>
      simp only [listedFields, bind_eq_ok_iff] at h
      obtain ⟨s', -, h⟩ := h
      cases h
      exact hacc
  | cons field fields ih =>
      simp only [listedFields, bind_eq_ok_iff] at h
      obtain ⟨⟨more, s'⟩, -, h⟩ := h
      dsimp only at h
      split at h
      · simp only [bind_eq_ok_iff, under_eq_ok_iff] at h
        obtain ⟨⟨acc', s''⟩, hstep, h⟩ := h
        have hacc' := hfields field List.mem_cons_self acc hacc _ _ _ hstep
        exact ih (fun f hf => hfields f (List.mem_cons_of_mem _ hf)) (i + 1) hacc' _ h
      · cases h
        exact hacc

theorem mem_of_lookup {β : Type} {key : String} {b : β} {es : List (String × β)}
    (h : es.lookup key = some b) : b ∈ es.map Prod.snd := by
  induction es with
  | nil => cases h
  | cons e rest ih =>
      obtain ⟨k, c⟩ := e
      rw [List.lookup_cons] at h
      split at h
      · cases h
        simp
      · exact List.mem_cons_of_mem _ (ih h)

theorem gives_namedField {I : σ → Prop} {fields : List (String × (σ → Reader σ))}
    (hfields : ∀ field ∈ fields.map Prod.snd, ∀ acc, I acc → Gives I (field acc)) (key : String)
    (state : List String × σ) (hstate : I state.2) :
    Gives (fun state => I state.2) (namedField fields key state) := by
  intro s v rest h
  rw [namedField] at h
  split at h
  · rw [keyFault] at h
    split at h <;> cases h
  · rename_i field hfield
    split at h
    · rw [keyFault] at h
      split at h <;> cases h
    · simp only [bind_eq_ok_iff] at h
      obtain ⟨⟨acc, s'⟩, hread, h⟩ := h
      cases h
      have hgives := hfields field (mem_of_lookup hfield) state.2 hstate
      exact gives_memberValue hgives key _ _ _ hread

/-- A record has a property that its default has and that each of its fields keeps. -/
theorem gives_record {I : σ → Prop} {default : σ} (hdefault : I default)
    {fields : Nat → List (String × (σ → Reader σ))}
    (hfields : ∀ depth, ∀ field ∈ (fields depth).map Prod.snd, ∀ acc, I acc → Gives I (field acc))
    (expected : String) (depth : Nat) : Gives I (record expected default fields depth) := by
  intro s v rest h
  unfold record at h
  split at h
  · cases h
  · exact gives_listedFields (hfields _) 0 hdefault _ _ _ h
  · cases h
  · rename_i depth _
    simp only [bind_eq_ok_iff] at h
    obtain ⟨⟨state, s'⟩, hread, h⟩ := h
    cases h
    have hmember := gives_namedField (hfields depth)
    exact gives_objectMembers hmember _ true hdefault _ _ _ hread
  · exact absurd h (mismatch_ne_ok _ _ _)

/-- A value that is read is a scalar, or a list or an object of values that nest less deep. -/
theorem value_cases {depth : Nat} {s rest : List UInt8} {v : Json}
    (h : value depth s = .ok (v, rest)) :
    (∃ leaf : Scalar, v = leaf.toJson) ∨
    (∃ below t items, depth = below + 1 ∧ list (value below) t = .ok (items, rest) ∧
      v = .array items) ∨
    (∃ below t members, depth = below + 1 ∧
      objectMembers (objectMember (value below)) (t.length + 1) true [] t = .ok (members, rest) ∧
      v = .object members) := by
  unfold value at h
  split at h
  · cases h
  · rename_i b t _
    repeat' split at h
    · obtain ⟨_, -, h⟩ := (bind_eq_ok_iff _ _ _).mp h
      cases h
      exact Or.inl ⟨.null, rfl⟩
    · obtain ⟨_, -, h⟩ := (bind_eq_ok_iff _ _ _).mp h
      cases h
      exact Or.inl ⟨.bool true, rfl⟩
    · obtain ⟨_, -, h⟩ := (bind_eq_ok_iff _ _ _).mp h
      cases h
      exact Or.inl ⟨.bool false, rfl⟩
    · obtain ⟨⟨n, _⟩, -, h⟩ := (bind_eq_ok_iff _ _ _).mp h
      cases h
      exact Or.inl ⟨.number n, rfl⟩
    · obtain ⟨⟨text, _⟩, -, h⟩ := (bind_eq_ok_iff _ _ _).mp h
      cases h
      exact Or.inl ⟨.string text, rfl⟩
    · cases h
    · obtain ⟨⟨items, _⟩, hi, h⟩ := (bind_eq_ok_iff _ _ _).mp h
      cases h
      exact Or.inr (Or.inl ⟨_, t, items, rfl, hi, rfl⟩)
    · cases h
    · obtain ⟨⟨members, _⟩, hm, h⟩ := (bind_eq_ok_iff _ _ _).mp h
      cases h
      exact Or.inr (Or.inr ⟨_, t, members, rfl, hm, rfl⟩)
    · cases h

theorem gives_value (depth : Nat) : Gives WellFormed (value depth) := by
  intro s v rest h
  induction depth generalizing s v rest with
  | zero =>
      rcases value_cases h with ⟨leaf, rfl⟩ | ⟨_, _, _, hd, -⟩ | ⟨_, _, _, hd, -⟩
      · cases leaf <;> trivial
      · cases hd
      · cases hd
  | succ depth ih =>
      rcases value_cases h with ⟨leaf, rfl⟩ | ⟨_, t, items, hd, hi, rfl⟩ | ⟨_, t, members, hd, hm, rfl⟩
      · cases leaf <;> trivial
      · cases hd
        exact (wellFormedItems_iff items).mpr (gives_list ih _ _ _ hi)
      · cases hd
        obtain ⟨hk, hv⟩ := gives_object ih _ _ _ _ hm
        exact ⟨hk, (wellFormedMembers_iff members).mpr hv⟩

theorem wellFormed_of_parse {text : String} {v : Json} (h : parse text = .ok v) : v.WellFormed := by
  simp only [parse, Reader.run, bind_eq_ok_iff] at h
  obtain ⟨⟨w, rest⟩, hw, h⟩ := h
  cases h
  split at hw
  · rename_i r hr
    cases hw
    simp only [document, bind_eq_ok_iff] at hr
    obtain ⟨⟨u, s⟩, hu, _, -, hr⟩ := hr
    cases hr
    exact gives_value maxDepth _ _ _ hu
  · cases hw

end Json

open Json

theorem SectionRule.gives_read (depth : Nat) :
    Gives (fun rule => rule.aliases.Distinct) (SectionRule.read depth) := by
  have hplain : SectionRule.plain.aliases.Distinct := List.nodup_nil
  refine gives_record (I := fun rule : SectionRule => rule.aliases.Distinct) hplain
    (fun depth field hfield rule hrule s made rest h => ?_) _ depth
  simp only [SectionRule.fields, List.map_cons, List.map_nil, List.mem_cons, List.not_mem_nil,
    or_false] at hfield
  rcases hfield with rfl | rfl | rfl | rfl | rfl
  · obtain ⟨_, -, h⟩ := (bind_eq_ok_iff _ _ _).mp h
    cases h
    exact hrule
  · obtain ⟨_, -, h⟩ := (bind_eq_ok_iff _ _ _).mp h
    cases h
    exact hrule
  · obtain ⟨_, -, h⟩ := (bind_eq_ok_iff _ _ _).mp h
    cases h
    exact hrule
  · obtain ⟨⟨aliases, _⟩, ha, h⟩ := (bind_eq_ok_iff _ _ _).mp h
    cases h
    have htrue : ∀ _ : Nat, Gives (fun _ => True) (expectString "a string") :=
      fun _ _ _ _ _ => trivial
    exact (gives_objectOf htrue depth _ _ _ ha).1
  · obtain ⟨_, -, h⟩ := (bind_eq_ok_iff _ _ _).mp h
    cases h
    exact hrule

namespace Profile

theorem gives_read (depth : Nat) : Gives WellFormed (Profile.read depth) := by
  have hplain : WellFormed Profile.plain := by
    refine ⟨List.nodup_nil, List.nodup_nil, ?_⟩
    simp [Profile.plain]
  refine gives_record hplain (fun depth field hfield p hp s made rest h => ?_) _ depth
  simp only [Profile.fields, List.map_cons, List.map_nil, List.mem_cons, List.not_mem_nil,
    or_false] at hfield
  rcases hfield with rfl | rfl
  · obtain ⟨⟨root, _⟩, hr, h⟩ := (bind_eq_ok_iff _ _ _).mp h
    cases h
    exact ⟨SectionRule.gives_read depth _ _ _ hr, hp.sections, hp.aliases⟩
  · obtain ⟨⟨sections, _⟩, hs, h⟩ := (bind_eq_ok_iff _ _ _).mp h
    cases h
    obtain ⟨hd, ha⟩ := gives_objectOf SectionRule.gives_read depth _ _ _ hs
    exact ⟨hp.root, hd, ha⟩

theorem check_eq_none_iff (rules : List (String × SectionRule)) :
    (check rules).2 = none ↔ ∀ e ∈ rules, lacksList e.2 = false := by
  induction rules with
  | nil => simp [check]
  | cons e rest ih =>
      obtain ⟨path, rule⟩ := e
      cases hl : lacksList rule with
      | true => simp [check, hl]
      | false => cases hp : lacksPrefix rule <;> simp [check, hl, hp, ih]

theorem accepted_of_ofBytes {bytes : List UInt8} {p : Profile} (h : ofBytes bytes = .ok p) :
    p.WellFormed ∧ ∀ e ∈ p.rules, lacksList e.2 = false := by
  rw [Profile.ofBytes] at h
  split at h
  · cases h
  · rename_i q rest hread
    split at h
    · cases h
    · rename_i hcheck
      cases h
      refine ⟨?_, (check_eq_none_iff p.rules).mp hcheck⟩
      rw [Reader.run] at hread
      split at hread
      · rename_i hr
        cases hread
        exact gives_read maxDepth _ _ _ hr
      · cases hread

theorem accepted_of_parse {text : String} {p : Profile} (h : Profile.parse text = .ok p) :
    p.WellFormed ∧ ∀ e ∈ p.rules, lacksList e.2 = false := accepted_of_ofBytes h

end Profile

end ConfigShape

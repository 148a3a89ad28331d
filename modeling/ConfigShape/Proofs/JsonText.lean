import ConfigShape.Command.Run
import ConfigShape.Proofs.JsonScalars
import ConfigShape.Proofs.ReadBack

namespace ConfigShape

namespace Node

mutual
def depth : Node → Nat
  | .scalar _ => 0
  | .seq items => depthItems items + 1
  | .map es => depthEntries es + 1

def depthItems : List Node → Nat
  | [] => 0
  | n :: rest => max n.depth (depthItems rest)

def depthEntries : List (String × Node) → Nat
  | [] => 0
  | (_, n) :: rest => max n.depth (depthEntries rest)
end

mutual
def FloatFree : Node → Prop
  | .scalar (.number (.float _)) => False
  | .scalar _ => True
  | .seq items => floatFreeItems items
  | .map es => floatFreeEntries es

def floatFreeItems : List Node → Prop
  | [] => True
  | n :: rest => n.FloatFree ∧ floatFreeItems rest

def floatFreeEntries : List (String × Node) → Prop
  | [] => True
  | (_, n) :: rest => n.FloatFree ∧ floatFreeEntries rest
end

end Node

namespace Json

open Utf8

structure Spacing.Blank (sp : Spacing) : Prop where
  line : ∀ level, ∀ b ∈ ofChars (sp.line level), isBlank b = true
  afterColon : ∀ b ∈ ofChars sp.afterColon, isBlank b = true

theorem isBlank_of_mem_nil : ∀ b ∈ ([] : List UInt8), isBlank b = true :=
  fun _ hb => absurd hb List.not_mem_nil

theorem isBlank_of_mem_singleton {c : Char} {byte : UInt8} (hc : ofChars [c] = [byte])
    (hb : isBlank byte = true) : ∀ b ∈ ofChars [c], isBlank b = true := by
  intro b h
  rw [hc, List.mem_singleton] at h
  rw [h]
  exact hb

theorem compact_blank : compact.Blank where
  line := fun _ => isBlank_of_mem_nil
  afterColon := isBlank_of_mem_nil

theorem indented_blank : indented.Blank where
  line := by
    intro level b hb
    obtain ⟨c, hc, hb⟩ := List.mem_flatMap.mp hb
    rcases List.mem_cons.mp hc with rfl | hc
    · exact isBlank_of_mem_singleton (c := '\n') rfl rfl b hb
    · rw [List.eq_of_mem_replicate hc] at hb
      exact isBlank_of_mem_singleton (c := ' ') rfl rfl b hb
  afterColon := isBlank_of_mem_singleton rfl rfl

/-- After these bytes the reader goes on with an item, whatever byte that begins with. -/
def LeadsToItem (first : Bool) (before : List UInt8) : Prop :=
  ∀ b s, isBlank b = false → b ≠ 93 → nextItem first (before ++ b :: s) = .ok (true, b :: s)

section Steps

variable {bs : List UInt8} (hbs : ∀ b ∈ bs, isBlank b = true)

include hbs

theorem skipBlank_append (s : List UInt8) : skipBlank (bs ++ s) = skipBlank s :=
  List.dropWhile_append_of_pos hbs

theorem skipBlank_append_cons {b : UInt8} (hb : isBlank b = false) (s : List UInt8) :
    skipBlank (bs ++ b :: s) = b :: s := by
  have hstop : ¬ isBlank b = true := by
    rw [hb]
    exact Bool.false_ne_true
  rw [skipBlank_append hbs, skipBlank, List.dropWhile_cons_of_neg hstop]

theorem leadsToItem_first : LeadsToItem true bs := by
  intro b s hb hclose
  simp [nextItem, skipBlank_append_cons hbs hb]

theorem leadsToItem_comma : LeadsToItem false (44 :: bs) := by
  intro b s hb hclose
  have hcomma : skipBlank (44 :: (bs ++ b :: s)) = 44 :: (bs ++ b :: s) := rfl
  simp [nextItem, hcomma, skipBlank_append_cons hbs hb, hclose]

theorem nextItem_close (first : Bool) (s : List UInt8) :
    nextItem first (bs ++ 93 :: s) = .ok (false, s) := by
  simp [nextItem, skipBlank_append_cons hbs (b := 93) rfl]

theorem nextKey_first (s : List UInt8) : nextKey true (bs ++ 34 :: s) = .ok (true, s) := by
  simp [nextKey, skipBlank_append_cons hbs (b := 34) rfl]

theorem nextKey_comma (s : List UInt8) : nextKey false (44 :: (bs ++ 34 :: s)) = .ok (true, s) := by
  have hcomma : skipBlank (44 :: (bs ++ 34 :: s)) = 44 :: (bs ++ 34 :: s) := rfl
  simp [nextKey, hcomma, skipBlank_append_cons hbs (b := 34) rfl]

theorem nextKey_close (first : Bool) (s : List UInt8) :
    nextKey first (bs ++ 125 :: s) = .ok (false, s) := by
  simp [nextKey, skipBlank_append_cons hbs (b := 125) rfl]

theorem value_append (limit : Nat) (s : List UInt8) : value limit (bs ++ s) = value limit s := by
  rw [value, value, skipBlank_append hbs]

theorem numberEnds_append {s : List UInt8} (hs : NumberEnds s) : NumberEnds (bs ++ s) := by
  cases bs with
  | nil => exact hs
  | cons b bs =>
      have hb := hbs b List.mem_cons_self
      simp only [isBlank, Bool.or_eq_true, beq_iff_eq] at hb
      rcases hb with ((rfl | rfl) | rfl) | rfl <;> exact ⟨rfl, by decide, by decide, by decide⟩

end Steps

theorem listItems_item {α : Type} {value : Reader α} {i fuel : Nat} {items : List α} {v : α}
    {s t u : List UInt8} (hnext : nextItem (i == 0) s = .ok (true, t))
    (hvalue : value t = .ok (v, u)) :
    listItems (listItem value) (fuel + 1) i items s =
      listItems (listItem value) fuel (i + 1) (v :: items) u := by
  simp [listItems, hnext, listItem, hvalue, bind, Except.bind, under]

theorem listItems_close {α : Type} {value : Reader α} {i fuel : Nat} {items : List α}
    {s t : List UInt8} (hnext : nextItem (i == 0) s = .ok (false, t)) :
    listItems (listItem value) (fuel + 1) i items s = .ok (items, t) := by
  simp [listItems, hnext, bind, Except.bind]

theorem objectMembers_member {α : Type} {value : Reader α} {first : Bool} {fuel : Nat}
    {members : Entries α} {key : String} {v : α} {s t u w : List UInt8}
    (hnext : nextKey first s = .ok (true, t)) (hkey : quoted t = .ok (key, 58 :: u))
    (hvalue : value u = .ok (v, w)) :
    objectMembers (objectMember value) (fuel + 1) first members s =
      objectMembers (objectMember value) fuel false (Entries.insert key v members) w := by
  have hcolon : colon (58 :: u) = .ok u := rfl
  simp [objectMembers, hnext, hkey, objectMember, memberValue, hcolon, hvalue, bind, Except.bind,
    under]

theorem objectMembers_close {α : Type} {value : Reader α} {first : Bool} {fuel : Nat}
    {members : Entries α} {s t : List UInt8} (hnext : nextKey first s = .ok (false, t)) :
    objectMembers (objectMember value) (fuel + 1) first members s = .ok (members, t) := by
  simp [objectMembers, hnext, bind, Except.bind, under]

theorem begins_number {b : UInt8} (hb : b = 45 ∨ isDigit b = true) :
    b ≠ 110 ∧ b ≠ 116 ∧ b ≠ 102 ∧ isBlank b = false := by
  have hcode : 45 ≤ b.toNat ∧ b.toNat ≤ 57 := by
    rcases hb with rfl | hb
    · decide
    · simp only [isDigit, Bool.and_eq_true, decide_eq_true_eq, UInt8.le_iff_toNat_le] at hb
      exact ⟨Nat.le_trans (by decide) hb.1, hb.2⟩
  have hne (d : UInt8) (hd : d.toNat < 45 ∨ 57 < d.toNat) : b ≠ d := by
    rintro rfl
    omega
  refine ⟨hne 110 (by decide), hne 116 (by decide), hne 102 (by decide), ?_⟩
  simp [isBlank, hne 32 (by decide), hne 10 (by decide), hne 9 (by decide), hne 13 (by decide)]

theorem value_numeral {b : UInt8} (hb : b = 45 ∨ isDigit b = true) {n : Number}
    {s rest : List UInt8} (h : numeral (b :: s) = .ok (n, rest)) (limit : Nat) :
    value limit (b :: s) = .ok (.number n, rest) := by
  obtain ⟨hnull, htrue, hfalse, hblank⟩ := begins_number hb
  have hstart : skipBlank (b :: s) = b :: s :=
    skipBlank_append_cons isBlank_of_mem_nil hblank s
  have hnumber : (decide (b = 45) || isDigit b) = true := by simpa using hb
  rw [value, hstart]
  simp only [hnull, htrue, hfalse, hnumber, h, bind, Except.bind, if_false, if_true]

theorem value_quoted {s rest : List UInt8} {text : String} (h : quoted s = .ok (text, rest))
    (limit : Nat) : value limit (34 :: s) = .ok (.string text, rest) := by
  have hstart : skipBlank (34 :: s) = 34 :: s := rfl
  have hnumber : isDigit 34 = false := rfl
  simp [value, hstart, hnumber, h, bind, Except.bind]

theorem value_array {limit : Nat} {s rest : List UInt8} {items : List Json}
    (h : listItems (listItem (value limit)) (s.length + 1) 0 [] s = .ok (items.reverse, rest)) :
    value (limit + 1) (91 :: s) = .ok (.array items, rest) := by
  have hstart : skipBlank (91 :: s) = 91 :: s := rfl
  have hnumber : isDigit 91 = false := rfl
  simp [value, hstart, hnumber, list, h, bind, Except.bind]

theorem value_object {limit : Nat} {s rest : List UInt8} {members : Entries Json}
    (h : objectMembers (objectMember (value limit)) (s.length + 1) true [] s =
      .ok (members, rest)) :
    value (limit + 1) (123 :: s) = .ok (.object members, rest) := by
  have hstart : skipBlank (123 :: s) = 123 :: s := rfl
  have hnumber : isDigit 123 = false := rfl
  simp [value, hstart, hnumber, h, bind, Except.bind]

end Json

namespace Node

open Json Utf8

variable {sp : Spacing} (hsp : sp.Blank)

/-- What a node is written as begins neither with a blank nor with the end of a list. -/
theorem write_eq_cons (sp : Spacing) (n : Node) (hf : n.FloatFree) (level : Nat) :
    ∃ b s, ofChars (n.write sp level) = b :: s ∧ isBlank b = false ∧ b ≠ 93 := by
  cases n with
  | scalar s =>
      cases s with
      | null => exact ⟨_, _, rfl, rfl, by decide⟩
      | bool b => cases b <;> exact ⟨_, _, rfl, rfl, by decide⟩
      | number m =>
          cases m with
          | int i =>
              have hends : NumberEnds [] := trivial
              obtain ⟨b, s, he, hb, -⟩ := numeral_integer hends i
              refine ⟨b, s, he, (begins_number hb).2.2.2, ?_⟩
              rintro rfl
              rcases hb with hb | hb <;> cases hb
          | float d => cases hf
      | string s => exact ⟨_, _, rfl, rfl, by decide⟩
  | seq items => cases items <;> exact ⟨_, _, rfl, rfl, by decide⟩
  | map es => cases es <;> exact ⟨_, _, rfl, rfl, by decide⟩

theorem ofChars_write_seq (sp : Spacing) (level : Nat) (n : Node) (items : List Node) :
    ofChars ((Node.seq (n :: items)).write sp level) = 91 :: (ofChars (sp.line (level + 1)) ++
      (ofChars (n.write sp (level + 1)) ++ ofChars (writeItems sp level items))) := by
  simp only [write, ofChars_append, ofChars_cons, List.append_assoc]
  rfl

theorem ofChars_writeItems_nil (sp : Spacing) (level : Nat) :
    ofChars (writeItems sp level []) = ofChars (sp.line level) ++ [93] := by
  rw [writeItems, ofChars_append]
  rfl

theorem ofChars_writeItems_cons (sp : Spacing) (level : Nat) (n : Node) (items : List Node) :
    ofChars (writeItems sp level (n :: items)) = 44 :: (ofChars (sp.line (level + 1)) ++
      (ofChars (n.write sp (level + 1)) ++ ofChars (writeItems sp level items))) := by
  simp only [writeItems, ofChars_append, ofChars_cons, List.append_assoc]
  rfl

theorem ofChars_write_map (sp : Spacing) (level : Nat) (k : String) (n : Node)
    (es : List (String × Node)) :
    ofChars ((Node.map ((k, n) :: es)).write sp level) = 123 :: (ofChars (sp.line (level + 1)) ++
      34 :: (afterQuote k ++ 58 :: (ofChars sp.afterColon ++
        (ofChars (n.write sp (level + 1)) ++ ofChars (writeEntries sp level es))))) := by
  simp only [write, ofChars_quote, ofChars_append, ofChars_cons, List.cons_append,
    List.append_assoc]
  rfl

theorem ofChars_writeEntries_nil (sp : Spacing) (level : Nat) :
    ofChars (writeEntries sp level []) = ofChars (sp.line level) ++ [125] := by
  rw [writeEntries, ofChars_append]
  rfl

theorem ofChars_writeEntries_cons (sp : Spacing) (level : Nat) (k : String) (n : Node)
    (es : List (String × Node)) :
    ofChars (writeEntries sp level ((k, n) :: es)) = 44 :: (ofChars (sp.line (level + 1)) ++
      34 :: (afterQuote k ++ 58 :: (ofChars sp.afterColon ++
        (ofChars (n.write sp (level + 1)) ++ ofChars (writeEntries sp level es))))) := by
  simp only [writeEntries, ofChars_quote, ofChars_append, ofChars_cons, List.cons_append,
    List.append_assoc]
  rfl

theorem value_scalar {s : Scalar} (hf : (Node.scalar s).FloatFree) (limit : Nat)
    {rest : List UInt8} (hrest : NumberEnds rest) :
    value limit (ofChars s.chars ++ rest) = .ok (s.toJson, rest) := by
  cases s with
  | null =>
      rw [value]
      rfl
  | bool b =>
      cases b <;> rw [value] <;> rfl
  | number m =>
      cases m with
      | int i =>
          obtain ⟨b, s, he, hb, hread⟩ := numeral_integer hrest i
          change value limit (ofChars (toString i.val).toList ++ rest) = _
          rw [he]
          exact value_numeral hb hread limit
      | float d => cases hf
  | string s =>
      have hchars : ofChars (Scalar.string s).chars = 34 :: afterQuote s := ofChars_quote s
      rw [hchars]
      exact value_quoted (quoted_afterQuote s rest) limit

theorem listItems_write {value : Reader Json} {i fuel level : Nat} {items : List Json} {n : Node}
    (hf : n.FloatFree) {before s : List UInt8}
    (hlead : LeadsToItem (i == 0) before)
    (hvalue : value (ofChars (n.write sp level) ++ s) = .ok (n.toJson, s)) :
    listItems (listItem value) (fuel + 1) i items (before ++ (ofChars (n.write sp level) ++ s)) =
      listItems (listItem value) fuel (i + 1) (n.toJson :: items) s := by
  obtain ⟨b, t, he, hblank, hclose⟩ := write_eq_cons sp n hf level
  rw [he, List.cons_append] at hvalue ⊢
  exact listItems_item (hlead b (t ++ s) hblank hclose) hvalue

include hsp

theorem numberEnds_writeItems (level : Nat) (items : List Node) (rest : List UInt8) :
    NumberEnds (ofChars (writeItems sp level items) ++ rest) := by
  cases items with
  | nil =>
      rw [ofChars_writeItems_nil, List.append_assoc]
      exact numberEnds_append (hsp.line level) ⟨rfl, by decide, by decide, by decide⟩
  | cons n items =>
      rw [ofChars_writeItems_cons]
      exact ⟨rfl, by decide, by decide, by decide⟩

theorem numberEnds_writeEntries (level : Nat) (es : List (String × Node)) (rest : List UInt8) :
    NumberEnds (ofChars (writeEntries sp level es) ++ rest) := by
  cases es with
  | nil =>
      rw [ofChars_writeEntries_nil, List.append_assoc]
      exact numberEnds_append (hsp.line level) ⟨rfl, by decide, by decide, by decide⟩
  | cons e es =>
      rw [ofChars_writeEntries_cons]
      exact ⟨rfl, by decide, by decide, by decide⟩

theorem objectMembers_write {limit fuel : Nat} {first : Bool} {members : Entries Json} {k : String}
    {v : Json} {s t u : List UInt8}
    (hnext : nextKey first s = .ok (true, afterQuote k ++ 58 :: (ofChars sp.afterColon ++ t)))
    (hvalue : value limit t = .ok (v, u)) :
    objectMembers (objectMember (value limit)) (fuel + 1) first members s =
      objectMembers (objectMember (value limit)) fuel false (Entries.insert k v members) u :=
  objectMembers_member hnext (quoted_afterQuote k _)
    ((value_append hsp.afterColon limit t).trans hvalue)

mutual
/-- What follows a node matters only where it could go on with a number. -/
theorem value_write (n : Node) (hf : n.FloatFree) (hw : n.WellFormed) {limit : Nat}
    (hd : n.depth ≤ limit) (level : Nat) {rest : List UInt8} (hrest : NumberEnds rest) :
    value limit (ofChars (n.write sp level) ++ rest) = .ok (n.toJson, rest) := by
  cases n with
  | scalar s => exact value_scalar hf limit hrest
  | seq items =>
      cases limit with
      | zero => cases hd
      | succ limit =>
          have hlimit : depthItems items ≤ limit := Nat.le_of_succ_le_succ hd
          cases items with
          | nil =>
              have hclose := nextItem_close isBlank_of_mem_nil true rest
              exact value_array (listItems_close hclose)
          | cons n items =>
              have hends := numberEnds_writeItems hsp level items rest
              have hvalue := value_write n hf.1 hw.1 (Nat.le_trans (Nat.le_max_left _ _) hlimit)
                (level + 1) hends
              rw [ofChars_write_seq]
              simp only [List.cons_append, List.append_assoc]
              refine value_array ?_
              rw [listItems_write (i := 0) hf.1 (leadsToItem_first (hsp.line (level + 1))) hvalue,
                listItems_writeItems items hf.2 hw.2 (Nat.le_trans (Nat.le_max_right _ _) hlimit)
                  level rest]
              · simp [toJsonItems]
              · simp only [List.length_append]
                omega
  | map es =>
      cases limit with
      | zero => cases hd
      | succ limit =>
          have hlimit : depthEntries es ≤ limit := Nat.le_of_succ_le_succ hd
          cases es with
          | nil =>
              have hclose := nextKey_close isBlank_of_mem_nil true rest
              exact value_object (objectMembers_close hclose)
          | cons e es =>
              obtain ⟨k, n⟩ := e
              have hends := numberEnds_writeEntries hsp level es rest
              have hvalue := value_write n hf.1 hw.2.1 (Nat.le_trans (Nat.le_max_left _ _) hlimit)
                (level + 1) hends
              rw [ofChars_write_map]
              simp only [List.cons_append, List.append_assoc]
              refine value_object ?_
              rw [objectMembers_write hsp (nextKey_first (hsp.line (level + 1)) _) hvalue,
                objectMembers_writeEntries es hf.2 hw.2.2
                  (Nat.le_trans (Nat.le_max_right _ _) hlimit) level rest]
              · -- no key comes again, so that every member goes last
                have hdistinct := (WellFormed.toJson hw).1
                exact congrArg (fun ms => Except.ok (ms, rest))
                  (Entries.ofList_of_distinct hdistinct)
              · simp only [List.length_append, List.length_cons]
                omega

theorem listItems_writeItems (items : List Node) (hf : floatFreeItems items)
    (hw : wellFormedItems items) {limit : Nat} (hd : depthItems items ≤ limit) (level : Nat)
    (rest : List UInt8) (i fuel : Nat) (done : List Json)
    (hfuel : (ofChars (writeItems sp level items) ++ rest).length ≤ fuel) :
    listItems (listItem (value limit)) fuel (i + 1) done
      (ofChars (writeItems sp level items) ++ rest) =
      .ok ((toJsonItems items).reverse ++ done, rest) := by
  cases items with
  | nil =>
      rw [ofChars_writeItems_nil, List.append_assoc] at hfuel ⊢
      cases fuel with
      | zero => simp at hfuel
      | succ fuel => exact listItems_close (nextItem_close (hsp.line level) false rest)
  | cons n items =>
      have hends := numberEnds_writeItems hsp level items rest
      have hvalue := value_write n hf.1 hw.1 (Nat.le_trans (Nat.le_max_left _ _) hd) (level + 1)
        hends
      rw [ofChars_writeItems_cons, ← List.cons_append, List.append_assoc,
        List.append_assoc] at hfuel ⊢
      cases fuel with
      | zero => simp at hfuel
      | succ fuel =>
          rw [listItems_write (i := i + 1) hf.1 (leadsToItem_comma (hsp.line (level + 1))) hvalue,
            listItems_writeItems items hf.2 hw.2 (Nat.le_trans (Nat.le_max_right _ _) hd) level
              rest]
          · simp [toJsonItems]
          · -- every item takes the byte of a comma, so that the fuel lasts
            simp only [List.length_append, List.length_cons] at hfuel ⊢
            omega

theorem objectMembers_writeEntries (es : List (String × Node)) (hf : floatFreeEntries es)
    (hw : wellFormedEntries es) {limit : Nat} (hd : depthEntries es ≤ limit) (level : Nat)
    (rest : List UInt8) (fuel : Nat) (done : Entries Json)
    (hfuel : (ofChars (writeEntries sp level es) ++ rest).length ≤ fuel) :
    objectMembers (objectMember (value limit)) fuel false done
      (ofChars (writeEntries sp level es) ++ rest) =
      .ok (Entries.extend done (toJsonMembers es), rest) := by
  cases es with
  | nil =>
      rw [ofChars_writeEntries_nil, List.append_assoc] at hfuel ⊢
      cases fuel with
      | zero => simp at hfuel
      | succ fuel => exact objectMembers_close (nextKey_close (hsp.line level) false rest)
  | cons e es =>
      obtain ⟨k, n⟩ := e
      have hends := numberEnds_writeEntries hsp level es rest
      have hvalue := value_write n hf.1 hw.1 (Nat.le_trans (Nat.le_max_left _ _) hd) (level + 1)
        hends
      rw [ofChars_writeEntries_cons] at hfuel ⊢
      simp only [List.cons_append, List.append_assoc] at hfuel ⊢
      cases fuel with
      | zero => simp at hfuel
      | succ fuel =>
          rw [objectMembers_write hsp (nextKey_comma (hsp.line (level + 1)) _) hvalue,
            objectMembers_writeEntries es hf.2 hw.2 (Nat.le_trans (Nat.le_max_right _ _) hd) level
              rest]
          · rfl
          · simp only [List.length_append, List.length_cons] at hfuel ⊢
            omega
end

theorem parse_write {n : Node} (hf : n.FloatFree) (hw : n.WellFormed) (hd : n.depth ≤ maxDepth)
    {after : List Char} (hafter : ∀ b ∈ ofChars after, isBlank b = true) :
    Json.parse (String.ofList (n.write sp 0 ++ after)) = .ok n.toJson := by
  have hends : NumberEnds (ofChars after) := by
    have h := numberEnds_append hafter (s := []) trivial
    rwa [List.append_nil] at h
  have hblank : skipBlank (ofChars after) = [] := by
    have h := skipBlank_append hafter []
    rwa [List.append_nil] at h
  have hvalue := value_write hsp n hf hw hd 0 hends
  have hdocument : document (ofChars (n.write sp 0) ++ ofChars after) =
      .ok (n.toJson, ofChars after) := by
    simp only [document, hvalue, atEnd, hblank, bind, Except.bind]
  rw [Json.parse, encode_ofList, ofChars_append, Reader.run, hdocument]
  rfl

theorem ofJsonText_write {n : Node} (hc : n.Canonical) (hw : n.WellFormed) (hf : n.FloatFree)
    (hd : n.depth ≤ maxDepth) {after : List Char}
    (hafter : ∀ b ∈ ofChars after, isBlank b = true) :
    ofJsonText (String.ofList (n.write sp 0 ++ after)) = .ok n := by
  rw [ofJsonText, parse_write hsp hf hw hd hafter]
  simp only [Except.mapError, bind, Except.bind, Raw.lift_ofJson_toJson hc hw]

omit hsp

/-- A canonical node of integers that nests no deeper than the reader goes is read back from its
text, and from what a run writes for it, to a file or with the line ended. -/
theorem ofJsonText_text {n : Node} (hc : n.Canonical) (hw : n.WellFormed) (hf : n.FloatFree)
    (hd : n.depth ≤ 127) :
    ofJsonText n.text = .ok n ∧ ofJsonText (OutputFormat.json.render n) = .ok n ∧
      ofJsonText (OutputFormat.json.render n ++ "\n") = .ok n := by
  have hnone : ∀ b ∈ ofChars [], isBlank b = true := isBlank_of_mem_nil
  have hline : ∀ b ∈ ofChars ['\n'], isBlank b = true := isBlank_of_mem_singleton rfl rfl
  have htext := ofJsonText_write compact_blank hc hw hf hd hnone
  have hfile := ofJsonText_write indented_blank hc hw hf hd hnone
  have hout := ofJsonText_write indented_blank hc hw hf hd hline
  rw [List.append_nil] at htext hfile
  rw [String.ofList_append] at hout
  exact ⟨htext, hfile, hout⟩

theorem ofJsonText_text_odd_strings :
    ofJsonText
        "\x7b\"\\\"\\\\\x7fé\":[-9223372036854775808,18446744073709551615,\"\\u0001😀\"]\x7d" =
      .ok (.map [("\"\\\x7fé", .seq [
        .scalar (.number (.int ⟨-9223372036854775808, by decide, by decide⟩)),
        .scalar (.number (.int ⟨18446744073709551615, by decide, by decide⟩)),
        .string "\x01😀"])]) := by
  let n : Node := .map [("\"\\\x7fé", .seq [
    .scalar (.number (.int ⟨-9223372036854775808, by decide, by decide⟩)),
    .scalar (.number (.int ⟨18446744073709551615, by decide, by decide⟩)),
    .string "\x01😀"])]
  have hkey : ¬ RawKey.IsIndexText "\"\\\x7fé" :=
    RawKey.not_isIndexText_of_mem (c := '"') (by decide) (by decide) (by decide)
  have hc : n.Canonical := ⟨by simp, hkey, ⟨trivial, trivial, trivial, trivial⟩, trivial⟩
  have hw : n.WellFormed := ⟨by decide, ⟨trivial, trivial, trivial, trivial⟩, trivial⟩
  have hf : n.FloatFree := ⟨⟨trivial, trivial, trivial, trivial⟩, trivial⟩
  have htext := (ofJsonText_text hc hw hf (by decide)).1
  exact htext

end Node

end ConfigShape

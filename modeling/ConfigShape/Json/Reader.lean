import ConfigShape.Json.Basic
import ConfigShape.Json.Fault
import ConfigShape.Text.Utf8

namespace ConfigShape.Json

def isBlank (b : UInt8) : Bool := b == 32 || b == 10 || b == 9 || b == 13

def isDigit (b : UInt8) : Bool := 48 ≤ b && b ≤ 57

def skipBlank (s : List UInt8) : List UInt8 := s.dropWhile isBlank

def word : List UInt8 → List UInt8 → Except Stop (List UInt8)
  | [], s => .ok s
  | _ :: _, [] => stop .endInValue []
  | w :: ws, b :: s => if b = w then word ws s else stop .expectedIdent s

def hexDigit? (b : UInt8) : Option Nat :=
  if 48 ≤ b && b ≤ 57 then some (b.toNat - 48)
  else if 97 ≤ b && b ≤ 102 then some (b.toNat - 87)
  else if 65 ≤ b && b ≤ 70 then some (b.toNat - 55)
  else none

def hexQuad : Reader Nat
  | a :: b :: c :: d :: s =>
    match hexDigit? a, hexDigit? b, hexDigit? c, hexDigit? d with
    | some a, some b, some c, some d => .ok (((a * 16 + b) * 16 + c) * 16 + d, s)
    | _, _, _, _ => stop .invalidEscape s
  | _ => stop .endInString []

def bytesOfCode (n : Nat) : List UInt8 := String.utf8EncodeChar (Char.ofNat n)

def lowSurrogate (high : Nat) : Reader (List UInt8)
  | [] => stop .endInString []
  | 92 :: s =>
    match s with
    | [] => stop .endInString []
    | 117 :: s => do
      let (low, s) ← hexQuad s
      if 0xDC00 ≤ low && low ≤ 0xDFFF then
        .ok (bytesOfCode ((high - 0xD800) * 1024 + (low - 0xDC00) + 0x10000), s)
      else stop .loneSurrogate s
    | _ :: s => stop .endOfEscape s
  | _ :: s => stop .endOfEscape s

def unicodeEscape : Reader (List UInt8) := fun s => do
  let (n, s) ← hexQuad s
  if 0xDC00 ≤ n && n ≤ 0xDFFF then stop .loneSurrogate s
  else if 0xD800 ≤ n && n ≤ 0xDBFF then lowSurrogate n s
  else .ok (bytesOfCode n, s)

def escape : Reader (List UInt8)
  | [] => stop .endInString []
  | b :: s =>
    if b = 34 || b = 92 || b = 47 then .ok ([b], s)
    else if b = 98 then .ok ([8], s)
    else if b = 102 then .ok ([12], s)
    else if b = 110 then .ok ([10], s)
    else if b = 114 then .ok ([13], s)
    else if b = 116 then .ok ([9], s)
    else if b = 117 then unicodeEscape s
    else stop .invalidEscape s

/-- The bytes of a string up to its closing quote. The fuel is at least the bytes left. -/
def stringBytes : Nat → Reader (List UInt8)
  | 0, s => stop .endInString s
  | _ + 1, [] => stop .endInString []
  | fuel + 1, b :: s =>
    if b = 34 then .ok ([], s)
    else if b = 92 then do
      let (bytes, s) ← escape s
      let (more, s) ← stringBytes fuel s
      .ok (bytes ++ more, s)
    else if b < 32 then stop .controlCharacter s
    else do
      let (more, s) ← stringBytes fuel s
      .ok (b :: more, s)

def quoted : Reader String := fun s => do
  let (bytes, rest) ← stringBytes s.length s
  match Utf8.decode? bytes with
  | some text => .ok (text, rest)
  | none =>
    let raw := s.take (s.length - rest.length - 1)
    .error ⟨.invalidCodePoint, s.length - Utf8.validLength raw - 1, []⟩

/-- Takes digits while the number they form fits 64 bits. Gives the number, the count of digits
taken, and the rest. -/
def digitsWithin (n count : Nat) : List UInt8 → Nat × Nat × List UInt8
  | [] => (n, count, [])
  | b :: s =>
    if isDigit b && n * 10 + (b.toNat - 48) < UInt64.size then
      digitsWithin (n * 10 + (b.toNat - 48)) (count + 1) s
    else (n, count, b :: s)

def powerOfTen? (exp : Nat) : Option Double :=
  if exp ≤ 308 then Double.ofNat? (Nat.pow 10 exp) else none

/-- `f * 10 ^ exp` for digits `f` of at most 64 bits, by one multiplication or division with a
power of ten. Exponents below -308 take a division by the greatest power first, and below -616
nothing is left. None on overflow. -/
def scaleByTen? (f : Double) (exp : Int) : Option Double :=
  if f.isZero then some f
  else if 0 ≤ exp then (powerOfTen? exp.natAbs).bind f.mul?
  else if -308 ≤ exp then (powerOfTen? exp.natAbs).bind f.div?
  else if -616 ≤ exp then do
    let g ← (powerOfTen? 308).bind f.div?
    (powerOfTen? (exp + 308).natAbs).bind g.div?
  else some (Double.zero false)

def float (negative : Bool) (digits : Nat) (exp : Int) : Reader Number := fun s =>
  match (Double.ofNat? digits).bind (scaleByTen? · exp) with
  | some d => .ok (.float (if negative then d.neg else d), s)
  | none => stop .numberOutOfRange s

/-- The digits of an exponent after the first one. None when they pass 31 bits; then the last
digit read is the one too many. -/
def exponentDigits (n : Nat) : List UInt8 → Option Nat × List UInt8
  | [] => (some n, [])
  | b :: s =>
    if isDigit b then
      if n * 10 + (b.toNat - 48) < 0x8000_0000 then exponentDigits (n * 10 + (b.toNat - 48)) s
      else (none, s)
    else (some n, b :: s)

def exponent (negative : Bool) (digits : Nat) (base : Int) : Reader Number := fun s =>
  let (down, s) := match s with
    | 43 :: s => (false, s)
    | 45 :: s => (true, s)
    | s => (false, s)
  match s with
  | [] => stop .endInValue []
  | b :: s =>
    if isDigit b then
      match exponentDigits (b.toNat - 48) s with
      | (some n, s) => float negative digits (if down then base - n else base + n) s
      | (none, s) =>
        if digits ≠ 0 && !down then stop .numberOutOfRange s
        else .ok (.float (Double.zero negative), s.dropWhile isDigit)
    else stop .invalidNumber s

def afterDigits (negative : Bool) (digits : Nat) (exp : Int) : Reader Number
  | b :: s => if b = 101 || b = 69 then exponent negative digits exp s
    else float negative digits exp (b :: s)
  | [] => float negative digits exp []

/-- The fraction after the point. Digits that no longer fit 64 bits are dropped. -/
def fraction (negative : Bool) (digits : Nat) (base : Int) : Reader Number := fun s =>
  let (n, count, rest) := digitsWithin digits 0 s
  let exp := base - (count : Int)
  match rest with
  | b :: _ =>
    if isDigit b then afterDigits negative n exp (rest.dropWhile isDigit)
    else if count = 0 then stopAhead .invalidNumber rest
    else afterDigits negative n exp rest
  | [] => if count = 0 then stopAhead .endInValue [] else afterDigits negative n exp []

def wholeNumber (negative : Bool) (digits : Nat) : Number :=
  if negative then
    if digits = 0 then .float (Double.zero true) else Number.ofInt (-(digits : Int))
  else Number.ofInt digits

def afterWhole (negative : Bool) (digits : Nat) : Reader Number
  | b :: s =>
    if b = 46 then fraction negative digits 0 s
    else if b = 101 || b = 69 then exponent negative digits 0 s
    else .ok (wholeNumber negative digits, b :: s)
  | [] => .ok (wholeNumber negative digits, [])

def longWhole (negative : Bool) (digits : Nat) : Reader Number := fun s =>
  let count := (s.takeWhile isDigit).length
  match s.dropWhile isDigit with
  | 46 :: rest => fraction negative digits count rest
  | rest => afterDigits negative digits count rest

def unsignedNumber (negative : Bool) : Reader Number
  | [] => stop .endInValue []
  | 48 :: s =>
    match s with
    | b :: _ => if isDigit b then stopAhead .invalidNumber s else afterWhole negative 0 s
    | [] => afterWhole negative 0 []
  | b :: s =>
    if isDigit b then
      let (n, _, rest) := digitsWithin (b.toNat - 48) 0 s
      match rest with
      | c :: _ => if isDigit c then longWhole negative n rest else afterWhole negative n rest
      | [] => afterWhole negative n []
    else stop .invalidNumber s

def numeral : Reader Number
  | 45 :: s => unsignedNumber true s
  | s => unsignedNumber false s

def nextItem (first : Bool) : Reader Bool := fun s =>
  match skipBlank s with
  | [] => stopAhead .endInList []
  | 93 :: s => .ok (false, s)
  | b :: s =>
    if first then .ok (true, b :: s)
    else if b = 44 then
      match skipBlank s with
      | [] => stopAhead .endInValue []
      | 93 :: s => stop .trailingComma s
      | s => .ok (true, s)
    else stop .expectedCommaOrBracket s

def nextKey (first : Bool) : Reader Bool := fun s =>
  match skipBlank s with
  | [] => stopAhead .endInObject []
  | 125 :: s => .ok (false, s)
  | b :: s =>
    if first then if b = 34 then .ok (true, s) else stop .keyNotString s
    else if b = 44 then
      match skipBlank s with
      | [] => stopAhead .endInValue []
      | 34 :: s => .ok (true, s)
      | 125 :: s => stop .trailingComma s
      | _ :: s => stop .keyNotString s
    else stop .expectedCommaOrBrace s

def colon (s : List UInt8) : Except Stop (List UInt8) :=
  match skipBlank s with
  | [] => stopAhead .endInObject []
  | 58 :: s => .ok s
  | _ :: s => stop .expectedColon s

/-- The items of a list, after its bracket. Each is read by `item`, which is given its place and
what came of those before. The fuel is more than the bytes left. -/
def listItems {σ : Type} (item : Nat → σ → Reader σ) : Nat → Nat → σ → Reader σ
  | 0, _, _, s => stop .endInList s
  | fuel + 1, i, acc, s => do
    let (more, s) ← nextItem (i == 0) s
    if more then
      let (acc, s) ← under (.item i) (item i acc s)
      listItems item fuel (i + 1) acc s
    else .ok (acc, s)

def objectMembers {σ : Type} (member : String → σ → Reader σ) : Nat → Bool → σ → Reader σ
  | 0, _, _, s => stop .endInObject s
  | fuel + 1, first, acc, s => do
    let (more, s) ← under .unknown (nextKey first s)
    if more then
      let (key, s) ← under .unknown (quoted s)
      let (acc, s) ← member key acc s
      objectMembers member fuel false acc s
    else .ok (acc, s)

def memberValue {α : Type} (value : Reader α) (key : String) : Reader α := fun s => do
  let s ← colon s
  under (.name key) (value s)

def listItem {α : Type} (value : Reader α) (_ : Nat) (items : List α) : Reader (List α) := fun s => do
  let (v, s) ← value s
  .ok (v :: items, s)

def list {α : Type} (value : Reader α) : Reader (List α) := fun s => do
  let (items, s) ← listItems (listItem value) (s.length + 1) 0 [] s
  .ok (items.reverse, s)

/-- A key that comes again keeps its place and takes the later value. -/
def objectMember {α : Type} (value : Reader α) (key : String) (members : Entries α) :
    Reader (Entries α) := fun s => do
  let (v, s) ← memberValue value key s
  .ok (Entries.insert key v members, s)

def value : Nat → Reader Json
  | depth, s =>
    match skipBlank s with
    | [] => stopAhead .endInValue []
    | b :: s =>
      if b = 110 then do .ok (.null, ← word "ull".toUTF8.data.toList s)
      else if b = 116 then do .ok (.bool true, ← word "rue".toUTF8.data.toList s)
      else if b = 102 then do .ok (.bool false, ← word "alse".toUTF8.data.toList s)
      else if b = 45 || isDigit b then do
        let (n, s) ← numeral (b :: s)
        .ok (.number n, s)
      else if b = 34 then do
        let (text, s) ← quoted s
        .ok (.string text, s)
      else if b = 91 then
        match depth with
        | 0 => stop .tooDeep s
        | depth + 1 => do
          let (items, s) ← list (value depth) s
          .ok (.array items, s)
      else if b = 123 then
        match depth with
        | 0 => stop .tooDeep s
        | depth + 1 => do
          let (members, s) ← objectMembers (objectMember (value depth)) (s.length + 1) true [] s
          .ok (.object members, s)
      else stop .expectedValue s

def maxDepth : Nat := 127

def atEnd (s : List UInt8) : Except Stop Unit :=
  match skipBlank s with
  | [] => .ok ()
  | _ :: s => stop .trailingCharacters s

def Reader.run {α : Type} (read : Reader α) (bytes : List UInt8) : Except Error (α × List UInt8) :=
  match read bytes with
  | .ok r => .ok r
  | .error e => .error (e.locate bytes)

def document : Reader Json := fun s => do
  let (v, s) ← value maxDepth s
  atEnd s
  .ok (v, s)

def parse (text : String) : Except Error Json := do
  let (v, _) ← document.run (Utf8.encode text)
  .ok v

end ConfigShape.Json

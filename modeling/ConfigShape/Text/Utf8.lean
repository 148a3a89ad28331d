namespace ConfigShape.Utf8

def encode (s : String) : List UInt8 := s.toUTF8.data.toList

def decode? (bytes : List UInt8) : Option String := String.fromUTF8? bytes.toByteArray

theorem decode?_encode (s : String) : decode? (encode s) = some s := by
  have h : (encode s).toByteArray = s.toUTF8 := by
    apply ByteArray.ext
    simp [encode]
  rw [decode?, h]
  simp only [String.fromUTF8?]
  split
  · rfl
  · rename_i hv
    exact absurd s.isValidUTF8 hv

def wholeFrom (bytes : ByteArray) : Nat → Nat → Nat
  | 0, _ => 0
  | fuel + 1, start =>
    match ByteArray.utf8DecodeChar? bytes start with
    | some c => c.utf8Size + wholeFrom bytes fuel (start + c.utf8Size)
    | none => 0

def validLength (bytes : List UInt8) : Nat := wholeFrom bytes.toByteArray bytes.length 0

end ConfigShape.Utf8

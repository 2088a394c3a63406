/-! # Bytes shown as text

Bytes that are no UTF-8 are shown with a replacement character for each longest part that could have
begun a character.
-/
namespace AbiFacts.Text

def replacement : Char := '\uFFFD'

private def within (least greatest byte : UInt8) : Bool := least ≤ byte && byte ≤ greatest

private def continuation (byte : UInt8) : Bool := within 0x80 0xBF byte

/-- Is this the first continuation byte after such a leading byte of three or four? -/
private def follows (leading byte : UInt8) : Bool :=
  if leading = 0xE0 then within 0xA0 0xBF byte
  else if leading = 0xED then within 0x80 0x9F byte
  else if leading = 0xF0 then within 0x90 0xBF byte
  else if leading = 0xF4 then within 0x80 0x8F byte
  else continuation byte

private def join (bits : Nat) (bytes : List UInt8) : Char :=
  Char.ofNat (bytes.foldl (fun value byte => value * 64 + byte.toNat % 64) bits)

/-- How many continuation bytes a leading byte calls for, and the bits that it carries itself. -/
private def lead? (byte : UInt8) : Option (Nat × Nat) :=
  if byte < 0x80 then some (0, byte.toNat)
  else if within 0xC2 0xDF byte then some (1, byte.toNat % 32)
  else if within 0xE0 0xEF byte then some (2, byte.toNat % 16)
  else if within 0xF0 0xF4 byte then some (3, byte.toNat % 8)
  else none

/-- The bytes after a leading byte that go on with its character, at most `count` of them. -/
private def continued (leading : UInt8) (count : Nat) (rest : List UInt8) : List UInt8 :=
  match rest.take count with
  | [] => []
  | byte :: more => if follows leading byte then byte :: more.takeWhile continuation else []

private def charFrom (leading : UInt8) (rest : List UInt8) : Char × Nat :=
  match lead? leading with
  | none => (replacement, 0)
  | some (count, bits) =>
    let bytes := continued leading count rest
    (if bytes.length = count then join bits bytes else replacement, bytes.length)

private def lossyWithin : Nat → List UInt8 → List Char
  | 0, _ | _, [] => []
  | fuel + 1, leading :: rest =>
    let (c, used) := charFrom leading rest
    c :: lossyWithin fuel (rest.drop used)

def lossyChars (bytes : List UInt8) : List Char :=
  lossyWithin bytes.length bytes

def ofBytes? (bytes : List UInt8) : Option String :=
  String.fromUTF8? ⟨bytes.toArray⟩

def toBytes (text : String) : List UInt8 :=
  text.toByteArray.data.toList

@[simp] theorem ofBytes?_toBytes (text : String) : ofBytes? (toBytes text) = some text := by
  simp [ofBytes?, toBytes, String.fromUTF8?, String.fromUTF8, text.isValidUTF8]

/-- Each text has one sequence of bytes. -/
theorem ofBytes?_eq_some_iff {bytes : List UInt8} {text : String} :
    ofBytes? bytes = some text ↔ bytes = toBytes text := by
  constructor
  · intro h
    unfold ofBytes? String.fromUTF8? at h
    split at h
    · cases h
      rfl
    · cases h
  · rintro rfl
    exact ofBytes?_toBytes text

/-- The text of a byte sequence, with replacements where it is no UTF-8. -/
def lossy (bytes : List UInt8) : String :=
  (ofBytes? bytes).getD (String.ofList (lossyChars bytes))

end AbiFacts.Text

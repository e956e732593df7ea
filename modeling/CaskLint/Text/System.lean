/-!
# Strings of the operating system

  Arguments and paths are strings of bytes. As a rule they are the UTF-8 form of a text, but a
  system does not ask for that.

* **`SystemString`** — a text, or bytes that are the form of no text. So each string of bytes is
  there once (`SystemString.ofBytes_toBytes`, `SystemString.toBytes_ofBytes`).
* **`showBytes`** — bytes made readable: the characters among them, and a replacement character
  for each run of bytes that begins a character and breaks off, or that begins none.
* **`SystemString.display`** — a string of the system in a message.
-/

namespace CaskLint

/-! ## Strings -/

/-- What the operating system takes for a string. -/
inductive SystemString where
  | text (s : String)
  /-- Bytes that are not the UTF-8 form of a text. -/
  | bytes (content : ByteArray) (invalid : ¬ content.IsValidUTF8)

instance : DecidableEq SystemString
  | .text s, .text t =>
    decidable_of_iff (s = t) ⟨congrArg SystemString.text, SystemString.text.inj⟩
  | .text _, .bytes .. => isFalse nofun
  | .bytes .., .text _ => isFalse nofun
  | .bytes b _, .bytes c _ =>
    decidable_of_iff (b.data = c.data)
      ⟨fun h => by obtain rfl := ByteArray.ext h; rfl,
        fun h => congrArg ByteArray.data (SystemString.bytes.inj h)⟩

instance : Coe String SystemString := ⟨.text⟩

namespace SystemString

/-- The bytes of the string. -/
def toBytes : SystemString → ByteArray
  | .text s => s.toUTF8
  | .bytes content _ => content

/-- The string with these bytes. -/
def ofBytes (content : ByteArray) : SystemString :=
  if valid : content.IsValidUTF8 then .text (String.fromUTF8 content valid)
  else .bytes content valid

theorem toBytes_ofBytes (content : ByteArray) : (ofBytes content).toBytes = content := by
  rw [ofBytes]
  split <;> rfl

theorem ofBytes_toBytes (t : SystemString) : ofBytes t.toBytes = t := by
  cases t with
  | text s => exact dif_pos s.isValidUTF8
  | bytes content invalid => exact dif_neg invalid

/-- Whether the string is a text. -/
def isText : SystemString → Bool
  | .text _ => true
  | .bytes .. => false

theorem isText_iff {t : SystemString} : t.isText = true ↔ ∃ s, t = .text s := by
  cases t with
  | text s => exact ⟨fun _ => ⟨s, rfl⟩, fun _ => rfl⟩
  | bytes content invalid =>
      constructor
      · intro h
        exact nomatch h
      · rintro ⟨s, h⟩
        exact nomatch h

/-- Whether the string is empty; the empty string is a text. -/
def isEmpty : SystemString → Bool
  | .text s => s.isEmpty
  | .bytes .. => false

/-- The string with a text after it. -/
def append : SystemString → String → SystemString
  | .text s, more => .text (s ++ more)
  | .bytes content _, more => .ofBytes (content ++ more.toUTF8)

/-- Whether the last byte is that of a slash. -/
def endsInSlash : SystemString → Bool
  | .text s => s.toList.getLast? == some '/'
  | .bytes content _ => content.data.back? == some '/'.toUInt8

/-- What comes after a text, if the string begins with it. -/
def dropPrefix? (start : String) : SystemString → Option SystemString
  | .text s =>
    if start.toList.isPrefixOf s.toList then
      some (.text (String.ofList (s.toList.drop start.toList.length)))
    else none
  | .bytes content _ =>
    let first := start.toUTF8.data.toList
    if first.isPrefixOf content.data.toList then
      some (.ofBytes ⟨(content.data.toList.drop first.length).toArray⟩)
    else none

end SystemString

/-! ## Bytes made readable -/

/-- How many more bytes a character has that begins with this byte, if one does. -/
def bytesAfter? (first : UInt8) : Option Nat :=
  if first ≤ 0x7F then some 0
  else if 0xC2 ≤ first ∧ first ≤ 0xDF then some 1
  else if 0xE0 ≤ first ∧ first ≤ 0xEF then some 2
  else if 0xF0 ≤ first ∧ first ≤ 0xF4 then some 3
  else none

/-- The least and the greatest byte after this first one. Other bytes would make a character that
    has a shorter form, or a number that is no character. -/
def secondBounds (first : UInt8) : UInt8 × UInt8 :=
  if first = 0xE0 then (0xA0, 0xBF)
  else if first = 0xED then (0x80, 0x9F)
  else if first = 0xF0 then (0x90, 0xBF)
  else if first = 0xF4 then (0x80, 0x8F)
  else (0x80, 0xBF)

/-- The bytes that go on with a character of which so many are missing; the next one has to be
    within bounds. -/
def continuing (low high : UInt8) : Nat → List UInt8 → List UInt8
  | missing + 1, b :: bs =>
    if low ≤ b ∧ b ≤ high then b :: continuing 0x80 0xBF missing bs else []
  | _, _ => []

/-- The character of these bytes: the first one marks how many there are, and every further one
    holds six bits. -/
def characterOf (first : UInt8) : List UInt8 → Char
  | [] => Char.ofNat first.toNat
  | more@(_ :: _) =>
    Char.ofNat (more.foldl (fun n b => n * 64 + b.toNat % 64)
      (first.toNat % Nat.pow 2 (6 - more.length)))

/-- The character that stands for bytes which are none. -/
def replacementCharacter : Char := '\ufffd'

/-- The characters among some bytes, with a replacement for what is no character. -/
def showBytes : List UInt8 → List Char
  | [] => []
  | first :: rest =>
    match bytesAfter? first with
    | none => replacementCharacter :: showBytes rest
    | some missing =>
      let more := continuing (secondBounds first).1 (secondBounds first).2 missing rest
      (if more.length = missing then characterOf first more else replacementCharacter) ::
        showBytes (rest.drop more.length)
termination_by bytes => bytes.length

/-- The string in a message. -/
def SystemString.display : SystemString → String
  | .text s => s
  | .bytes content _ => String.ofList (showBytes content.data.toList)

end CaskLint

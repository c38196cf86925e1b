import ReplEngine.Text.Utf8
set_option autoImplicit false

/-!
# The binary layout of class files and archives

Numbers have a fixed width and come lowest byte first.  Lengths take eight bytes, a choice among
variants four.  A text is its length in bytes and its UTF-8 form, a list its length and its
elements, an optional value a byte 0, or a byte 1 and the value.  Nothing is padded and nothing
marks the end, so what follows a value is left for the next reader.
-/

namespace ReplEngine.Binary

/-- A string of bytes. -/
abbrev Bytes : Type := List UInt8

/-! ## Refusals -/

/-- Why bytes could not be read. -/
inductive DecodeError where
  /-- The bytes end inside a number. -/
  | endOfInput
  /-- The bytes end inside a text. -/
  | endOfText
  | notUtf8 (error : Text.Utf8.Error)
  /-- Neither 0 nor 1 stands where an optional value starts. -/
  | optionTag (found : UInt8)
  /-- Neither 0 nor 1 stands where a truth value should. -/
  | boolByte (found : UInt8)
  /-- There are only `count` variants. -/
  | variant (found count : Nat)
  deriving DecidableEq, Repr, Inhabited

/-- The wording of a refusal. -/
def DecodeError.message : DecodeError → String
  | endOfInput => "io error: unexpected end of file"
  | endOfText => "io error: "
  | notUtf8 error => "string is not valid utf8: " ++ error.message
  | optionTag found => s!"tag for enum is not valid, found {found.toNat}"
  | boolByte found =>
    s!"invalid u8 while decoding bool, expected 0 or 1, found {found.toNat}"
  | variant found count =>
    s!"invalid value: integer \x60{found}\x60, expected variant index 0 <= i < {count}"

/-! ## Writing -/

/-- The lowest `width` bytes of a number, lowest first. -/
def putFixed : Nat → Nat → Bytes
  | 0, _ => []
  | width + 1, n => UInt8.ofNat (n % 256) :: putFixed width (n / 256)

/-- A word. -/
def putWord (n : UInt32) : Bytes := putFixed 4 n.toNat

/-- A length. -/
def putLength (n : Nat) : Bytes := putFixed 8 n

/-- The choice of a variant. -/
def putVariant (index : Nat) : Bytes := putFixed 4 index

/-- A text. -/
def putText (s : String) : Bytes :=
  let bytes := Text.Utf8.encode s.toList
  putLength bytes.length ++ bytes

/-- A truth value. -/
def putBool (b : Bool) : Bytes := [if b then 1 else 0]

/-- An optional value. -/
def putOption {α : Type} (put : α → Bytes) : Option α → Bytes
  | none => [0]
  | some a => 1 :: put a

/-- A list. -/
def putList {α : Type} (put : α → Bytes) (as : List α) : Bytes :=
  putLength as.length ++ as.flatMap put

/-! ## Reading -/

/-- Reads a value off the front of some bytes and leaves the rest. -/
abbrev Get (α : Type) : Type := StateT Bytes (Except DecodeError) α

/-- Refuses. -/
def refuse {α : Type} (e : DecodeError) : Get α := fun _ => .error e

/-- One byte. -/
def getByte : Get UInt8
  | [] => .error .endOfInput
  | b :: bs => .ok (b, bs)

/-- A number of `width` bytes. -/
def getFixed : Nat → Get Nat
  | 0 => pure 0
  | width + 1 => do
    let low ← getByte
    let high ← getFixed width
    pure (low.toNat + 256 * high)

/-- A word. -/
def getWord : Get UInt32 := UInt32.ofNat <$> getFixed 4

/-- A length. -/
def getLength : Get Nat := getFixed 8

/-- A variant out of `count`. -/
def getVariant (count : Nat) : Get Nat := do
  let index ← getFixed 4
  if index < count then pure index else refuse (.variant index count)

/-- So many bytes of a text. -/
def getRaw (length : Nat) : Get Bytes := fun bytes =>
  if length ≤ bytes.length then .ok (bytes.take length, bytes.drop length)
  else .error .endOfText

/-- A text. -/
def getText : Get String := do
  let raw ← getRaw (← getLength)
  match Text.Utf8.decode raw with
  | .ok cs => pure (String.ofList cs)
  | .error e => refuse (.notUtf8 e)

/-- A truth value. -/
def getBool : Get Bool := do
  let b ← getByte
  if b = 0 then pure false
  else if b = 1 then pure true
  else refuse (.boolByte b)

/-- An optional value. -/
def getOption {α : Type} (get : Get α) : Get (Option α) := do
  let tag ← getByte
  if tag = 0 then pure none
  else if tag = 1 then some <$> get
  else refuse (.optionTag tag)

/-- So many values. -/
def getMany {α : Type} (get : Get α) : Nat → Get (List α)
  | 0 => pure []
  | n + 1 => do
    let a ← get
    return a :: (← getMany get n)

/-- A list. -/
def getList {α : Type} (get : Get α) : Get (List α) := do getMany get (← getLength)

/-- Reads a value off the front of some bytes; what follows it is ignored. -/
def decode {α : Type} (get : Get α) (bytes : Bytes) : Except DecodeError α :=
  (get.run bytes).map Prod.fst

end ReplEngine.Binary

set_option autoImplicit false

/-!
# UTF-8

Writing characters as bytes, and reading bytes that may not be UTF-8.  A refusal says where the
first bad sequence starts and how many of its bytes rule it out, or that the bytes end inside a
character.
-/

namespace ReplEngine.Text.Utf8

/-- The bytes of a text. -/
def encode (cs : List Char) : List UInt8 := cs.flatMap String.utf8EncodeChar

/-- What is wrong with the bytes at some index. -/
inductive Fault where
  /-- So many bytes start no character. -/
  | invalid (length : Nat)
  /-- The bytes end inside a character. -/
  | truncated
  deriving DecidableEq, Repr, Inhabited

/-- Why bytes are not UTF-8. -/
structure Error where
  /-- The bytes before this index are UTF-8. -/
  index : Nat
  fault : Fault
  deriving DecidableEq, Repr, Inhabited

/-- The wording of a refusal. -/
def Error.message (e : Error) : String :=
  match e.fault with
  | .invalid length =>
    s!"invalid utf-8 sequence of {length} bytes from index {e.index}"
  | .truncated => s!"incomplete utf-8 byte sequence from index {e.index}"

/-- A byte that continues a character. -/
def isTail (b : UInt8) : Bool := 0x80 ≤ b && b ≤ 0xBF

/-- A byte that may stand second behind the lead byte of a three-byte character. -/
def isSecondOf3 (lead b : UInt8) : Bool :=
  if lead = 0xE0 then 0xA0 ≤ b && b ≤ 0xBF
  else if lead = 0xED then 0x80 ≤ b && b ≤ 0x9F
  else isTail b

/-- A byte that may stand second behind the lead byte of a four-byte character. -/
def isSecondOf4 (lead b : UInt8) : Bool :=
  if lead = 0xF0 then 0x90 ≤ b && b ≤ 0xBF
  else if lead = 0xF4 then 0x80 ≤ b && b ≤ 0x8F
  else isTail b

/-- The low six bits of a tail byte. -/
def tailBits (b : UInt8) : Nat := b.toNat % 64

/-- Reads bytes whose first one has the given index. -/
def decodeFrom (index : Nat) : List UInt8 → Except Error (List Char)
  | [] => .ok []
  | a :: as =>
    if a < 0x80 then (Char.ofNat a.toNat :: ·) <$> decodeFrom (index + 1) as
    else if 0xC2 ≤ a ∧ a ≤ 0xDF then
      match as with
      | [] => .error ⟨index, .truncated⟩
      | b :: bs =>
        if isTail b then
          (Char.ofNat (a.toNat % 32 * 64 + tailBits b) :: ·) <$> decodeFrom (index + 2) bs
        else .error ⟨index, .invalid 1⟩
    else if 0xE0 ≤ a ∧ a ≤ 0xEF then
      match as with
      | [] => .error ⟨index, .truncated⟩
      | b :: bs =>
        if isSecondOf3 a b then
          match bs with
          | [] => .error ⟨index, .truncated⟩
          | c :: cs =>
            if isTail c then
              (Char.ofNat (a.toNat % 16 * 4096 + tailBits b * 64 + tailBits c) :: ·) <$>
                decodeFrom (index + 3) cs
            else .error ⟨index, .invalid 2⟩
        else .error ⟨index, .invalid 1⟩
    else if 0xF0 ≤ a ∧ a ≤ 0xF4 then
      match as with
      | [] => .error ⟨index, .truncated⟩
      | b :: bs =>
        if isSecondOf4 a b then
          match bs with
          | [] => .error ⟨index, .truncated⟩
          | c :: cs =>
            if isTail c then
              match cs with
              | [] => .error ⟨index, .truncated⟩
              | d :: ds =>
                if isTail d then
                  (Char.ofNat (a.toNat % 8 * 262144 + tailBits b * 4096 + tailBits c * 64
                    + tailBits d) :: ·) <$> decodeFrom (index + 4) ds
                else .error ⟨index, .invalid 3⟩
            else .error ⟨index, .invalid 2⟩
        else .error ⟨index, .invalid 1⟩
    else .error ⟨index, .invalid 1⟩

/-- Reads bytes as text. -/
def decode (bytes : List UInt8) : Except Error (List Char) := decodeFrom 0 bytes

end ReplEngine.Text.Utf8

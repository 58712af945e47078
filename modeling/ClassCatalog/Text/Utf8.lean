import ClassCatalog.Bytes

/-!
# UTF-8

Strings as bytes and back. Reading names the first fault: how many bytes before it were well formed
and whether the text breaks off there or goes wrong, and then how many bytes are to blame, namely
those that could still have begun a character.
-/

namespace ClassCatalog.Utf8

def encode (s : String) : Bytes := s.toList.flatMap String.utf8EncodeChar

/-- Where a byte string stops being UTF-8. -/
inductive Fault where
  /-- The bytes end inside a character that starts after `valid` bytes. -/
  | incomplete (valid : Nat)
  /-- After `valid` bytes come `length` that begin no character. -/
  | invalid (valid length : Nat)
  deriving DecidableEq, Repr

def isContinuation (b : UInt8) : Bool := 0x80 ≤ b && b ≤ 0xBF

/-- Which second bytes the first byte of a three-byte character admits: no long forms, no
surrogates. -/
def secondOfThree (a b : UInt8) : Bool :=
  if a = 0xE0 then 0xA0 ≤ b && b ≤ 0xBF
  else if a = 0xED then 0x80 ≤ b && b ≤ 0x9F
  else isContinuation b

/-- Which second bytes the first byte of a four-byte character admits: no long forms, nothing above
the last code point. -/
def secondOfFour (a b : UInt8) : Bool :=
  if a = 0xF0 then 0x90 ≤ b && b ≤ 0xBF
  else if a = 0xF4 then 0x80 ≤ b && b ≤ 0x8F
  else isContinuation b

/-- The low six bits of a continuation byte. -/
def payload (b : UInt8) : Nat := b.toNat % 64

/-- The characters of a byte string, `valid` bytes of which came before. -/
def decodeFrom (valid : Nat) : Bytes → Except Fault (List Char)
  | [] => .ok []
  | a :: rest =>
    if a < 0x80 then
      (decodeFrom (valid + 1) rest).map (Char.ofNat a.toNat :: ·)
    else if 0xC2 ≤ a ∧ a ≤ 0xDF then
      match rest with
      | [] => .error (.incomplete valid)
      | b :: rest =>
        if isContinuation b then
          (decodeFrom (valid + 2) rest).map (Char.ofNat (a.toNat % 32 * 64 + payload b) :: ·)
        else .error (.invalid valid 1)
    else if 0xE0 ≤ a ∧ a ≤ 0xEF then
      match rest with
      | [] => .error (.incomplete valid)
      | b :: rest =>
        if secondOfThree a b then
          match rest with
          | [] => .error (.incomplete valid)
          | c :: rest =>
            if isContinuation c then
              (decodeFrom (valid + 3) rest).map
                (Char.ofNat ((a.toNat % 16 * 64 + payload b) * 64 + payload c) :: ·)
            else .error (.invalid valid 2)
        else .error (.invalid valid 1)
    else if 0xF0 ≤ a ∧ a ≤ 0xF4 then
      match rest with
      | [] => .error (.incomplete valid)
      | b :: rest =>
        if secondOfFour a b then
          match rest with
          | [] => .error (.incomplete valid)
          | c :: rest =>
            if isContinuation c then
              match rest with
              | [] => .error (.incomplete valid)
              | d :: rest =>
                if isContinuation d then
                  (decodeFrom (valid + 4) rest).map
                    (Char.ofNat
                      (((a.toNat % 8 * 64 + payload b) * 64 + payload c) * 64 + payload d) :: ·)
                else .error (.invalid valid 3)
            else .error (.invalid valid 2)
        else .error (.invalid valid 1)
    else .error (.invalid valid 1)

/-- The string that a byte string spells, or its first fault. -/
def decode (bytes : Bytes) : Except Fault String := (decodeFrom 0 bytes).map String.ofList

/-- The string that a byte string spells, if it is UTF-8. -/
def decode? (bytes : Bytes) : Option String := (decode bytes).toOption

/-- Stands for bytes that begin no character. -/
def replacement : Char := '\uFFFD'

/-- The characters of a byte string of at most `limit` bytes, every fault replaced. -/
def decodeLossyFrom : (limit : Nat) → Bytes → List Char
  | 0, _ => []
  | limit + 1, bytes =>
    let start (valid : Nat) := ((decodeFrom 0 (bytes.take valid)).toOption).getD []
    match decodeFrom 0 bytes with
    | .ok chars => chars
    | .error (.incomplete valid) => start valid ++ [replacement]
    | .error (.invalid valid length) =>
      start valid ++ replacement :: decodeLossyFrom limit (bytes.drop (valid + length))

/-- The string that a byte string spells, with a replacement for what begins no character. -/
def decodeLossy (bytes : Bytes) : String :=
  String.ofList (decodeLossyFrom (bytes.length + 1) bytes)

/-- How long a character is that starts with this byte; 0 when none does. -/
def charWidth (a : UInt8) : Nat :=
  if a < 0x80 then 1
  else if 0xC2 ≤ a ∧ a ≤ 0xDF then 2
  else if 0xE0 ≤ a ∧ a ≤ 0xEF then 3
  else if 0xF0 ≤ a ∧ a ≤ 0xF4 then 4
  else 0

end ClassCatalog.Utf8

import ClassCatalog.Text.Utf8

/-!
# Modified UTF-8

The string form of class files: every UTF-16 unit is written by itself in one to three bytes, and
the unit zero in two, so that no zero byte occurs. Reading never fails: a byte that begins no
sequence, or whose sequence is cut off by the end, becomes the replacement unit, and so does a
surrogate without its partner.
-/

namespace ClassCatalog

namespace Utf16

/-- The units of one character: itself, or a pair of surrogates above the basic plane. -/
def encodeChar (c : Char) : List UInt16 :=
  if c.toNat < 0x10000 then [UInt16.ofNat c.toNat]
  else
    [UInt16.ofNat (0xD800 + (c.toNat - 0x10000) / 1024),
      UInt16.ofNat (0xDC00 + (c.toNat - 0x10000) % 1024)]

/-- The units of a text. -/
def encode (text : List Char) : List UInt16 := text.flatMap encodeChar

/-- Whether a unit is the first half of a pair. -/
def isHigh (u : UInt16) : Bool := 0xD800 ≤ u && u ≤ 0xDBFF

/-- Whether a unit is the second half of a pair. -/
def isLow (u : UInt16) : Bool := 0xDC00 ≤ u && u ≤ 0xDFFF

/-- The character that a pair of surrogates stands for. -/
def ofPair (high low : UInt16) : Char :=
  Char.ofNat (0x10000 + (high.toNat - 0xD800) * 1024 + (low.toNat - 0xDC00))

/-- Stands for what is no character. -/
def replacement : Char := Char.ofNat 0xFFFD

/-- The characters of a list of units; each surrogate without its partner is replaced. -/
def decodeLossy : List UInt16 → List Char
  | [] => []
  | u :: rest =>
    if isHigh u then
      match rest with
      | [] => [replacement]
      | v :: rest' =>
        if isLow v then ofPair u v :: decodeLossy rest'
        else replacement :: decodeLossy (v :: rest')
    else if isLow u then replacement :: decodeLossy rest
    else Char.ofNat u.toNat :: decodeLossy rest

end Utf16

namespace ModifiedUtf8

/-- The bytes of one unit. -/
def encodeUnit (u : UInt16) : Bytes :=
  if 0x0001 ≤ u ∧ u ≤ 0x007F then [u.toUInt8]
  else if u ≤ 0x07FF then [(u >>> 6).toUInt8 ||| 0xC0, (u &&& 0x3F).toUInt8 ||| 0x80]
  else
    [(u >>> 12).toUInt8 ||| 0xE0, ((u >>> 6) &&& 0x3F).toUInt8 ||| 0x80,
      (u &&& 0x3F).toUInt8 ||| 0x80]

/-- The modified form of a string. -/
def encode (s : String) : Bytes := (Utf16.encode s.toList).flatMap encodeUnit

def low6 (b : UInt8) : UInt16 := (b &&& 0x3F).toUInt16

/-- The units of a byte string, taken one, two or three bytes at a time. -/
def decodeUnits : Bytes → List UInt16
  | [] => []
  | a :: rest =>
    if a &&& 0x80 = 0 then a.toUInt16 :: decodeUnits rest
    else if a &&& 0xE0 = 0xC0 then
      match rest with
      | [] => [0xFFFD]
      | b :: rest' => (((a &&& 0x1F).toUInt16 <<< 6) ||| low6 b) :: decodeUnits rest'
    else if a &&& 0xF0 = 0xE0 then
      match rest with
      | [] => [0xFFFD]
      | [b] => 0xFFFD :: decodeUnits [b]
      | b :: c :: rest' =>
        (((a &&& 0x0F).toUInt16 <<< 12) ||| (low6 b <<< 6) ||| low6 c) :: decodeUnits rest'
    else 0xFFFD :: decodeUnits rest

/-- Reads a byte string unit by unit. -/
def decodeByUnits (bytes : Bytes) : String :=
  String.ofList (Utf16.decodeLossy (decodeUnits bytes))

/-- Reads a byte string; plain UTF-8 without the lead byte of the surrogates is taken as it is. -/
def decode (bytes : Bytes) : String :=
  match Utf8.decode bytes with
  | .ok s => if bytes.contains 0xED then decodeByUnits bytes else s
  | .error _ => decodeByUnits bytes

end ModifiedUtf8

end ClassCatalog

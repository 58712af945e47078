import ClassCatalog.Bytes

/-!
# CRC-32

The remainder of a byte string by the polynomial `0x04C11DB7`, bits taken from the least significant
one on, with the initial and the final value inverted.
-/

namespace ClassCatalog.Crc32

/-- The polynomial, its bits reversed. -/
def polynomial : UInt32 := 0xEDB88320

def shift (r : UInt32) : UInt32 := if r &&& 1 = 1 then (r >>> 1) ^^^ polynomial else r >>> 1

def shifts : Nat → UInt32 → UInt32
  | 0, r => r
  | n + 1, r => shifts n (shift r)

def take (r : UInt32) (b : UInt8) : UInt32 := shifts 8 (r ^^^ b.toUInt32)

def checksum (bytes : Bytes) : UInt32 := bytes.foldl take 0xFFFFFFFF ^^^ 0xFFFFFFFF

end ClassCatalog.Crc32

import ClassCatalog.Bytes

/-!
# Faults of a class file

Each constructor is one cause for which reading a class file stops, and `message` its wording.
-/

namespace ClassCatalog.ClassFile

/-- Why the bytes of a class file cannot be read on. -/
inductive ParseError where
  /-- The bytes end before what was to be read at `offset`. -/
  | unexpectedEof (offset : Nat)
  | invalidMagic (found : UInt32)
  | unsupportedVersion (major minor : UInt16)
  | unsupportedConstant (tag : UInt8) (index : Nat)
  | invalidConstantIndex (index : UInt16)
  | invalidDescriptor (text : String)
  | invalidAttribute (name reason : String)
  | nestingTooDeep (limit : Nat)
  /-- The class names no superclass and needs one. -/
  | missingSuperclass (name : String)
  deriving DecidableEq, Repr

namespace ParseError

def message : ParseError → String
  | unexpectedEof offset => "unexpected end of class file at offset " ++ toString offset
  | invalidMagic found =>
    "invalid class file magic header 0x" ++ Bytes.hex (Bytes.bigEndian 4 found.toNat)
  | unsupportedVersion major minor =>
    "unsupported class file version " ++ toString major.toNat ++ "." ++ toString minor.toNat
  | unsupportedConstant tag index =>
    "unsupported constant pool tag " ++ toString tag.toNat ++ " at index " ++ toString index
  | invalidConstantIndex index => "invalid constant pool index " ++ toString index.toNat
  | invalidDescriptor text => "malformed descriptor: " ++ text
  | invalidAttribute name reason => "malformed attribute " ++ name ++ ": " ++ reason
  | nestingTooDeep limit => "annotation nesting deeper than " ++ toString limit
  | missingSuperclass name => "missing superclass for " ++ name

/-- Blames the attribute for an end of its body that comes too soon. -/
def inAttribute (name : String) : ParseError → ParseError
  | unexpectedEof offset => invalidAttribute name (message (unexpectedEof offset))
  | e => e

end ParseError

end ClassCatalog.ClassFile

import ClassCatalog.ClassFile.ParseError

/-!
# Reading class file bytes

A cursor is a place in a byte string: how many bytes lie before it and which bytes follow. A `Read`
takes bytes from the cursor and may fail; the cursor survives a failure, where it was before the
step that failed. Numbers stand in the order of their significance.
-/

namespace ClassCatalog.ClassFile

/-- A place in a byte string. -/
structure Cursor where
  offset : Nat
  rest : Bytes
  deriving DecidableEq, Repr

def Cursor.start (bytes : Bytes) : Cursor := ⟨0, bytes⟩

/-- Reads from a cursor, moving it, or stops with a fault. -/
abbrev Read := ExceptT ParseError (StateM Cursor)

namespace Read

variable {α : Type}

/-- The outcome of a read and where it left the cursor. -/
def runAt (p : Read α) (c : Cursor) : Except ParseError α × Cursor := p.run.run c

/-- The next `n` bytes. With fewer left, nothing is taken. -/
def slice (n : Nat) : Read Bytes := ExceptT.mk fun c =>
  match Bytes.splitAt? n c.rest with
  | some (taken, rest) => (.ok taken, ⟨c.offset + n, rest⟩)
  | none => (.error (.unexpectedEof c.offset), c)

def skip (n : Nat) : Read Unit := do
  let _ ← slice n

def u1 : Read UInt8 := do
  let bytes ← slice 1
  return UInt8.ofNat (Bytes.ofBigEndian bytes)

def u2 : Read UInt16 := do
  let bytes ← slice 2
  return UInt16.ofNat (Bytes.ofBigEndian bytes)

def u4 : Read UInt32 := do
  let bytes ← slice 4
  return UInt32.ofNat (Bytes.ofBigEndian bytes)

/-- The next eight bytes as a number, taken in two halves. -/
def u8 : Read UInt64 := do
  let high ← u4
  let low ← u4
  return high.toUInt64 <<< 32 ||| low.toUInt64

/-- The four bytes every class file starts with. -/
def magicNumber : UInt32 := 0xCAFEBABE

/-- Passes over the magic number; four other bytes are passed over too, and are a fault. -/
def magic : Read Unit := do
  let found ← u4
  if found ≠ magicNumber then throw (.invalidMagic found)

def remaining : Read Nat := do
  let c ← get
  return c.rest.length

def repeated (item : Read α) : Nat → Read (List α)
  | 0 => pure []
  | n + 1 => do
    let first ← item
    let others ← repeated item n
    return first :: others

end Read

end ClassCatalog.ClassFile

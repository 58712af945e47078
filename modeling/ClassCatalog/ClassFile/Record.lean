import ClassCatalog.ClassFile.Attribute
import ClassCatalog.ClassRecord

/-!
# From class file to class record

The header, up to the table of interfaces, must be sound, or the class is malformed. What follows is
a sequence of parts: the fields, the methods and the attributes of the class itself. When a part
cannot be read, the parts before it make a partial record. The same happens, with all parts, when an
annotation gives two values to one element.
-/

namespace ClassCatalog.ClassFile

def oldestMajor : UInt16 := 45

def newestMajor : UInt16 := 69

/-- Keeps the first occurrence of every string. -/
def firstOccurrences (strings : List String) : List String :=
  strings.foldl (fun kept s => if kept.contains s then kept else kept ++ [s]) []

/-- The superclass at `index`. Only the class of all objects and descriptors of modules have none. -/
def superclassAt (pool : ConstantPool) (name : String) (modifiers : Modifiers) (index : UInt16) :
    Except ParseError (Option String) := do
  if index = 0 then
    if name ≠ ClassName.object ∧ ¬ modifiers.isModule then .error (.missingSuperclass name)
    else return none
  else
    let s ← pool.className index
    return some (ClassName.ofInternal s)

def readInterface (pool : ConstantPool) : Read String := do
  let index ← Read.u2
  let s ← pool.className index
  return ClassName.ofInternal s

/-- Reads what stands between the constant pool and the fields: a record with all but annotations. -/
def readDeclaration (pool : ConstantPool) : Read ClassRecord := do
  let flags ← Read.u2
  let thisIndex ← Read.u2
  let superIndex ← Read.u2
  let internal ← pool.className thisIndex
  let name := ClassName.ofInternal internal
  let superclass ← superclassAt pool name ⟨flags⟩ superIndex
  let count ← Read.u2
  let interfaces ← Read.repeated (readInterface pool) count.toNat
  return { name, superclass, modifiers := ⟨flags⟩, interfaces := firstOccurrences interfaces }

/-- Reads the header: the constant pool and the declaration of the class. -/
def readHeader : Read (ConstantPool × ClassRecord) := do
  Read.magic
  let minor ← Read.u2
  let major ← Read.u2
  if ¬ (oldestMajor ≤ major ∧ major ≤ newestMajor) then
    throw (.unsupportedVersion major minor)
  let pool ← ConstantPool.read
  let declaration ← readDeclaration pool
  return (pool, declaration)

/-- One step in the body of a class file, with every element the file has. -/
inductive Part where
  | field (name : String) (usages : List Usage)
  | method (key : String) (usages : List Usage) (parameters : List (List Usage))
  | classAttribute (usages : List Usage)

namespace Part

/-- The usages of a part, those on parameters last. -/
def usages : Part → List Usage
  | field _ us => us
  | method _ us ps => us ++ ps.flatten
  | classAttribute us => us

/-- Whether some usage gives two values to one element. -/
def repeatsName (part : Part) : Bool := part.usages.any Usage.repeatsName

/-- The name, the descriptor and the attributes of a member. -/
def readMember (pool : ConstantPool) (owner : Attribute.Owner) :
    Read (String × String × List Attribute) := do
  Read.skip 2
  let nameIndex ← Read.u2
  let name ← pool.utf8 nameIndex
  let descriptorIndex ← Read.u2
  let descriptor ← pool.utf8 descriptorIndex
  let count ← Read.u2
  let attributes ← Read.repeated (Attribute.read pool owner) count.toNat
  return (name, descriptor, attributes)

def readField (pool : ConstantPool) : Read Part := do
  let (name, _, attributes) ← readMember pool .field
  return field name (attributes.flatMap Attribute.usages)

def readMethod (pool : ConstantPool) : Read Part := do
  let (name, descriptor, attributes) ← readMember pool .method
  return method (ClassRecord.methodKey name descriptor) (attributes.flatMap Attribute.usages)
    (Attribute.mergedParameters attributes)

def readClassAttribute (pool : ConstantPool) : Read Part := do
  let a ← Attribute.read pool .classItself
  return classAttribute a.usages

/-- Adds usages to those under `name`; no usages leave no trace. -/
def addUsages (m : NameMap (List Usage)) (name : String) (usages : List Usage) :
    NameMap (List Usage) :=
  if usages.isEmpty then m else m.insert name ((m.find? name).getD [] ++ usages)

/-- Adds a part to a record; of each repeated element the first value counts. The parameters of a
repeated method replace the earlier ones. -/
def addTo (r : ClassRecord) : Part → ClassRecord
  | field name us =>
    { r with fieldAnnotations := addUsages r.fieldAnnotations name (us.map Usage.distinct) }
  | method key us ps =>
    let r := { r with
      methodAnnotations := addUsages r.methodAnnotations key (us.map Usage.distinct) }
    if ps.any fun p => !p.isEmpty then
      { r with
        parameterAnnotations := r.parameterAnnotations.insert key (ps.map (·.map Usage.distinct)) }
    else r
  | classAttribute us =>
    { r with classAnnotations := r.classAnnotations ++ us.map Usage.distinct }

end Part

/-- Parts read in a row, and either the cursor behind them or the fault that came next. -/
structure Progress where
  parts : List Part
  next : Except ParseError Cursor

namespace Progress

/-- Reads `n` parts in a row, keeping those before a fault. -/
def run (part : Read Part) : Nat → Cursor → Progress
  | 0, c => ⟨[], .ok c⟩
  | n + 1, c =>
    match part.runAt c with
    | (.ok p, c) =>
      let others := run part n c
      ⟨p :: others.parts, others.next⟩
    | (.error e, _) => ⟨[], .error e⟩

/-- Reads a number and then as many parts. -/
def counted (part : Read Part) (c : Cursor) : Progress :=
  match Read.u2.runAt c with
  | (.ok n, c) => run part n.toNat c
  | (.error e, _) => ⟨[], .error e⟩

/-- Goes on from where reading got to. -/
def andThen (p : Progress) (f : Cursor → Progress) : Progress :=
  match p.next with
  | .ok c =>
    let q := f c
    ⟨p.parts ++ q.parts, q.next⟩
  | .error e => ⟨p.parts, .error e⟩

end Progress

/-- Reads the body: fields, methods, attributes of the class. -/
def readBody (pool : ConstantPool) (c : Cursor) : Progress :=
  ((Progress.counted (Part.readField pool) c).andThen
    (Progress.counted (Part.readMethod pool))).andThen
    (Progress.counted (Part.readClassAttribute pool))

/-- Why the record of a class lacks something. -/
inductive Shortfall where
  | parse (fault : ParseError)
  | duplicateElement
  deriving DecidableEq, Repr

def Shortfall.message : Shortfall → String
  | parse fault => fault.message
  | duplicateElement => "duplicate annotation element name"

/-- Why there is no full record of a class. -/
inductive DecodeError where
  /-- The header could not be read. -/
  | malformed (fault : ParseError)
  /-- The record holds what could be read before the shortfall. -/
  | incomplete (partialRecord : ClassRecord) (shortfall : Shortfall)

namespace DecodeError

def reason : DecodeError → String
  | malformed fault => fault.message
  | incomplete _ shortfall => shortfall.message

def message : DecodeError → String
  | malformed fault => "malformed class: " ++ fault.message
  | incomplete r shortfall => "incomplete class " ++ r.name ++ ": " ++ shortfall.message

end DecodeError

/-- The record of a header and the parts that follow it. -/
def assembleRecord (header : ClassRecord) (parts : List Part) : ClassRecord :=
  parts.foldl Part.addTo header

/-- The record of the class in a class file. Bytes behind the class are passed over. -/
def decode (bytes : Bytes) : Except DecodeError ClassRecord :=
  match readHeader.runAt (Cursor.start bytes) with
  | (.error e, _) => .error (.malformed e)
  | (.ok (pool, header), c) =>
    let progress := readBody pool c
    let record := assembleRecord header progress.parts
    match progress.next with
    | .error e => .error (.incomplete { record with isPartial := true } (.parse e))
    | .ok _ =>
      if progress.parts.any Part.repeatsName then
        .error (.incomplete { record with isPartial := true } .duplicateElement)
      else .ok record

end ClassCatalog.ClassFile

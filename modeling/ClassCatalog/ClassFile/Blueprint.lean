import ClassCatalog.ClassFile.Attribute
import ClassCatalog.ClassFile.PoolWriter
import ClassCatalog.Modifiers

/-!
# Writing class files

A blueprint says what a class file is to contain: names, flags, members and annotations. `assemble`
writes the smallest class file with that content; its methods have no code. Constants are numbered
in the order in which they are first needed. Counts and lengths are cut to the width of their field.
-/

namespace ClassCatalog.ClassFile

/-- A field or a method to be written. Only methods have parameters. -/
structure MemberBlueprint where
  name : String
  descriptor : String
  annotations : List Usage := []
  parameters : List (List Usage) := []
  deriving Inhabited

/-- The content of a class file to be written. -/
structure Blueprint where
  name : String
  superclass : Option String := some ClassName.object
  interfaces : List String := []
  access : UInt16 := Modifiers.publicFlag ||| Modifiers.superFlag
  major : UInt16 := 52
  annotations : List Usage := []
  fields : List MemberBlueprint := []
  methods : List MemberBlueprint := []
  deriving Inhabited

/-- Writes bytes, entering the constants they refer to into the pool. -/
abbrev Emit := StateM PoolWriter Bytes

namespace Emit

def u2 (n : Nat) : Bytes := Bytes.bigEndian 2 n

def constant (key : PoolKey) : Emit := do
  let i ← modifyGet (·.intern key)
  return u2 i.toNat

def text (s : String) : Emit := constant (.utf8 s)

def classIndex (dotted : String) : Emit := constant (.classRef (ClassName.toInternal dotted))

def typeName (name : String) : Emit := text (Descriptor.ofTypeName name)

/-- One after the other. -/
def all : List Emit → Emit
  | [] => return []
  | e :: rest => do
    let first ← e
    let others ← all rest
    return first ++ others

/-- A tag and what follows it. -/
def tagged (tag : Char) (e : Emit) : Emit := do
  let bytes ← e
  return UInt8.ofNat tag.toNat :: bytes

mutual

def value : ElementValue → Emit
  | .byte v => tagged 'B' (constant (.integer v.toInt32))
  | .char v => tagged 'C' (constant (.integer (UInt32.ofNat v.toNat).toInt32))
  | .short v => tagged 'S' (constant (.integer v.toInt32))
  | .int v => tagged 'I' (constant (.integer v))
  | .boolean v => tagged 'Z' (constant (.integer (if v then 1 else 0)))
  | .long v => tagged 'J' (constant (.long v))
  | .float bits => tagged 'F' (constant (.float bits))
  | .double bits => tagged 'D' (constant (.double bits))
  | .string v => tagged 's' (text v)
  | .enum enumType constantName =>
    tagged 'e' do
      let t ← typeName enumType
      let c ← text constantName
      return t ++ c
  | .classLiteral name => tagged 'c' (typeName name)
  | .nested u => tagged '@' (usage u)
  | .array vs =>
    tagged '[' do
      let bytes ← items vs
      return u2 vs.length ++ bytes

/-- The bytes of a usage; its retention shows in the attribute that holds it. -/
def usage : Usage → Emit
  | ⟨name, _, es⟩ => do
    let t ← typeName name
    let bytes ← elements es
    return t ++ u2 es.length ++ bytes

def items : List ElementValue → Emit
  | [] => return []
  | v :: rest => do
    let first ← value v
    let others ← items rest
    return first ++ others

/-- The bytes of elements, one after the other: the name, then the value. -/
def elements : List (String × ElementValue) → Emit
  | [] => return []
  | (name, v) :: rest => do
    let n ← text name
    let first ← value v
    let others ← elements rest
    return n ++ first ++ others

end

/-- A count and as many usages. -/
def usages (us : List Usage) : Emit := do
  let bytes ← all (us.map usage)
  return u2 us.length ++ bytes

/-- An attribute: its name, its length and its body. The name is entered after the body. -/
def namedAttribute (name : String) (body : Emit) : Emit := do
  let payload ← body
  let n ← text name
  return n ++ Bytes.bigEndian 4 payload.length ++ payload

/-- Those usages that are kept as long as `retention` says. -/
def kept (retention : Retention) (us : List Usage) : List Usage :=
  us.filter fun u => u.retention == retention

/-- The attributes for the annotations on an item: at most one for each retention. -/
def annotationAttributes (us : List Usage) : List Emit :=
  [Retention.runtime, Retention.classFile].flatMap fun retention =>
    if (kept retention us).isEmpty then []
    else [namedAttribute (AttributeKind.annotationsName retention) (usages (kept retention us))]

/-- The number of parameters, and for each of them the usages kept as long as `retention` says. -/
def parameterUsages (retention : Retention) (ps : List (List Usage)) : Emit := do
  let bytes ← all (ps.map fun p => usages (kept retention p))
  return Bytes.bigEndian 1 ps.length ++ bytes

/-- The attributes for the annotations on parameters: at most one for each retention. -/
def parameterAttributes (ps : List (List Usage)) : List Emit :=
  [Retention.runtime, Retention.classFile].flatMap fun retention =>
    if ps.all fun p => (kept retention p).isEmpty then []
    else [namedAttribute (AttributeKind.parameterAnnotationsName retention) (parameterUsages retention ps)]

def attributes (as : List Emit) : Emit := do
  let bytes ← all as
  return u2 as.length ++ bytes

/-- A member: flags, name, descriptor, attributes. -/
def member (m : MemberBlueprint) : Emit := do
  let name ← text m.name
  let descriptor ← text m.descriptor
  let as ← attributes (annotationAttributes m.annotations ++ parameterAttributes m.parameters)
  return u2 1 ++ name ++ descriptor ++ as

def members (ms : List MemberBlueprint) : Emit := do
  let bytes ← all (ms.map member)
  return u2 ms.length ++ bytes

/-- The index of the superclass; 0 stands for none. -/
def superclassIndex : Option String → Emit
  | some dotted => classIndex dotted
  | none => return u2 0

end Emit

namespace Blueprint

/-- Flags, names and interfaces. -/
def emitDeclaration (b : Blueprint) : Emit := do
  let this ← Emit.classIndex b.name
  let super ← Emit.superclassIndex b.superclass
  let interfaces ← Emit.all (b.interfaces.map Emit.classIndex)
  return Emit.u2 b.access.toNat ++ this ++ super ++ Emit.u2 b.interfaces.length ++ interfaces

/-- Members and attributes. -/
def emitBody (b : Blueprint) : Emit := do
  let fields ← Emit.members b.fields
  let methods ← Emit.members b.methods
  let annotations ← Emit.attributes (Emit.annotationAttributes b.annotations)
  return fields ++ methods ++ annotations

/-- All that follows the constant pool. -/
def emit (b : Blueprint) : Emit := do
  let declaration ← b.emitDeclaration
  let body ← b.emitBody
  return declaration ++ body

/-- The class file with this content. -/
def assemble (b : Blueprint) : Bytes :=
  let (body, pool) := b.emit.run {}
  Bytes.bigEndian 4 Read.magicNumber.toNat ++ Emit.u2 0 ++ Emit.u2 b.major.toNat ++
    Emit.u2 pool.next.toNat ++ pool.bytes ++ body

end Blueprint

end ClassCatalog.ClassFile

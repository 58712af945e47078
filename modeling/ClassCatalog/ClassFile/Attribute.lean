import ClassCatalog.Annotation.Basic
import ClassCatalog.ClassFile.ConstantPool
import ClassCatalog.ClassFile.Descriptor
import ClassCatalog.Text.Quoted

/-!
# Attributes that hold annotations

An attribute is a name, a length and a body. Four names announce annotations: on the item itself or
on the parameters of a method, and visible at run time or not. Their bodies are read to the last
byte; those of other attributes are passed over. Annotations and arrays nest at most
`nestingLimit` deep. What is read here still has every element the file has, repeated names
included.
-/

namespace ClassCatalog.ClassFile

/-- How deep annotations and arrays nest, an annotation on the item itself being level 1. -/
def nestingLimit : Nat := 64

/-- What the body of an attribute holds. -/
inductive AttributeKind where
  | annotations (retention : Retention)
  | parameterAnnotations (retention : Retention)
  | other
  deriving DecidableEq, Repr

namespace AttributeKind

/-- The name of the attribute that holds the annotations of an item. -/
def annotationsName : Retention → String
  | .runtime => "RuntimeVisibleAnnotations"
  | .classFile => "RuntimeInvisibleAnnotations"

/-- The name of the attribute that holds the annotations of a method's parameters. -/
def parameterAnnotationsName : Retention → String
  | .runtime => "RuntimeVisibleParameterAnnotations"
  | .classFile => "RuntimeInvisibleParameterAnnotations"

/-- What an attribute of this name holds. -/
def ofName (name : String) : AttributeKind :=
  if name = annotationsName .runtime then annotations .runtime
  else if name = annotationsName .classFile then annotations .classFile
  else if name = parameterAnnotationsName .runtime then parameterAnnotations .runtime
  else if name = parameterAnnotationsName .classFile then parameterAnnotations .classFile
  else other

end AttributeKind

/-- What is fixed while the body of one attribute is read. -/
structure AttributeContext where
  pool : ConstantPool
  name : String
  retention : Retention

namespace AttributeContext

variable (ctx : AttributeContext)

/-- A number constant whose index comes next. -/
def integer : Read Int32 := do
  let index ← Read.u2
  ctx.pool.integer index

/-- A text constant whose index comes next. -/
def text : Read String := do
  let index ← Read.u2
  ctx.pool.utf8 index

/-- A type whose descriptor's index comes next. -/
def typeName : Read String := do
  let descriptor ← ctx.text
  Descriptor.typeName descriptor

/-- The character that the low sixteen bits of a number stand for; a surrogate stands for none and
is replaced. -/
def charOfLowBits (value : Int32) : Char :=
  let n := value.toUInt32.toNat % 0x10000
  if n.isValidChar then Char.ofNat n else Utf16.replacement

/-- An element value, given how to read what nests in it. -/
def valueWith (usage items : Read ElementValue) : Read ElementValue := do
  let tag ← Read.u1
  match Char.ofNat tag.toNat with
  | 'B' => do
    let v ← ctx.integer
    return .byte v.toInt8
  | 'C' => do
    let v ← ctx.integer
    return .char (charOfLowBits v)
  | 'I' => do
    let v ← ctx.integer
    return .int v
  | 'S' => do
    let v ← ctx.integer
    return .short v.toInt16
  | 'Z' => do
    let v ← ctx.integer
    return .boolean (v ≠ 0)
  | 'J' => do
    let index ← Read.u2
    let v ← ctx.pool.long index
    return .long v
  | 'F' => do
    let index ← Read.u2
    let v ← ctx.pool.float index
    return .float v
  | 'D' => do
    let index ← Read.u2
    let v ← ctx.pool.double index
    return .double v
  | 's' => do
    let v ← ctx.text
    return .string v
  | 'e' => do
    let typeIndex ← Read.u2
    let constantIndex ← Read.u2
    let descriptor ← ctx.pool.utf8 typeIndex
    let typeName ← Descriptor.typeName descriptor
    let constant ← ctx.pool.utf8 constantIndex
    return .enum typeName constant
  | 'c' => do
    let name ← ctx.typeName
    return .classLiteral name
  | '@' => usage
  | '[' => items
  | c => throw (.invalidAttribute ctx.name ("unknown element value tag " ++ Text.quoteChar c))

/-- A usage, given how to read the values of its elements. -/
def usageWith (value : Read ElementValue) : Read Usage := do
  let typeName ← ctx.typeName
  let pairs ← Read.u2
  let elements ← Read.repeated (do
    let name ← ctx.text
    let v ← value
    return (name, v)) pairs.toNat
  return ⟨typeName, ctx.retention, elements⟩

/-- The items of an array, given how to read one. -/
def itemsWith (value : Read ElementValue) : Read ElementValue := do
  let count ← Read.u2
  let items ← Read.repeated value count.toNat
  return .array items

def tooDeep {α : Type} : Read α := throw (.nestingTooDeep nestingLimit)

/-- An element value in which annotations and arrays nest at most `levels` deep. -/
def value : (levels : Nat) → Read ElementValue
  | 0 => ctx.valueWith tooDeep tooDeep
  | levels + 1 =>
    ctx.valueWith
      (do
        let u ← ctx.usageWith (value levels)
        return .nested u)
      (itemsWith (value levels))

/-- A usage that nests at most `levels` deep, itself included. -/
def usage : (levels : Nat) → Read Usage
  | 0 => tooDeep
  | levels + 1 => ctx.usageWith (ctx.value levels)

/-- A counted list of usages. -/
def usages : Read (List Usage) := do
  let count ← Read.u2
  Read.repeated (ctx.usage nestingLimit) count.toNat

/-- A counted list of usages for every parameter. -/
def parameters : Read (List (List Usage)) := do
  let count ← Read.u1
  Read.repeated ctx.usages count.toNat

/-- Reads a body to its last byte. A body that ends too soon, or too late, is a fault of the
attribute. -/
def body {α : Type} (p : Read α) (bytes : Bytes) : Except ParseError α :=
  match p.runAt (Cursor.start bytes) with
  | (.ok a, c) =>
    if c.rest = [] then .ok a
    else .error (.invalidAttribute ctx.name (toString c.rest.length ++ " trailing bytes"))
  | (.error e, _) => .error (e.inAttribute ctx.name)

end AttributeContext

/-- What an item gains from one of its attributes. -/
inductive Attribute where
  | annotations (usages : List Usage)
  | parameterAnnotations (parameters : List (List Usage))
  | other

namespace Attribute

/-- Whether the annotations of parameters count. -/
inductive Owner where
  | classItself
  | field
  | method
  deriving DecidableEq, Repr

/-- Reads the body of an attribute that belongs to `owner`. -/
def ofBody (pool : ConstantPool) (owner : Owner) (name : String) (bytes : Bytes) :
    Except ParseError Attribute :=
  match AttributeKind.ofName name, owner with
  | .annotations retention, _ =>
    let ctx : AttributeContext := ⟨pool, name, retention⟩
    (ctx.body ctx.usages bytes).map annotations
  | .parameterAnnotations retention, .method =>
    let ctx : AttributeContext := ⟨pool, name, retention⟩
    (ctx.body ctx.parameters bytes).map parameterAnnotations
  | _, _ => .ok other

/-- Reads an attribute that belongs to `owner`. -/
def read (pool : ConstantPool) (owner : Owner) : Read Attribute := do
  let nameIndex ← Read.u2
  let name ← pool.utf8 nameIndex
  let length ← Read.u4
  let bytes ← Read.slice length.toNat
  ofBody pool owner name bytes

/-- The usages on the item itself. -/
def usages : Attribute → List Usage
  | annotations us => us
  | _ => []

/-- Joins two lists of lists, position by position. -/
def mergeParameters : List (List Usage) → List (List Usage) → List (List Usage)
  | [], ps => ps
  | ps, [] => ps
  | p :: ps, q :: qs => (p ++ q) :: mergeParameters ps qs

/-- The usages on each parameter, all attributes taken together. -/
def mergedParameters (attributes : List Attribute) : List (List Usage) :=
  attributes.foldl (fun merged a =>
    match a with
    | parameterAnnotations ps => mergeParameters merged ps
    | _ => merged) []

end Attribute

end ClassCatalog.ClassFile

/-!
# Access flags

The flags of a class as one 16-bit word, the tests on its bits and the source keywords they amount
to.
-/

namespace ClassCatalog

/-- The access flags of a class, as its file stores them. -/
structure Modifiers where
  bits : UInt16 := 0
  deriving DecidableEq, Repr, Inhabited

namespace Modifiers

/-- The flag of a class visible everywhere. -/
def publicFlag : UInt16 := 0x0001

/-- The flag that every class written today carries. -/
def superFlag : UInt16 := 0x0020

/-- The flag of a class without subclasses. -/
def finalFlag : UInt16 := 0x0010

/-- The flag of an interface. -/
def interfaceFlag : UInt16 := 0x0200

/-- The flag of a class that cannot be instantiated. -/
def abstractFlag : UInt16 := 0x0400

/-- The flag of a class without source text. -/
def syntheticFlag : UInt16 := 0x1000

/-- The flag of an annotation type. -/
def annotationFlag : UInt16 := 0x2000

/-- The flag of an enumeration. -/
def enumFlag : UInt16 := 0x4000

/-- The flag of a module descriptor. -/
def moduleFlag : UInt16 := 0x8000

/-- Whether any bit of `flag` is set. -/
def has (m : Modifiers) (flag : UInt16) : Bool := m.bits &&& flag != 0

def isPublic (m : Modifiers) : Bool := m.has publicFlag

def isFinal (m : Modifiers) : Bool := m.has finalFlag

def isInterface (m : Modifiers) : Bool := m.has interfaceFlag

def isAbstract (m : Modifiers) : Bool := m.has abstractFlag

def isSynthetic (m : Modifiers) : Bool := m.has syntheticFlag

def isAnnotationType (m : Modifiers) : Bool := m.has annotationFlag

def isEnum (m : Modifiers) : Bool := m.has enumFlag

def isModule (m : Modifiers) : Bool := m.has moduleFlag

/-- The word for the kind of class. -/
def kind (m : Modifiers) : String :=
  if m.isAnnotationType then "@interface"
  else if m.isInterface then "interface"
  else if m.isEnum then "enum"
  else "class"

/-- The source keywords, in declaration order; an interface is not called abstract. -/
def keywords (m : Modifiers) : List String :=
  (if m.isPublic then ["public"] else []) ++
  (if m.isAbstract && !m.isInterface then ["abstract"] else []) ++
  (if m.isFinal then ["final"] else []) ++ [m.kind]

end Modifiers

end ClassCatalog

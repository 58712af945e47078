import ClassCatalog.Annotation.Same
import ClassCatalog.ClassName
import ClassCatalog.Modifiers
import ClassCatalog.NameMap

/-!
# Class records

What is known of one class: its place in the hierarchy, its flags and the annotations on it, its
fields, its methods and their parameters. Fields are known by name, methods by name and descriptor.
-/

namespace ClassCatalog

/-- What is known of one class. -/
structure ClassRecord where
  /-- Dotted, with the package. -/
  name : String
  superclass : Option String := none
  interfaces : List String := []
  modifiers : Modifiers := {}
  classAnnotations : List Usage := []
  fieldAnnotations : NameMap (List Usage) := ∅
  methodAnnotations : NameMap (List Usage) := ∅
  /-- One list of usages per parameter. -/
  parameterAnnotations : NameMap (List (List Usage)) := ∅
  /-- Whether part of the class file could not be read. -/
  isPartial : Bool := false
  deriving Inhabited

namespace ClassRecord

/-- How a method is known: its name and its descriptor, nothing between them. -/
def methodKey (name descriptor : String) : String := name ++ descriptor

def annotationNames (r : ClassRecord) : List String := r.classAnnotations.map (·.typeName)

def hasOnClass (r : ClassRecord) (typeName : String) : Bool :=
  r.annotationNames.contains typeName

/-- The first annotation of this type on the class. -/
def classAnnotation? (r : ClassRecord) (typeName : String) : Option Usage :=
  r.classAnnotations.find? fun u => u.typeName == typeName

def hasOnField (r : ClassRecord) (typeName : String) : Bool :=
  r.fieldAnnotations.values.flatten.any fun u => u.typeName == typeName

/-- Whether some method or parameter carries an annotation of this type. -/
def hasOnMethod (r : ClassRecord) (typeName : String) : Bool :=
  (r.methodAnnotations.values.flatten.any fun u => u.typeName == typeName) ||
  r.parameterAnnotations.values.flatten.flatten.any fun u => u.typeName == typeName

/-- The superclass, then the interfaces. -/
def directSupertypes (r : ClassRecord) : List String := r.superclass.toList ++ r.interfaces

/-- Whether two maps of usages are the same. -/
def sameUsages (a b : NameMap (List Usage)) : Bool :=
  listSame (fun x y => x.1 == y.1 && listSame Usage.same x.2 y.2) a.entries b.entries

/-- Whether two maps of parameter usages are the same. -/
def sameParameters (a b : NameMap (List (List Usage))) : Bool :=
  listSame (fun x y => x.1 == y.1 && listSame (listSame Usage.same) x.2 y.2) a.entries b.entries

/-- Whether two records are the same, floats compared as numbers. -/
def same (a b : ClassRecord) : Bool :=
  a.name == b.name && a.superclass == b.superclass && a.interfaces == b.interfaces &&
  a.modifiers == b.modifiers && listSame Usage.same a.classAnnotations b.classAnnotations &&
  sameUsages a.fieldAnnotations b.fieldAnnotations &&
  sameUsages a.methodAnnotations b.methodAnnotations &&
  sameParameters a.parameterAnnotations b.parameterAnnotations &&
  a.isPartial == b.isPartial

end ClassRecord

end ClassCatalog

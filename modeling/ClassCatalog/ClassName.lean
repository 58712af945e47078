import ClassCatalog.Text.Split

/-!
# Class names

A class is known by its dotted name; what stands before the last dot is its package.
-/

namespace ClassCatalog.ClassName

/-- The package of a class, empty for the default package. -/
def package (name : String) : String :=
  match Text.splitLast? '.' name.toList with
  | some (before, _) => String.ofList before
  | none => ""

/-- The name of a class inside its package. -/
def simple (name : String) : String :=
  match Text.splitLast? '.' name.toList with
  | some (_, after) => String.ofList after
  | none => name

/-- The name of the class that has no superclass. -/
def object : String := "java.lang.Object"

/-- A slashed name with dots. -/
def ofInternal (name : String) : String :=
  String.ofList (name.toList.map fun c => if c = '/' then '.' else c)

/-- A dotted name with slashes. -/
def toInternal (name : String) : String :=
  String.ofList (name.toList.map fun c => if c = '.' then '/' else c)

end ClassCatalog.ClassName

import ClassCatalog.ClassFile.ParseError
import ClassCatalog.ClassName

/-!
# Descriptors

A descriptor names a type inside a class file: a letter for a primitive type, a slashed class name
between `L` and `;`, and one `[` in front for every array dimension. The readable name has dots and
one `[]` behind it for every dimension.
-/

namespace ClassCatalog.ClassFile.Descriptor

/-- The letters of the primitive types. -/
def primitives : List (Char × String) :=
  [('B', "byte"), ('C', "char"), ('D', "double"), ('F', "float"), ('I', "int"), ('J', "long"),
    ('S', "short"), ('Z', "boolean")]

/-- The readable name of the primitive type with this letter. -/
def primitiveName? (letter : Char) : Option String :=
  (primitives.find? fun p => p.1 == letter).map (·.2)

/-- The letter of the primitive type with this readable name. -/
def primitiveLetter? (name : String) : Option Char :=
  (primitives.find? fun p => p.2 == name).map (·.1)

/-- The class name between `L` and `;`, if there is exactly one `;`, the last character. -/
def classElement? (element : List Char) : Option (List Char) :=
  match element with
  | 'L' :: rest =>
    if rest.getLast? = some ';' ∧ rest.dropLast ≠ [] ∧ ';' ∉ rest.dropLast then
      some rest.dropLast
    else none
  | _ => none

/-- The readable name of a descriptor without its dimensions. Nothing is an array of `void`. -/
def elementName? (dimensions : Nat) (element : List Char) : Option String :=
  match element with
  | [letter] =>
    if letter = 'V' then (if dimensions = 0 then some "void" else none)
    else primitiveName? letter
  | _ => (classElement? element).map fun name => ClassName.ofInternal (String.ofList name)

def brackets (count : Nat) : List Char := (List.replicate count ['[', ']']).flatten

/-- The readable name of the type that a field descriptor, or `V`, stands for. -/
def typeName (descriptor : String) : Except ParseError String :=
  let chars := descriptor.toList
  let dimensions := (chars.takeWhile (· == '[')).length
  match elementName? dimensions (chars.dropWhile (· == '[')) with
  | some base => .ok (base ++ String.ofList (brackets dimensions))
  | none => .error (.invalidDescriptor descriptor)

/-- Takes the pairs of brackets off a reversed name: how many there were and what is left. -/
def stripBrackets : List Char → Nat × List Char
  | ']' :: '[' :: rest =>
    let inner := stripBrackets rest
    (inner.1 + 1, inner.2)
  | rest => (0, rest)

/-- The descriptor of the type with a readable name. -/
def ofTypeName (typeName : String) : String :=
  let stripped := stripBrackets typeName.toList.reverse
  let base := String.ofList stripped.2.reverse
  let element : List Char :=
    match primitiveLetter? base with
    | some letter => [letter]
    | none =>
      if base = "void" then ['V']
      else 'L' :: (ClassName.toInternal base).toList ++ [';']
  String.ofList (List.replicate stripped.1 '[' ++ element)

end ClassCatalog.ClassFile.Descriptor

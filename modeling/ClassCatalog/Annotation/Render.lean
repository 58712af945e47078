import ClassCatalog.Annotation.Basic
import ClassCatalog.Decimal.Ieee
import ClassCatalog.Text.Quoted

/-!
# The text of annotations

A usage is written as in source code: an at sign, the type name and, if there are elements, their
list between parentheses. Longs carry an `L` and floats an `f`; a class literal ends in `.class`;
an array stands between braces.
-/

namespace ClassCatalog

mutual

def ElementValue.render : ElementValue → String
  | .byte v => toString v.toInt
  | .char v => String.ofList ['\'', v, '\'']
  | .short v => toString v.toInt
  | .int v => toString v.toInt
  | .long v => toString v.toInt ++ "L"
  | .float bits => Decimal.Format.single.text bits.toNat ++ "f"
  | .double bits => Decimal.Format.double.text bits.toNat
  | .boolean v => if v then "true" else "false"
  | .string v => Text.quoteString v
  | .enum typeName constant => typeName ++ "." ++ constant
  | .classLiteral typeName => typeName ++ ".class"
  | .nested usage => usage.render
  | .array items => "\x7b" ++ ", ".intercalate (renderItems items) ++ "\x7d"

def Usage.render : Usage → String
  | ⟨typeName, _, elements⟩ =>
    "@" ++ typeName ++
      (if elements.isEmpty then "" else "(" ++ ", ".intercalate (renderElements elements) ++ ")")

def renderItems : List ElementValue → List String
  | [] => []
  | value :: rest => value.render :: renderItems rest

/-- The text of each element: its name, an equals sign and its value. -/
def renderElements : List (String × ElementValue) → List String
  | [] => []
  | (name, value) :: rest => (name ++ "=" ++ value.render) :: renderElements rest

end

end ClassCatalog

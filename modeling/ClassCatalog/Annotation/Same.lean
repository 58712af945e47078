import ClassCatalog.Annotation.Basic
import ClassCatalog.Decimal.Ieee

/-!
# Equality of annotations as values

Two values are the same if they have the same shape and literals, floating-point literals being
compared as numbers: no NaN is the same as anything, and the two zeros are the same.
-/

namespace ClassCatalog

mutual

/-- Whether two element values are the same, floats compared as numbers. -/
def ElementValue.same : ElementValue → ElementValue → Bool
  | .byte a, .byte b => a == b
  | .char a, .char b => a == b
  | .short a, .short b => a == b
  | .int a, .int b => a == b
  | .long a, .long b => a == b
  | .float a, .float b => Decimal.Format.single.same a.toNat b.toNat
  | .double a, .double b => Decimal.Format.double.same a.toNat b.toNat
  | .boolean a, .boolean b => a == b
  | .string a, .string b => a == b
  | .enum a c, .enum b d => a == b && c == d
  | .classLiteral a, .classLiteral b => a == b
  | .nested a, .nested b => a.same b
  | .array a, .array b => sameItems a b
  | _, _ => false

/-- Whether two usages are the same, floats compared as numbers. -/
def Usage.same : Usage → Usage → Bool
  | ⟨t, r, es⟩, ⟨u, s, fs⟩ => t == u && r == s && sameElements es fs

def sameItems : List ElementValue → List ElementValue → Bool
  | [], [] => true
  | a :: as, b :: bs => a.same b && sameItems as bs
  | _, _ => false

def sameElements : List (String × ElementValue) → List (String × ElementValue) → Bool
  | [], [] => true
  | (n, a) :: as, (m, b) :: bs => n == m && a.same b && sameElements as bs
  | _, _ => false

end

/-- Whether two lists are equal item by item under `eq`. -/
def listSame {α : Type} (eq : α → α → Bool) : List α → List α → Bool
  | [], [] => true
  | a :: as, b :: bs => eq a b && listSame eq as bs
  | _, _ => false

end ClassCatalog

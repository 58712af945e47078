/-!
# Annotations

An annotation usage names its type, says how long it is kept and lists element values by name;
values nest through arrays and further usages. `Usage.distinct` keeps of each repeated element name
the first value, at every depth, and `Usage.repeatsName` tells whether it drops anything.
Floating-point values are kept as their bits.
-/

namespace ClassCatalog

/-- How long an annotation is kept: until run time, or only in the class file. -/
inductive Retention where
  | runtime
  | classFile
  deriving DecidableEq, Repr, Inhabited

mutual

/-- A literal element value. -/
inductive ElementValue where
  | byte (value : Int8)
  | char (value : Char)
  | short (value : Int16)
  | int (value : Int32)
  | long (value : Int64)
  | float (bits : UInt32)
  | double (bits : UInt64)
  | boolean (value : Bool)
  | string (value : String)
  | enum (typeName constant : String)
  | classLiteral (typeName : String)
  | nested (usage : Usage)
  | array (items : List ElementValue)

/-- One annotation on a class, field, method or parameter. Elements stand in the order of their
first occurrence. -/
structure Usage where
  typeName : String
  retention : Retention
  elements : List (String × ElementValue)

end

instance : Inhabited ElementValue := ⟨.boolean false⟩

instance : Inhabited Usage := ⟨⟨"", .runtime, []⟩⟩

/-! ### Element lists -/

namespace Elements

def holds (elements : List (String × ElementValue)) (name : String) : Bool :=
  elements.any fun e => e.1 == name

/-- Appends a value unless its name is taken, and says whether it did. -/
def insert (elements : List (String × ElementValue)) (name : String) (value : ElementValue) :
    List (String × ElementValue) × Bool :=
  if holds elements name then (elements, false) else (elements ++ [(name, value)], true)

def find? (elements : List (String × ElementValue)) (name : String) : Option ElementValue :=
  (elements.find? fun e => e.1 == name).map (·.2)

/-- The elements whose name none before them has, given the names seen so far. -/
def firsts (seen : List String) : List (String × ElementValue) → List (String × ElementValue)
  | [] => []
  | e :: rest =>
    if seen.contains e.1 then firsts seen rest else e :: firsts (e.1 :: seen) rest

/-- Whether two elements have one name. -/
def repeats : List (String × ElementValue) → Bool
  | [] => false
  | e :: rest => holds rest e.1 || repeats rest

end Elements

mutual

/-- The value with the first element of each name only, at every depth. -/
def ElementValue.distinct : ElementValue → ElementValue
  | .nested usage => .nested usage.distinct
  | .array items => .array (distinctItems items)
  | value => value

/-- The usage with the first element of each name only, at every depth. -/
def Usage.distinct : Usage → Usage
  | ⟨typeName, retention, elements⟩ =>
    ⟨typeName, retention, Elements.firsts [] (distinctElements elements)⟩

/-- Applies `ElementValue.distinct` to every item. -/
def distinctItems : List ElementValue → List ElementValue
  | [] => []
  | value :: rest => value.distinct :: distinctItems rest

/-- Applies `ElementValue.distinct` to every element's value. -/
def distinctElements : List (String × ElementValue) → List (String × ElementValue)
  | [] => []
  | (name, value) :: rest => (name, value.distinct) :: distinctElements rest

end

mutual

/-- Whether some usage inside a value has two elements of one name. -/
def ElementValue.repeatsName : ElementValue → Bool
  | .nested usage => usage.repeatsName
  | .array items => itemsRepeatName items
  | _ => false

/-- Whether a usage, or one inside it, has two elements of one name. -/
def Usage.repeatsName : Usage → Bool
  | ⟨_, _, elements⟩ => Elements.repeats elements || elementsRepeatName elements

def itemsRepeatName : List ElementValue → Bool
  | [] => false
  | value :: rest => value.repeatsName || itemsRepeatName rest

def elementsRepeatName : List (String × ElementValue) → Bool
  | [] => false
  | (_, value) :: rest => value.repeatsName || elementsRepeatName rest

end

namespace Usage

/-- A usage whose elements are added one by one; a repeated name is dropped. -/
def ofElements (typeName : String) (retention : Retention)
    (elements : List (String × ElementValue)) : Usage :=
  ⟨typeName, retention, elements.foldl (fun es e => (Elements.insert es e.1 e.2).1) []⟩

def isRuntimeVisible (usage : Usage) : Bool := usage.retention == .runtime

end Usage

end ClassCatalog

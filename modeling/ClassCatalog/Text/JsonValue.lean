import ClassCatalog.Bytes

/-!
# JSON text

JSON values and their text over several lines: two blanks for each level, every item and field on a
line of its own, and empty arrays and objects closed at once. Fields keep their order.
-/

namespace ClassCatalog

/-- A JSON value without fractions. -/
inductive JsonValue where
  | null
  | boolean (b : Bool)
  | number (n : Nat)
  | string (s : String)
  | array (items : List JsonValue)
  | object (fields : List (String × JsonValue))
  deriving Inhabited

namespace JsonValue

/-- The escapes of one letter. -/
def letterEscape? (c : Char) : Option Char :=
  if c = '"' then some '"'
  else if c = '\\' then some '\\'
  else if c = '\x08' then some 'b'
  else if c = '\x0C' then some 'f'
  else if c = '\n' then some 'n'
  else if c = '\r' then some 'r'
  else if c = '\t' then some 't'
  else none

/-- A character inside a string. Control characters are written by their code point. -/
def escape (c : Char) : List Char :=
  match letterEscape? c with
  | some e => ['\\', e]
  | none =>
    if c.toNat < 0x20 then
      ['\\', 'u'] ++ (Bytes.hex (Bytes.bigEndian 2 c.toNat)).toList
    else [c]

def quote (s : String) : String := String.ofList ('"' :: s.toList.flatMap escape ++ ['"'])

/-- The blanks in front of a line. -/
def indentation (level : Nat) : String := String.ofList (List.replicate (2 * level) ' ')

mutual

/-- The text of a value whose first line is indented already. -/
def render (level : Nat) : JsonValue → String
  | null => "null"
  | boolean b => if b then "true" else "false"
  | number n => toString n
  | string s => quote s
  | array [] => "[]"
  | array (v :: rest) =>
    "[\n" ++ renderItems (level + 1) (v :: rest) ++ "\n" ++ indentation level ++ "]"
  | object [] => "\x7b\x7d"
  | object (f :: rest) =>
    "\x7b\n" ++ renderFields (level + 1) (f :: rest) ++ "\n" ++ indentation level ++ "\x7d"

/-- The items of an array, each on a line of its own. -/
def renderItems (level : Nat) : List JsonValue → String
  | [] => ""
  | [v] => indentation level ++ render level v
  | v :: w :: rest =>
    indentation level ++ render level v ++ ",\n" ++ renderItems level (w :: rest)

/-- The fields of an object, each on a line of its own. -/
def renderFields (level : Nat) : List (String × JsonValue) → String
  | [] => ""
  | [(name, v)] => indentation level ++ quote name ++ ": " ++ render level v
  | (name, v) :: f :: rest =>
    indentation level ++ quote name ++ ": " ++ render level v ++ ",\n" ++
      renderFields level (f :: rest)

end

def text (v : JsonValue) : String := render 0 v

def strings (items : List String) : JsonValue := array (items.map string)

end JsonValue

end ClassCatalog

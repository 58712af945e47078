import ClassCatalog.Text.Printable

/-!
# Quoted text

A string between double quotes, or a character between single quotes, with a backslash before what
would end or confuse it. Characters without a visible form are written by their code point in
hexadecimal, and inside a string so are marks that would attach to the quote.
-/

namespace ClassCatalog.Text

/-- The code point of a character in hexadecimal, between braces. -/
def escapeCodePoint (c : Char) : List Char :=
  ['\\', 'u', '\x7b'] ++ Nat.toDigits 16 c.toNat ++ ['\x7d']

/-- The short escapes that every quoted text uses. -/
def shortEscape? (c : Char) : Option Char :=
  if c = '\x00' then some '0'
  else if c = '\t' then some 't'
  else if c = '\n' then some 'n'
  else if c = '\r' then some 'r'
  else if c = '\\' then some '\\'
  else none

/-- One character between `quote`s. -/
def escapeChar (quote c : Char) : List Char :=
  match shortEscape? c with
  | some e => ['\\', e]
  | none =>
    if c = quote then ['\\', c]
    else if extendsGrapheme c || !isPrintable c then escapeCodePoint c
    else [c]

def quoteString (s : String) : String :=
  String.ofList ('"' :: s.toList.flatMap (escapeChar '"') ++ ['"'])

def quoteChar (c : Char) : String :=
  String.ofList ('\'' :: escapeChar '\'' c ++ ['\''])

end ClassCatalog.Text

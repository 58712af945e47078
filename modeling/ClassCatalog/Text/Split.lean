/-!
# Cutting text

Cuts at the first occurrence of a text and at the last occurrence of a character, the parts between
separators, and the characters of ASCII and of Unicode that trimming and case mapping touch.
-/

namespace ClassCatalog.Text

/-- What follows `start`, if the text starts so. -/
def dropStart? : List Char → List Char → Option (List Char)
  | [], text => some text
  | _ :: _, [] => none
  | a :: start, c :: text => if a = c then dropStart? start text else none

/-- Cuts at the first occurrence of `mark`: what stands before it and what after. -/
def splitFirst? (mark : List Char) : List Char → Option (List Char × List Char)
  | [] => if mark = [] then some ([], []) else none
  | c :: rest =>
    match dropStart? mark (c :: rest) with
    | some after => some ([], after)
    | none => (splitFirst? mark rest).map fun p => (c :: p.1, p.2)

/-- Cuts at the last occurrence of `mark`: what stands before it and what after. -/
def splitLast? (mark : Char) : List Char → Option (List Char × List Char)
  | [] => none
  | c :: rest =>
    match splitLast? mark rest with
    | some (before, after) => some (c :: before, after)
    | none => if c = mark then some ([], rest) else none

/-- The parts between the occurrences of `mark`, one more than there are occurrences. -/
def splitAll {α : Type} [DecidableEq α] (mark : α) : List α → List (List α)
  | [] => [[]]
  | c :: rest =>
    if c = mark then [] :: splitAll mark rest
    else match splitAll mark rest with
      | [] => [[c]]
      | part :: parts => (c :: part) :: parts

/-- Maps the capital letters of ASCII to small ones. -/
def lowerAscii (s : String) : String := String.ofList (s.toList.map Char.toLower)

/-- The code points that separate words. -/
def blanks : List (Nat × Nat) :=
  [(0x9, 0xD), (0x20, 0x20), (0x85, 0x85), (0xA0, 0xA0), (0x1680, 0x1680), (0x2000, 0x200A),
    (0x2028, 0x2029), (0x202F, 0x202F), (0x205F, 0x205F), (0x3000, 0x3000)]

def isBlank (c : Char) : Bool := blanks.any fun r => r.1 ≤ c.toNat && c.toNat ≤ r.2

/-- The text without the blanks at its ends. -/
def trim (text : List Char) : List Char :=
  ((text.dropWhile isBlank).reverse.dropWhile isBlank).reverse

end ClassCatalog.Text

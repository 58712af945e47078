import ClassCatalog.Text.Utf8

/-!
# Glob patterns

A pattern is a choice between rows of tokens, and a token takes some bytes of a path. A question
mark stands for one byte and a star for any number, none of them a slash; two stars between slashes
stand for any number of directories; brackets hold the bytes that may stand in their place; braces
hold patterns, of which one has to fit. A backslash makes the next character stand for itself.
-/

namespace ClassCatalog.Glob

def slash : UInt8 := 0x2F

/-- One step of a pattern. -/
inductive Token where
  | literal (b : UInt8)
  /-- One byte but a slash. -/
  | any
  /-- Any number of bytes without a slash. -/
  | star
  /-- Nothing, a slash, or anything that ends with a slash. -/
  | directoriesFirst
  /-- A slash, or anything between two slashes with them. -/
  | directoriesBetween
  /-- A slash and anything behind it. -/
  | directoriesLast
  /-- Anything. -/
  | everything
  /-- One byte in one of the ranges, or in none of them. -/
  | oneOf (negated : Bool) (ranges : List (UInt8 × UInt8))
  deriving DecidableEq, Repr

/-- A pattern without choices. -/
abbrev Row := List Token

/-! ### Matching -/

/-- The ends of a byte string, itself and nothing included. -/
def suffixes : Bytes → List Bytes
  | [] => [[]]
  | b :: rest => (b :: rest) :: suffixes rest

/-- What can be left after any number of bytes without a slash. -/
def afterStar : Bytes → List Bytes
  | [] => [[]]
  | b :: rest => if b = slash then [b :: rest] else (b :: rest) :: afterStar rest

/-- What is left behind each slash. -/
def afterSlashes : Bytes → List Bytes
  | [] => []
  | b :: rest => if b = slash then rest :: afterSlashes rest else afterSlashes rest

/-- Whether a byte lies in one of the ranges. -/
def inRanges (ranges : List (UInt8 × UInt8)) (b : UInt8) : Bool :=
  ranges.any fun r => r.1 ≤ b && b ≤ r.2

/-- What can be left of a byte string after a token has taken its part. -/
def Token.rests : Token → Bytes → List Bytes
  | literal c, b :: rest => if b = c then [rest] else []
  | any, b :: rest => if b = slash then [] else [rest]
  | oneOf negated ranges, b :: rest => if inRanges ranges b != negated then [rest] else []
  | star, bytes => afterStar bytes
  | everything, bytes => suffixes bytes
  | directoriesFirst, bytes => bytes :: afterSlashes bytes
  | directoriesBetween, b :: rest => if b = slash then rest :: afterSlashes rest else []
  | directoriesLast, b :: rest => if b = slash then suffixes rest else []
  | _, [] => []

/-- Whether a row of tokens takes a whole byte string. -/
def fits (row : Row) (bytes : Bytes) : Bool :=
  (row.foldl (fun rests t => (rests.flatMap t.rests).eraseDups) [bytes]).contains []

/-! ### Reading patterns -/

/-- What has been read of a pattern. Rows are kept in reverse. -/
structure Reading where
  /-- The character before. -/
  before : Option Char := none
  /-- The rows of the branch at hand. -/
  rows : List Row := [[]]
  /-- For each open brace the rows before it and those of the branches that are complete. -/
  braces : List (List Row × List Row) := []

namespace Reading

/-- Adds tokens to the branch at hand, after the character `c`. -/
def push (r : Reading) (c : Char) (tokens : List Token) : Reading :=
  { r with before := some c, rows := r.rows.map fun row => tokens.reverse ++ row }

/-- Puts a token in place of the last one of the branch. -/
def replaceLast (r : Reading) (c : Char) (token : Token) : Reading :=
  { r with
    before := some c
    rows := r.rows.map fun row =>
      match row with
      | .directoriesFirst :: rest => .directoriesFirst :: rest
      | .directoriesLast :: rest => .directoriesLast :: rest
      | _ :: rest => token :: rest
      | [] => [token] }

def openBrace (r : Reading) : Reading :=
  { before := some '{', rows := [[]], braces := (r.rows, []) :: r.braces }

/-- Goes on to the next branch of the brace at hand; outside braces a comma is a comma. -/
def comma (r : Reading) : Reading :=
  match r.braces with
  | [] => r.push ',' [.literal 0x2C]
  | (start, complete) :: outer =>
    { before := some ',', rows := [[]], braces := (start, complete ++ r.rows) :: outer }

/-- Closes the brace at hand. Empty branches do not count beside others. -/
def closeBrace? (r : Reading) : Option Reading :=
  match r.braces with
  | [] => none
  | (start, complete) :: outer =>
    let branches := (complete ++ r.rows).filter (· ≠ [])
    let branches := if branches = [] then [[]] else branches
    some { before := some '}', braces := outer
           rows := start.flatMap fun row => branches.map fun branch => branch ++ row }

def isEmpty (r : Reading) : Bool := r.rows.all fun row => row.isEmpty

/-- Two stars, with what follows them. -/
def twoStars (r : Reading) (rest : List Char) : Reading × List Char :=
  let plain := (r.push '*' [.star, .star], rest)
  let inBraces := !r.braces.isEmpty
  if r.isEmpty then
    match rest with
    | [] => (r.push '*' [.directoriesFirst], [])
    | '/' :: rest => (r.push '/' [.directoriesFirst], rest)
    | _ => plain
  else if r.before ≠ some '/' then plain
  else
    match rest with
    | [] => (r.replaceLast '*' .directoriesLast, [])
    | '/' :: rest => (r.replaceLast '/' .directoriesBetween, rest)
    | c :: rest' =>
      if inBraces && (c == ',' || c == '}') then (r.replaceLast '*' .directoriesLast, c :: rest')
      else plain

end Reading

def charBytes (c : Char) : Bytes := String.utf8EncodeChar c

/-- The ranges of bytes that a range of characters stands for. -/
def byteRanges (a b : Char) : List (UInt8 × UInt8) :=
  let one (x : UInt8) := (x, x)
  if a = b then (charBytes a).map one
  else
    let first := charBytes a
    let last := charBytes b
    first.dropLast.map one ++ [(first.getLastD 0, last.headD 0)] ++ (last.drop 1).map one

/-- What comes of the inside of a bracket. -/
inductive Bracket where
  | complete (ranges : List (Char × Char)) (rest : List Char)
  | unclosed
  /-- A range that ends before it starts. -/
  | invalid

/-- Reads the inside of a bracket, given the ranges so far in reverse, and whether the last of them
waits for its end. A closing bracket that comes first stands for itself. -/
def bracket : (isFirst waiting : Bool) → List (Char × Char) → List Char → Bracket
  | _, _, _, [] => .unclosed
  | isFirst, waiting, ranges, c :: rest =>
    if c = ']' ∧ ¬ isFirst then
      .complete (if waiting then ('-', '-') :: ranges else ranges).reverse rest
    else if c = '-' ∧ ¬ isFirst ∧ ¬ waiting then bracket false true ranges rest
    else
      match waiting, ranges with
      | true, (a, _) :: others =>
        if c < a then .invalid else bracket false false ((a, c) :: others) rest
      | _, _ => bracket false false ((c, c) :: ranges) rest

/-- The characters that make a bracket one of what may not stand in its place. -/
def isNegation (c : Char) : Bool := c == '!' || c == '^'

/-- A token for a bracket, with the rest of the text. -/
def readBracket (text : List Char) : Option (Option (Token × List Char)) :=
  let (negated, inside) :=
    match text with
    | c :: rest => if isNegation c then (true, rest) else (false, text)
    | [] => (false, [])
  match bracket true false [] inside with
  | .complete ranges rest =>
    some (some (.oneOf negated (ranges.flatMap fun r => byteRanges r.1 r.2), rest))
  | .unclosed => some none
  | .invalid => none

/-- Reads at most `limit` parts of a pattern. -/
def readFrom : (limit : Nat) → Reading → List Char → Option (List Row)
  | 0, _, _ => none
  | limit + 1, r, text =>
    match text with
    | [] => if r.braces.isEmpty then some (r.rows.map List.reverse) else none
    | '?' :: rest => readFrom limit (r.push '?' [.any]) rest
    | '*' :: '*' :: rest =>
      let (r, rest) := r.twoStars rest
      readFrom limit r rest
    | '*' :: rest => readFrom limit (r.push '*' [.star]) rest
    | '[' :: rest =>
      match readBracket rest with
      | some (some (token, rest)) => readFrom limit (r.push ']' [token]) rest
      | some none => readFrom limit (r.push '[' [.literal 0x5B]) rest
      | none => none
    | '{' :: rest => readFrom limit r.openBrace rest
    | ',' :: rest => readFrom limit r.comma rest
    | '}' :: rest =>
      match r.closeBrace? with
      | some r => readFrom limit r rest
      | none => none
    | ['\\'] => none
    | '\\' :: c :: rest => readFrom limit (r.push c ((charBytes c).map .literal)) rest
    | c :: rest => readFrom limit (r.push c ((charBytes c).map .literal)) rest

/-- Lets a pattern that says of directories alone where they come first stand for everything. Inside
braces it does not. -/
def widened (text : List Char) (rows : List Row) : List Row :=
  if rows = [[.directoriesFirst]] ∧ ¬ text.contains '{' then [[.everything]] else rows

def ofText? (text : List Char) : Option (List Row) :=
  (readFrom (text.length + 1) {} text).map (widened text)

/-- Whether one of the rows of a pattern takes a whole byte string. -/
def matchesAny (rows : List Row) (bytes : Bytes) : Bool := rows.any fun row => fits row bytes

end ClassCatalog.Glob

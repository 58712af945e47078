import ClassCatalog.Disk.Glob
import ClassCatalog.Text.Split

/-!
# Ignore rules

A file of ignore rules has a pattern on each line. The last rule that fits a path decides whether it
is ignored or, behind an exclamation mark, kept. A pattern without a slash fits names at any depth,
one with a slash only the path from the directory of the file; a slash at its end means that it is for
directories. Lines that are no pattern are passed over.
-/

namespace ClassCatalog

structure IgnoreRule where
  /-- Whether what fits is kept. -/
  keeps : Bool
  directoriesOnly : Bool
  pattern : List Glob.Row
  deriving Inhabited

/-- What rules say of a path. -/
inductive Verdict where
  | ignored
  | kept
  deriving DecidableEq, Repr

namespace IgnoreRule

/-- The line without the blanks at its end, unless the last of them is escaped. -/
def trimEnd (line : List Char) : List Char :=
  if ['\\', ' '].isSuffixOf line then line
  else (line.reverse.dropWhile Text.isBlank).reverse

/-- Makes a pattern fit at any depth if it says nothing of depth. -/
def atAnyDepth (anchored : Bool) (pattern : List Char) : List Char :=
  if anchored ∨ pattern.contains '/' ∨ pattern = ['*', '*'] then pattern
  else ['*', '*', '/'] ++ pattern

/-- Makes a pattern for everything in a directory not fit the directory. -/
def insideOnly (pattern : List Char) : List Char :=
  if ['/', '*', '*'].isSuffixOf pattern then pattern ++ ['/', '*'] else pattern

/-- Takes the slash off the end of a pattern, with a backslash before it, and tells whether there was
one. -/
def cutSlash (pattern : List Char) : Bool × List Char :=
  match pattern.reverse with
  | '/' :: '\\' :: rest => (true, rest.reverse)
  | '/' :: rest => (true, rest.reverse)
  | _ => (false, pattern)

/-- The marks at the start of a line: whether it keeps, whether it is anchored, and what follows. -/
def marks : List Char → Bool × Bool × List Char
  | '\\' :: '!' :: rest => (false, false, '!' :: rest)
  | '\\' :: '#' :: rest => (false, false, '#' :: rest)
  | '!' :: '/' :: rest => (true, true, rest)
  | '!' :: rest => (true, false, rest)
  | '/' :: rest => (false, true, rest)
  | line => (false, false, line)

/-- The rule on a line. -/
def ofLine? (line : List Char) : Option IgnoreRule :=
  if line.head? = some '#' then none
  else
    let line := trimEnd line
    if line = [] then none
    else
      let (keeps, anchored, rest) := marks line
      let (directoriesOnly, pattern) := cutSlash rest
      (Glob.ofText? (insideOnly (atAnyDepth anchored pattern))).map fun pattern =>
        { keeps, directoriesOnly, pattern }

/-- What a rule says of a path. -/
def verdict? (r : IgnoreRule) (path : Bytes) (isDirectory : Bool) : Option Verdict :=
  if (isDirectory || !r.directoriesOnly) && Glob.matchesAny r.pattern path then
    some (if r.keeps then .kept else .ignored)
  else none

end IgnoreRule

namespace IgnoreRules

/-- The mark of a text in Unicode. -/
def byteOrderMark : Char := '\uFEFF'

def lines (bytes : Bytes) : List Bytes :=
  (Text.splitAll 0x0A bytes).map fun line =>
    if line.getLast? = some 0x0D then line.dropLast else line

/-- The texts of lines up to the first that is not UTF-8. -/
def texts : List Bytes → List (List Char)
  | [] => []
  | line :: rest =>
    match Utf8.decode? line with
    | some text => text.toList :: texts rest
    | none => []

def ofBytes (bytes : Bytes) : List IgnoreRule :=
  match texts (lines bytes) with
  | [] => []
  | first :: rest => (first.dropWhile (· == byteOrderMark) :: rest).filterMap IgnoreRule.ofLine?

/-- What rules say of a path: the last one that fits decides. -/
def verdict? (rules : List IgnoreRule) (path : Bytes) (isDirectory : Bool) : Option Verdict :=
  rules.reverse.findSome? fun r => r.verdict? path isDirectory

end IgnoreRules

end ClassCatalog

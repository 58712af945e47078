import ClassCatalog.Container.Location

/-!
# Container identities

The identity of a container is what is cheap to learn of its content: its path, its size, when it
last changed and, if the policy asks for it, a hash. An index may be used again only for the very
identity it was built from.
-/

namespace ClassCatalog

/-- What an identity holds besides size and time. -/
inductive IdentityPolicy where
  | timestampSize
  | contentDigest
  deriving DecidableEq, Repr, Inhabited

namespace IdentityPolicy

/-- The policy with one of the names it goes by, in either case of the letters. -/
def ofName? (text : String) : Option IdentityPolicy :=
  let name := Text.lowerAscii text
  if ["timestamp", "timestamp-size", "stat"].contains name then some timestampSize
  else if ["digest", "content-digest", "sha256"].contains name then some contentDigest
  else none

/-- Says that a name is no policy. -/
def unknown (text : String) : String := "unknown identity policy: " ++ Text.lowerAscii text

def name : IdentityPolicy → String
  | timestampSize => "timestamp-size"
  | contentDigest => "content-digest"

end IdentityPolicy

/-- What is cheap to learn of a container. -/
structure Identity where
  /-- The logical path. -/
  path : String
  size : UInt64
  /-- Nanoseconds since 1970. -/
  lastModified : UInt64
  digest : Option String := none
  deriving DecidableEq, Repr, Inhabited

namespace Identity

/-- How many bytes of a digest a stamp shows. -/
def stampDigestBytes : Nat := 12

/-- The first `count` bytes of a text, unless that would cut a character. -/
def cut? (count : Nat) (text : String) : Option String :=
  Utf8.decode? ((Utf8.encode text).take count)

/-- The short form: size, time and the start of the digest. There is none if the start of the digest
ends inside a character. -/
def stamp? (i : Identity) : Option String :=
  let plain := toString i.size.toNat ++ "@" ++ toString i.lastModified.toNat
  match i.digest with
  | none => some plain
  | some digest => (cut? stampDigestBytes digest).map fun start => plain ++ "#" ++ start

end Identity

end ClassCatalog

import ClassCatalog.Container.Entry
import ClassCatalog.Container.Identity
import ClassCatalog.Container.Policy

/-!
# What the cache works on

The cache sees containers and stored bytes through an environment: operations on a state `ω` of which
it knows nothing more. A container can be asked for its size and time and for its class entries; the
store is a map from keys to bytes of which every operation may fail.

Two things can cut an enumeration short. The caller's own request to cancel may arrive between two
entries. A request of another caller who shares the work may end it before the first entry; `pending`
bounds how often that will still happen.
-/

namespace ClassCatalog

inductive StoreError where
  | readOnly
  | io (reason : String)
  | backend (reason : String)
  deriving DecidableEq, Repr

def StoreError.message : StoreError → String
  | readOnly => "cache store is read-only"
  | io reason => "cache store I/O error: " ++ reason
  | backend reason => "cache store backend error: " ++ reason

/-- A map from keys to bytes, as part of a state. -/
structure Store (ω : Type) where
  get : String → ω → Except StoreError (Option Bytes)
  /-- Replaces the bytes under a key in one step. -/
  put : String → Bytes → ω → Except StoreError Unit × ω
  /-- Whether there was something under the key. -/
  delete : String → ω → Except StoreError Bool × ω
  size : ω → Except StoreError Nat
  clear : ω → Except StoreError Unit × ω
  /-- Where the store lives, in words. -/
  description : String

namespace Store

variable {ω : Type}

/-- The same store, refusing every change. -/
def readOnly (s : Store ω) : Store ω :=
  { get := s.get
    put := fun _ _ w => (.error .readOnly, w)
    delete := fun _ w => (.error .readOnly, w)
    size := s.size
    clear := fun w => (.error .readOnly, w)
    description := s.description ++ " (read-only)" }

/-- The store, refusing every change if `restricted`. -/
def restrict (restricted : Bool) (s : Store ω) : Store ω := if restricted then s.readOnly else s

end Store

structure ContainerStat where
  size : UInt64
  /-- Nanoseconds since 1970. -/
  lastModified : UInt64
  deriving DecidableEq, Repr, Inhabited

/-- The size of a container whose parts have these sizes. -/
def ContainerStat.totalSize (sizes : List Nat) : UInt64 :=
  UInt64.ofNat (sizes.foldl (fun total size => total + size) 0)

/-- What happens while a container is enumerated. -/
inductive Delivery where
  | entry (e : ClassEntry)
  /-- The caller asks to cancel. -/
  | cancel
  deriving DecidableEq, Repr

/-- The course of an enumeration. -/
structure Enumeration where
  deliveries : List Delivery := []
  /-- Why it breaks off behind the last delivery, if it does. -/
  failure : Option String := none
  deriving DecidableEq, Repr, Inhabited

def Enumeration.entries (e : Enumeration) : List ClassEntry :=
  e.deliveries.filterMap fun | .entry x => some x | .cancel => none

/-- Whether the caller asks to cancel during an enumeration. -/
def Enumeration.cancels (e : Enumeration) : Bool := e.deliveries.contains .cancel

/-- What comes of asking for the entries of a container. -/
inductive Listing where
  | delivered (course : Enumeration)
  /-- Another caller's request to cancel ended it. -/
  | interrupted
  deriving DecidableEq, Repr

/-- Containers and a store, as parts of a state. -/
structure Environment (ω : Type) where
  /-- Size and time, or why the container cannot be read. -/
  stat : Location → ω → Except String ContainerStat
  enumerate : Location → ω → Listing × ω
  /-- The hash of a container that has a cheaper one than over its entries. -/
  ownDigest : Location → ω → Option (Except String String)
  store : Store ω
  /-- How many enumerations at most will be interrupted. -/
  pending : ω → Nat

end ClassCatalog

import ClassCatalog.Store.Database

/-!
# Processes that share a key

Any number of processes are at work on one key of a store. Each has one errand there: it puts bytes under the
key, gets what is under it, or opens the store. An errand is run step by step, a step being one transaction
on a database or one call that touches a directory, and between two steps of a process the others make as many
of theirs as they like.

What a process has open in a directory is a file and not a name. It is written and read to the end whatever
its name is by then, and whether or not it has one (`Folder`).
-/

namespace ClassCatalog

/-- What a process is about, and how far it has come. -/
inductive Errand (π ρ τ : Type) where
  | toPut (bytes : Bytes)
  | putting (bytes : Bytes) (p : π)
  | put (bytes : Bytes) (result : Except StoreError Unit)
  | toGet
  | getting (r : ρ)
  | got (value : Option Bytes)
  | toOpen
  | opening (o : τ)
  | opened

namespace Errand

variable {π ρ τ : Type}

def afterPut (bytes : Bytes) : π ⊕ Except StoreError Unit → Errand π ρ τ
  | .inl p => putting bytes p
  | .inr result => put bytes result

def afterGet : ρ ⊕ Option Bytes → Errand π ρ τ
  | .inl r => getting r
  | .inr value => got value

def afterOpen : Option τ → Errand π ρ τ
  | some o => opening o
  | none => opened

end Errand

/-- How a store goes about one key. -/
structure Protocol (σ π ρ τ : Type) where
  /-- The bytes under the key. -/
  live : σ → Option Bytes
  beginPut : Bytes → σ → (π ⊕ Except StoreError Unit) × σ
  continuePut : Bytes → π → σ → (π ⊕ Except StoreError Unit) × σ
  beginGet : σ → ρ ⊕ Option Bytes
  finishGet : ρ → σ → Option Bytes
  beginOpen : σ → Option τ
  finishOpen : τ → σ → σ

/-- The next step of an errand, unless it is done. -/
def Protocol.next {σ π ρ τ : Type} (P : Protocol σ π ρ τ) (w : σ) :
    Errand π ρ τ → Option (Errand π ρ τ × σ)
  | .toPut bytes => some (.afterPut bytes (P.beginPut bytes w).1, (P.beginPut bytes w).2)
  | .putting bytes p => some (.afterPut bytes (P.continuePut bytes p w).1, (P.continuePut bytes p w).2)
  | .put .. => none
  | .toGet => some (.afterGet (P.beginGet w), w)
  | .getting r => some (.got (P.finishGet r w), w)
  | .got _ => none
  | .toOpen => some (.afterOpen (P.beginOpen w), w)
  | .opening o => some (.opened, P.finishOpen o w)
  | .opened => none

/-- Processes at work on one key. -/
structure Team (ι σ π ρ τ : Type) where
  shared : σ
  errands : ι → Errand π ρ τ

namespace Team

variable {ι σ π ρ τ : Type} [DecidableEq ι] (P : Protocol σ π ρ τ)

/-- A process takes a step, if its errand is not done. -/
def step (s : Team ι σ π ρ τ) (i : ι) : Team ι σ π ρ τ :=
  match P.next s.shared (s.errands i) with
  | none => s
  | some (e, w) => { shared := w, errands := fun j => if j = i then e else s.errands j }

/-- Gives processes turns, one after the other. -/
def play (s : Team ι σ π ρ τ) (turns : List ι) : Team ι σ π ρ τ := turns.foldl (step P) s

end Team

/-! ### Databases -/

/-- Bytes are put in two transactions, if there is space for them. Whoever opens the database first looks whether
something is staged, and then drops it. -/
def Database.protocol (key : String) : Protocol Database Unit Empty Unit where
  live b := b.indexes.find? key
  beginPut bytes b :=
    if isKey key then
      match checked hasSpace (fun b => .ok (b.stage key bytes)) b with
      | .ok b => (.inl (), b)
      | .error e => (.inr (.error e), b)
    else (.inr (.error badKey), b)
  continuePut _ _ b :=
    match checked hasSpace (commit key) b with
    | .ok b => (.inr (.ok ()), b)
    | .error e => (.inr (.error e), b)
  beginGet b := .inr (b.indexes.find? key)
  finishGet := nofun
  beginOpen b := if b.staging.size = 0 then none else some ()
  finishOpen _ := sweep

/-! ### Directories -/

/-- The two names that a directory has for a key, and the files, by number. -/
structure Folder where
  files : Nat → Bytes
  staging : Option Nat
  blob : Option Nat
  /-- The number of the next file that is made. -/
  fresh : Nat

namespace Folder

/-- How far the writing of a file has come. -/
inductive Writing where
  /-- The file is open and has yet to be written. -/
  | created (file : Nat)
  /-- The staging file has yet to be renamed. -/
  | written
  /-- That has failed, and what is staged has yet to be taken away. -/
  | refused (e : DiskError)
  deriving DecidableEq, Repr

def setFile (f : Folder) (n : Nat) (bytes : Bytes) : Folder :=
  { f with files := fun k => if k = n then bytes else f.files k }

/-- The staging file, emptied or made. -/
def create (f : Folder) : Nat × Folder :=
  match f.staging with
  | some n => (n, f.setFile n [])
  | none => (f.fresh, { f.setFile f.fresh [] with staging := some f.fresh, fresh := f.fresh + 1 })

/-- Writes bytes into a file from its beginning on. What the file has behind them stays. -/
def write (f : Folder) (n : Nat) (bytes : Bytes) : Folder :=
  f.setFile n (bytes ++ (f.files n).drop bytes.length)

/-- Gives the staging file the name of the blob. -/
def rename (f : Folder) : Except DiskError Folder :=
  match f.staging with
  | none => .error .notFound
  | some n => .ok { f with staging := none, blob := some n }

def protocol : Protocol Folder Writing Nat Empty where
  live f := f.blob.map f.files
  beginPut _ f := (.inl (.created f.create.1), f.create.2)
  continuePut bytes p f :=
    match p with
    | .created n => (.inl .written, f.write n bytes)
    | .written =>
      match f.rename with
      | .ok f => (.inr (.ok ()), f)
      | .error e => (.inl (.refused e), f)
    | .refused e => (.inr (.error (.ofDisk e)), { f with staging := none })
  beginGet f :=
    match f.blob with
    | some n => .inl n
    | none => .inr none
  finishGet n f := some (f.files n)
  beginOpen _ := none
  finishOpen := nofun

end Folder

end ClassCatalog

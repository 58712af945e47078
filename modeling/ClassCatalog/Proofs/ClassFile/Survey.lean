import ClassCatalog.Proofs.ClassFile.Format

/-!
# Class files attribute by attribute

`survey` goes through the body of a class file and notes every attribute that can be read, with what its body
holds, up to the first fault. What it notes is grouped by visits: a field, a method, or one attribute of the
class itself. Only the last visit can be broken off by a fault. The parts that `readBody` makes are those of the
visits that were not (`agrees_survey`).
-/

namespace ClassCatalog.ClassFile

open Read

/-- What an attribute stands on. A method is known by its key. -/
inductive Site where
  | field (name : String)
  | method (key : String)
  | classItself
  deriving DecidableEq, Repr

def Site.owner : Site → Attribute.Owner
  | field _ => .field
  | method _ => .method
  | classItself => .classItself

/-- The site of the field with this name, whatever its descriptor. -/
def Site.ofField (name _descriptor : String) : Site := .field name

def Site.ofMethod (name descriptor : String) : Site := .method (ClassRecord.methodKey name descriptor)

/-- An attribute that was read: what it says is what its body holds. -/
structure Sighting (pool : ConstantPool) (site : Site) where
  name : String
  body : Bytes
  content : Attribute
  holds : Attribute.Holds pool site.owner name body content

/-- Reads the next attribute. -/
def Sighting.read (pool : ConstantPool) (site : Site) : Read (Sighting pool site) := do
  let nameIndex ← Read.u2
  let name ← pool.utf8 nameIndex
  let length ← Read.u4
  let body ← Read.slice length.toNat
  match h : Attribute.ofBody pool site.owner name body with
  | .ok content => return ⟨name, body, content, Attribute.holds_of_ofBody h⟩
  | .error e => throw e

/-- A field, a method or an attribute of the class itself, and the attributes that were read of it. -/
structure Visit (pool : ConstantPool) where
  site : Site
  sightings : List (Sighting pool site)

/-- The visits that came to their end, the one that a fault broke off, and the cursor behind them or the
fault. -/
structure Survey (pool : ConstantPool) where
  whole : List (Visit pool)
  broken : Option (Visit pool)
  next : Except ParseError Cursor

/-- Reads `n` items in a row, keeping those before a fault. -/
def Read.asFar {α : Type} (item : Read α) : Nat → Cursor → List α × Except ParseError Cursor
  | 0, c => ([], .ok c)
  | n + 1, c =>
    match item.runAt c with
    | (.ok a, c) =>
      let others := asFar item n c
      (a :: others.1, others.2)
    | (.error e, _) => ([], .error e)

/-- Reads what stands before the attributes of a member: its name, its descriptor and how many they are. -/
def readHead (pool : ConstantPool) : Read (String × String × UInt16) := do
  Read.skip 2
  let nameIndex ← Read.u2
  let name ← pool.utf8 nameIndex
  let descriptorIndex ← Read.u2
  let descriptor ← pool.utf8 descriptorIndex
  let count ← Read.u2
  return (name, descriptor, count)

namespace Survey

variable {pool : ConstantPool}

/-- Goes on from where the survey got to. -/
def andThen (s : Survey pool) (f : Cursor → Survey pool) : Survey pool :=
  match s.next with
  | .ok c =>
    let t := f c
    ⟨s.whole ++ t.whole, t.broken, t.next⟩
  | .error e => ⟨s.whole, s.broken, .error e⟩

/-- The visit to a member, which is known by its name and descriptor as `site` says. -/
def member (site : String → String → Site) (c : Cursor) : Survey pool :=
  match (readHead pool).runAt c with
  | (.ok (name, descriptor, count), c) =>
    match Read.asFar (Sighting.read pool (site name descriptor)) count.toNat c with
    | (sightings, .ok c) => ⟨[⟨site name descriptor, sightings⟩], none, .ok c⟩
    | (sightings, .error e) => ⟨[], some ⟨site name descriptor, sightings⟩, .error e⟩
  | (.error e, _) => ⟨[], none, .error e⟩

/-- The visit to an attribute of the class itself. -/
def classAttribute (c : Cursor) : Survey pool :=
  match (Sighting.read pool .classItself).runAt c with
  | (.ok sighting, c) => ⟨[⟨.classItself, [sighting]⟩], none, .ok c⟩
  | (.error e, _) => ⟨[], none, .error e⟩

def repeated (item : Cursor → Survey pool) : Nat → Cursor → Survey pool
  | 0, c => ⟨[], none, .ok c⟩
  | n + 1, c => (item c).andThen (repeated item n)

def counted (item : Cursor → Survey pool) (c : Cursor) : Survey pool :=
  match Read.u2.runAt c with
  | (.ok n, c) => repeated item n.toNat c
  | (.error e, _) => ⟨[], none, .error e⟩

end Survey

/-- Goes through the body of a class file: fields, methods, attributes of the class. -/
def survey (pool : ConstantPool) (c : Cursor) : Survey pool :=
  ((Survey.counted (Survey.member Site.ofField) c).andThen
    (Survey.counted (Survey.member Site.ofMethod))).andThen
    (Survey.counted Survey.classAttribute)

/-! ### Visits and parts -/

namespace Visit

variable {pool : ConstantPool}

/-- What the attributes say. -/
def contents (v : Visit pool) : List Attribute := v.sightings.map (·.content)

/-- What a visit gives for the record. -/
def part (v : Visit pool) : Part :=
  match v.site with
  | .field name => .field name (v.contents.flatMap Attribute.usages)
  | .method key => .method key (v.contents.flatMap Attribute.usages) (Attribute.mergedParameters v.contents)
  | .classItself => .classAttribute (v.contents.flatMap Attribute.usages)

end Visit

namespace Survey

variable {pool : ConstantPool}

/-- The parts are those of the visits that came to their end, and both went equally far. -/
structure Agrees (s : Survey pool) (p : Progress) : Prop where
  parts : p.parts = s.whole.map Visit.part
  next : p.next = s.next
  unbroken (c : Cursor) : s.next = .ok c → s.broken = none

theorem agrees_error (e : ParseError) (broken : Option (Visit pool)) :
    Agrees ⟨[], broken, .error e⟩ ⟨[], .error e⟩ := ⟨rfl, rfl, nofun⟩

theorem Agrees.andThen {s : Survey pool} {p : Progress} {f : Cursor → Survey pool} {g : Cursor → Progress}
    (h : s.Agrees p) (hf : ∀ c, (f c).Agrees (g c)) : (s.andThen f).Agrees (p.andThen g) := by
  rcases s with ⟨whole, broken, next⟩
  rcases p with ⟨parts, next'⟩
  rcases h with ⟨hparts, hnext, hunbroken⟩
  simp only at hparts hnext hunbroken
  subst hnext hparts
  cases next' with
  | error e => exact ⟨rfl, rfl, nofun⟩
  | ok c =>
    rcases hf c with ⟨hparts, hnext, hunbroken⟩
    refine ⟨?_, hnext, hunbroken⟩
    simp [Survey.andThen, Progress.andThen, hparts]

theorem run_succ_eq (part : Read Part) (n : Nat) (c : Cursor) :
    Progress.run part (n + 1) c = (Progress.run part 1 c).andThen (Progress.run part n) := by
  rw [Progress.run, Progress.run]
  cases part.runAt c with
  | mk result d => cases result <;> rfl

theorem agrees_repeated {item : Cursor → Survey pool} {part : Read Part}
    (h : ∀ c, (item c).Agrees (Progress.run part 1 c)) (n : Nat) (c : Cursor) :
    (repeated item n c).Agrees (Progress.run part n c) := by
  induction n generalizing c with
  | zero => exact ⟨rfl, rfl, fun _ _ => rfl⟩
  | succ n ih =>
    rw [run_succ_eq]
    exact (h c).andThen ih

theorem agrees_counted {item : Cursor → Survey pool} {part : Read Part}
    (h : ∀ c, (item c).Agrees (Progress.run part 1 c)) (c : Cursor) :
    (counted item c).Agrees (Progress.counted part c) := by
  unfold counted Progress.counted
  cases Read.u2.runAt c with
  | mk result d =>
    cases result with
    | ok n => exact agrees_repeated h n.toNat d
    | error e => exact agrees_error e none

end Survey

/-! ### Reading as far as it goes -/

namespace Read

variable {α β : Type} {item : Read α}

theorem runAt_repeated_of_asFar {n : Nat} {c : Cursor} :
    (∀ as c', asFar item n c = (as, .ok c') → (repeated item n).runAt c = (.ok as, c')) ∧
      ∀ as e, asFar item n c = (as, .error e) → ∃ c', (repeated item n).runAt c = (.error e, c') := by
  induction n generalizing c with
  | zero =>
    constructor
    · intro as c' h
      cases h
      rfl
    · intro as e h
      cases h
  | succ n ih =>
    rw [asFar, repeated, runAt_bind]
    cases hfirst : item.runAt c with
    | mk result d =>
      cases result with
      | error e =>
        constructor
        · intro as c' h
          cases h
        · intro as e' h
          cases h
          exact ⟨d, rfl⟩
      | ok a =>
        simp only [runAt_bind]
        constructor
        · intro as c' h
          rcases Prod.mk.inj h with ⟨rfl, hnext⟩
          rw [ih.1 _ c' (Prod.ext rfl hnext)]
          rfl
        · intro as e h
          rcases Prod.mk.inj h with ⟨rfl, hnext⟩
          rcases ih.2 _ e (Prod.ext rfl hnext) with ⟨c', hrest⟩
          rw [hrest]
          exact ⟨c', rfl⟩

theorem runAt_map (p : Read α) (g : α → β) (c : Cursor) :
    (g <$> p).runAt c =
      match p.runAt c with
      | (.ok a, c) => (.ok (g a), c)
      | (.error e, c) => (.error e, c) := by
  rw [map_eq_pure_bind, runAt_bind]
  rfl

theorem repeated_map (item : Read α) (g : α → β) (n : Nat) :
    repeated (g <$> item) n = List.map g <$> repeated item n := by
  induction n with
  | zero => rfl
  | succ n ih => simp [repeated, ih]

end Read

/-- An attribute is read whether its body is noted or not. -/
theorem Sighting.content_read (pool : ConstantPool) (site : Site) :
    Sighting.content <$> Sighting.read pool site = Attribute.read pool site.owner := by
  unfold Sighting.read Attribute.read
  simp only [map_bind]
  congr; funext nameIndex
  congr; funext name
  congr; funext length
  congr; funext body
  let read : Except ParseError Attribute → Read Attribute := fun x => liftM x
  split
  next content h => exact (congrArg read h).symm
  next e h => exact (congrArg read h).symm

theorem readMember_eq (pool : ConstantPool) (owner : Attribute.Owner) :
    Part.readMember pool owner = do
      let head ← readHead pool
      let attributes ← Read.repeated (Attribute.read pool owner) head.2.2.toNat
      return (head.1, head.2.1, attributes) := by
  simp [Part.readMember, readHead]

namespace Survey

variable {pool : ConstantPool}

/-- A member is visited as it is read, if what is read of its attributes is the part of the visit. -/
theorem agrees_member (site : String → String → Site) {owner : Attribute.Owner}
    (howner : ∀ name descriptor, (site name descriptor).owner = owner)
    {give : String × String × List Attribute → Part}
    (hgive : ∀ name descriptor (sightings : List (Sighting pool (site name descriptor))),
      give (name, descriptor, sightings.map Sighting.content) = Visit.part ⟨site name descriptor, sightings⟩)
    (c : Cursor) :
    (member site c : Survey pool).Agrees (Progress.run (give <$> Part.readMember pool owner) 1 c) := by
  rw [readMember_eq, Progress.run, member]
  simp only [runAt_map, runAt_bind]
  cases (readHead pool).runAt c with
  | mk result d =>
    cases result with
    | error e => exact agrees_error e none
    | ok head =>
      rcases head with ⟨name, descriptor, count⟩
      dsimp only
      rw [← howner name descriptor, ← Sighting.content_read, repeated_map]
      simp only [runAt_map]
      cases hfar : asFar (Sighting.read pool (site name descriptor)) count.toNat d with
      | mk sightings next =>
        cases next with
        | ok c' =>
          rw [runAt_repeated_of_asFar.1 _ _ hfar]
          refine ⟨?_, rfl, fun _ _ => rfl⟩
          exact congrArg (fun part => [part]) (hgive name descriptor sightings)
        | error e =>
          rcases runAt_repeated_of_asFar.2 _ _ hfar with ⟨c', hrun⟩
          rw [hrun]
          exact agrees_error e _

theorem agrees_field (c : Cursor) :
    (member Site.ofField c : Survey pool).Agrees (Progress.run (Part.readField pool) 1 c) := by
  have hread : Part.readField pool =
      (fun m => .field m.1 (m.2.2.flatMap Attribute.usages)) <$> Part.readMember pool .field := rfl
  rw [hread]
  refine agrees_member Site.ofField (fun _ _ => rfl) ?_ c
  intro name descriptor sightings
  rfl

theorem agrees_method (c : Cursor) :
    (member Site.ofMethod c : Survey pool).Agrees
      (Progress.run (Part.readMethod pool) 1 c) := by
  have hread : Part.readMethod pool =
      (fun m => .method (ClassRecord.methodKey m.1 m.2.1) (m.2.2.flatMap Attribute.usages)
        (Attribute.mergedParameters m.2.2)) <$> Part.readMember pool .method := rfl
  rw [hread]
  refine agrees_member Site.ofMethod (fun _ _ => rfl) ?_ c
  intro name descriptor sightings
  rfl

theorem agrees_classAttribute (c : Cursor) :
    (classAttribute c : Survey pool).Agrees (Progress.run (Part.readClassAttribute pool) 1 c) := by
  have hread : Part.readClassAttribute pool =
      (fun a => .classAttribute a.usages) <$> Attribute.read pool Site.classItself.owner := rfl
  rw [hread, ← Sighting.content_read, Progress.run, classAttribute]
  simp only [runAt_map]
  cases (Sighting.read pool .classItself).runAt c with
  | mk result d =>
    cases result with
    | error e => exact agrees_error e none
    | ok sighting => exact ⟨by simp [Visit.part, Visit.contents, Progress.run], rfl, fun _ _ => rfl⟩

end Survey

/-- The parts of a body are those of the visits that came to their end. -/
theorem agrees_survey (pool : ConstantPool) (c : Cursor) : (survey pool c).Agrees (readBody pool c) :=
  ((Survey.agrees_counted Survey.agrees_field c).andThen (Survey.agrees_counted Survey.agrees_method)).andThen
    (Survey.agrees_counted Survey.agrees_classAttribute)

end ClassCatalog.ClassFile

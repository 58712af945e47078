import ClassCatalog.Proofs.ClassFile.Format

/-!
# Counting levels

The readers of values and usages are told how many levels are left, so that they cannot go deeper. A program that
calls itself keeps a counter instead: it goes up where a usage or an array begins and down where it ends, and above
the limit reading stops. `Counting.value` and `Counting.usage` read so, with at most `calls` values inside one another;
what they would do after that is `beyond`. They do what the readers do, whatever `beyond` is (`Counting.Follows`):
the counter stays within one level more than the limit, and where reading succeeds it ends as it began.
-/

namespace ClassCatalog.ClassFile

open Read Format

/-- A cursor, the count of levels around it, and the highest count so far. -/
structure Gauge where
  cursor : Cursor
  depth : Nat := 0
  deepest : Nat := 0

/-- Reads and counts levels, or stops with a fault. -/
abbrev Counting := ExceptT ParseError (StateM Gauge)

namespace Counting

variable {α β : Type}

def runAt (m : Counting α) (g : Gauge) : Except ParseError α × Gauge := m.run.run g

/-- Reads at the cursor. -/
def read (p : Read α) : Counting α := ExceptT.mk fun g =>
  let (result, c) := p.runAt g.cursor
  (result, { g with cursor := c })

/-- Goes one level down, unless that is one too many. -/
def enter : Counting Unit := ExceptT.mk fun g =>
  let depth := g.depth + 1
  (if nestingLimit < depth then .error (.nestingTooDeep nestingLimit) else .ok (),
    { g with depth, deepest := max g.deepest depth })

def leave : Counting Unit := ExceptT.mk fun g => (.ok (), { g with depth := g.depth - 1 })

/-- Reads one level down. After a fault the counter stays there. -/
def inside (body : Counting α) : Counting α := do
  enter
  let a ← body
  leave
  return a

def repeated (item : Counting α) : Nat → Counting (List α)
  | 0 => pure []
  | n + 1 => do
    let first ← item
    let others ← repeated item n
    return first :: others

/-- The next byte, which stays where it is. -/
def peek : Counting (Option UInt8) := ExceptT.mk fun g => (.ok g.cursor.rest.head?, g)

variable (ctx : AttributeContext)

/-- A usage, given how to read the values of its elements. -/
def usageWith (value : Counting ElementValue) : Counting Usage := inside do
  let typeName ← read ctx.typeName
  let pairs ← read Read.u2
  let elements ← repeated (do
    let name ← read ctx.text
    let v ← value
    return (name, v)) pairs.toNat
  return ⟨typeName, ctx.retention, elements⟩

/-- The items of an array, given how to read one. -/
def itemsWith (value : Counting ElementValue) : Counting ElementValue := inside do
  let count ← read Read.u2
  let items ← repeated value count.toNat
  return .array items

/-- A value, given how to read those inside it. -/
def valueWith (value : Counting ElementValue) : Counting ElementValue := do
  let next ← peek
  if next = some (tag '@') then do
    let _ ← read Read.u1
    let u ← usageWith ctx value
    return .nested u
  else if next = some (tag '[') then do
    let _ ← read Read.u1
    itemsWith value
  else read (ctx.valueWith AttributeContext.tooDeep AttributeContext.tooDeep)

/-- A value with at most `calls` values inside one another, itself included. -/
def value (beyond : Counting ElementValue) : (calls : Nat) → Counting ElementValue
  | 0 => beyond
  | calls + 1 => valueWith ctx (value beyond calls)

def usage (beyond : Counting ElementValue) (calls : Nat) : Counting Usage := usageWith ctx (value ctx beyond calls)

/-- A counted list of usages. -/
def usages (beyond : Counting ElementValue) (calls : Nat) : Counting (List Usage) := do
  let count ← read Read.u2
  repeated (usage ctx beyond calls) count.toNat

/-- A counted list of usages for every parameter. -/
def parameters (beyond : Counting ElementValue) (calls : Nat) : Counting (List (List Usage)) := do
  let count ← read Read.u1
  repeated (usages ctx beyond calls) count.toNat

/-! ### Doing what a reader does -/

/-- With the counter at `depth`, `m` gives what `p` gives and leaves the cursor where `p` leaves it. The counter does
not go above one more than the limit, and it is at `depth` again unless there is a fault. -/
def Follows (m : Counting α) (p : Read α) (depth : Nat) : Prop :=
  ∀ g : Gauge, g.depth = depth → ∃ result g', m.runAt g = (result, g') ∧ p.runAt g.cursor = (result, g'.cursor) ∧
    g'.deepest ≤ max g.deepest (nestingLimit + 1) ∧ ∀ a, result = .ok a → g'.depth = depth

theorem runAt_bind (m : Counting α) (f : α → Counting β) (g : Gauge) :
    (m >>= f).runAt g =
      match m.runAt g with
      | (.ok a, g) => (f a).runAt g
      | (.error e, g) => (.error e, g) := by
  unfold runAt
  rw [ExceptT.run_bind, StateT.run_bind]
  cases m.run.run g with
  | mk r g => cases r <;> rfl

namespace Follows

variable {m : Counting α} {p : Read α} {f : α → Counting β} {q : α → Read β} {depth : Nat}

theorem pure (a : α) (depth : Nat) : Follows (pure a) (pure a) depth :=
  fun g hg => ⟨.ok a, g, rfl, rfl, Nat.le_max_left _ _, fun _ _ => hg⟩

theorem read (p : Read α) (depth : Nat) : Follows (read p) p depth :=
  fun _ hg => ⟨_, _, rfl, rfl, Nat.le_max_left _ _, fun _ _ => hg⟩

theorem bind (hm : Follows m p depth) (hf : ∀ a, Follows (f a) (q a) depth) :
    Follows (m >>= f) (p >>= q) depth := by
  intro g hg
  rcases hm g hg with ⟨result, g', hrun, hread, hdeepest, hdepth⟩
  rw [runAt_bind, Read.runAt_bind, hrun, hread]
  cases result with
  | error e => exact ⟨_, g', rfl, rfl, hdeepest, nofun⟩
  | ok a =>
    rcases hf a g' (hdepth a rfl) with ⟨result', g'', hrun', hread', hdeepest', hdepth'⟩
    exact ⟨result', g'', hrun', hread', by omega, hdepth'⟩

theorem map (hm : Follows m p depth) (h : α → β) :
    Follows (do let a ← m; return h a) (do let a ← p; return h a) depth := hm.bind fun a => pure (h a) depth

theorem repeated (hm : Follows m p depth) (n : Nat) : Follows (repeated m n) (Read.repeated p n) depth := by
  induction n with
  | zero => exact pure [] depth
  | succ n ih => exact hm.bind fun _ => ih.map _

/-- One level down, below the limit. -/
theorem inside (hm : Follows m p (depth + 1)) (hdepth : depth < nestingLimit) : Follows (inside m) p depth := by
  intro g hg
  let g₁ : Gauge := { g with depth := g.depth + 1, deepest := max g.deepest (g.depth + 1) }
  have henter : enter.runAt g = (.ok (), g₁) := by
    show (if nestingLimit < g.depth + 1 then _ else _, g₁) = _
    rw [if_neg (by omega)]
  rcases hm g₁ (by simp [g₁, hg]) with ⟨result, g₂, hrun, hread, hdeepest, hback⟩
  have hbound : g₂.deepest ≤ max g.deepest (nestingLimit + 1) := by
    have hentered : g₁.deepest = max g.deepest (g.depth + 1) := rfl
    omega
  rw [Counting.inside, runAt_bind, henter]
  simp only [runAt_bind, hrun]
  cases result with
  | error e => exact ⟨_, g₂, rfl, hread, hbound, nofun⟩
  | ok a =>
    refine ⟨.ok a, { g₂ with depth := g₂.depth - 1 }, rfl, hread, hbound, fun _ _ => ?_⟩
    show g₂.depth - 1 = depth
    rw [hback a rfl, Nat.add_sub_cancel]

/-- At the limit nothing is read one level down. -/
theorem inside_limit (m : Counting α) : Follows (Counting.inside m) AttributeContext.tooDeep nestingLimit := by
  intro g hg
  have henter : enter.runAt g = (.error (.nestingTooDeep nestingLimit),
      { g with depth := g.depth + 1, deepest := max g.deepest (g.depth + 1) }) := by
    show (if nestingLimit < g.depth + 1 then _ else _, _) = _
    rw [if_pos (by omega)]
  rw [Counting.inside, runAt_bind, henter, hg]
  exact ⟨_, _, rfl, rfl, le_rfl, nofun⟩

end Follows

/-! ### Values and usages -/

variable {ctx : AttributeContext} {value : Counting ElementValue} {p : Read ElementValue} {depth : Nat}

theorem follows_usageWith (h : Follows value p (depth + 1)) (hdepth : depth < nestingLimit) :
    Follows (usageWith ctx value) (ctx.usageWith p) depth := by
  refine Follows.inside (.bind (.read _ _) fun typeName => .bind (.read _ _) fun pairs => ?_) hdepth
  have helement : Follows (do let name ← read ctx.text; let v ← value; return (name, v))
      (do let name ← ctx.text; let v ← p; return (name, v)) (depth + 1) := .bind (.read _ _) fun name => h.map _
  exact (helement.repeated pairs.toNat).map _

theorem follows_itemsWith (h : Follows value p (depth + 1)) (hdepth : depth < nestingLimit) :
    Follows (itemsWith value) (AttributeContext.itemsWith p) depth :=
  Follows.inside (.bind (.read _ _) fun count => (h.repeated count.toNat).map _) hdepth

/-- Behind its tag stands what nests in a value. -/
theorem runAt_valueWith_nested (usage items : Read ElementValue) (offset : Nat) (rest : Bytes) :
    (ctx.valueWith usage items).runAt ⟨offset, tag '@' :: rest⟩ = usage.runAt ⟨offset + 1, rest⟩ := by
  unfold AttributeContext.valueWith
  rw [Read.runAt_bind, show Read.u1.runAt ⟨offset, tag '@' :: rest⟩ = _ from reads_u1 (tag '@') offset rest]
  rfl

theorem runAt_valueWith_array (usage items : Read ElementValue) (offset : Nat) (rest : Bytes) :
    (ctx.valueWith usage items).runAt ⟨offset, tag '[' :: rest⟩ = items.runAt ⟨offset + 1, rest⟩ := by
  unfold AttributeContext.valueWith
  rw [Read.runAt_bind, show Read.u1.runAt ⟨offset, tag '[' :: rest⟩ = _ from reads_u1 (tag '[') offset rest]
  rfl

/-- A value with another tag is read without regard to what may nest. -/
theorem runAt_valueWith_flat (usage items usage' items' : Read ElementValue) {c : Cursor}
    (hnested : c.rest.head? ≠ some (tag '@')) (harray : c.rest.head? ≠ some (tag '[')) :
    (ctx.valueWith usage items).runAt c = (ctx.valueWith usage' items').runAt c := by
  unfold AttributeContext.valueWith
  rw [Read.runAt_bind, Read.runAt_bind]
  cases htag : Read.u1.runAt c with
  | mk result d =>
    cases result with
    | error e => rfl
    | ok b =>
      rcases gives_u1 _ _ _ htag with ⟨_, hrest, rfl⟩
      rw [hrest] at hnested harray
      dsimp only
      split
      case h_12 h => exact absurd (congrArg some (AttributeContext.tag_eq h)) hnested
      case h_13 h => exact absurd (congrArg some (AttributeContext.tag_eq h)) harray
      all_goals rfl

theorem follows_valueWith {usage items : Read ElementValue}
    (husage : Follows (do let u ← usageWith ctx value; return .nested u) usage depth)
    (hitems : Follows (itemsWith value) items depth) :
    Follows (valueWith ctx value) (ctx.valueWith usage items) depth := by
  rintro ⟨⟨offset, bytes⟩, counter, deepest⟩ hcounter
  have hpeek : peek.runAt ⟨⟨offset, bytes⟩, counter, deepest⟩ =
    (.ok bytes.head?, ⟨⟨offset, bytes⟩, counter, deepest⟩) := rfl
  have htag : ∀ b rest, (read Read.u1).runAt ⟨⟨offset, b :: rest⟩, counter, deepest⟩ =
      (.ok b, ⟨⟨offset + 1, rest⟩, counter, deepest⟩) := by
    intro b rest
    have hread : Read.u1.runAt ⟨offset, b :: rest⟩ = (.ok b, ⟨offset + 1, rest⟩) := reads_u1 b offset rest
    show ((Read.u1.runAt ⟨offset, b :: rest⟩).1, _) = _
    rw [hread]
  rw [valueWith, runAt_bind, hpeek]
  dsimp only
  by_cases hnested : bytes.head? = some (tag '@')
  · rcases List.head?_eq_some_iff.1 hnested with ⟨rest, rfl⟩
    rw [if_pos hnested, runAt_bind, htag, runAt_valueWith_nested]
    exact husage ⟨⟨offset + 1, rest⟩, counter, deepest⟩ hcounter
  rw [if_neg hnested]
  by_cases harray : bytes.head? = some (tag '[')
  · rcases List.head?_eq_some_iff.1 harray with ⟨rest, rfl⟩
    rw [if_pos harray, runAt_bind, htag, runAt_valueWith_array]
    exact hitems ⟨⟨offset + 1, rest⟩, counter, deepest⟩ hcounter
  rw [if_neg harray,
    runAt_valueWith_flat usage items AttributeContext.tooDeep AttributeContext.tooDeep hnested harray]
  exact Follows.read _ depth _ hcounter

/-- Counting up to the limit is the same as going down from it. -/
theorem follows_value (beyond : Counting ElementValue) {calls : Nat} (hdepth : depth ≤ nestingLimit)
    (hcalls : nestingLimit < depth + calls) :
    Follows (Counting.value ctx beyond calls) (ctx.value (nestingLimit - depth)) depth := by
  induction calls generalizing depth with
  | zero => omega
  | succ calls ih =>
    rcases Nat.lt_or_eq_of_le hdepth with hlt | rfl
    · have hlevels : nestingLimit - depth = nestingLimit - (depth + 1) + 1 := by omega
      have hinner : Follows (value ctx beyond calls) (ctx.value (nestingLimit - (depth + 1))) (depth + 1) :=
        ih (by omega) (by omega)
      rw [hlevels]
      exact follows_valueWith ((follows_usageWith hinner hlt).map _) (follows_itemsWith hinner hlt)
    · rw [Nat.sub_self]
      exact follows_valueWith (.bind (.inside_limit _) fun _ => .pure _ _) (.inside_limit _)

theorem follows_usage (beyond : Counting ElementValue) {calls : Nat} (hdepth : depth ≤ nestingLimit)
    (hcalls : nestingLimit < depth + calls) :
    Follows (usage ctx beyond calls) (ctx.usage (nestingLimit - depth)) depth := by
  rcases Nat.lt_or_eq_of_le hdepth with hlt | rfl
  · have hlevels : nestingLimit - depth = nestingLimit - (depth + 1) + 1 := by omega
    rw [hlevels]
    exact follows_usageWith (follows_value beyond (by omega) (by omega)) hlt
  · rw [Nat.sub_self]
    exact .inside_limit _

theorem follows_usages (beyond : Counting ElementValue) {calls : Nat} (hcalls : nestingLimit < calls) :
    Follows (usages ctx beyond calls) ctx.usages 0 :=
  .bind (.read _ _) fun count => (follows_usage beyond (Nat.zero_le _) (by omega)).repeated count.toNat

theorem follows_parameters (beyond : Counting ElementValue) {calls : Nat} (hcalls : nestingLimit < calls) :
    Follows (parameters ctx beyond calls) ctx.parameters 0 :=
  .bind (.read _ _) fun count => (follows_usages beyond hcalls).repeated count.toNat

end Counting

end ClassCatalog.ClassFile

import ClassCatalog.CommandLine.Run
import ClassCatalog.Proofs.Engine.OnDisk
import ClassCatalog.Proofs.Store.Reopening

/-!
# Read-only command lines

A command line that is read-only leaves the disk as it was or as opening the store leaves it
(`onlyOpened_run`), for the engine's store refuses every change. Opening is done once and for all
(`Store.openAt_again`), so a row of such command lines takes no blob away and changes none
(`read_only_runs_keep_blobs`). The command `clear` works on the files behind the engine's back and does not
ask whether it may (`read_only_clear_takes_blobs`), so that it has to be left out.
-/

namespace ClassCatalog

/-- The bytes that the store at a path has under a key once it is opened. -/
def Disk.retrieve (d : Disk) (path key : String) : Except StoreError (Option Bytes) := do
  let (s, d) ← Store.openAt path d
  s.get key d

/-- A disk is as it was, or as opening the store at a path leaves it. -/
def Disk.OnlyOpened (path : String) (d d' : Disk) : Prop :=
  d' = d ∨ ∃ s, Store.openAt path d = .ok (s, d')

theorem Disk.OnlyOpened.retrieve {path : String} {d d' : Disk} (h : d.OnlyOpened path d') (key : String) :
    d'.retrieve path key = d.retrieve path key := by
  rcases h with rfl | ⟨s, hopen⟩
  · rfl
  · obtain ⟨d'', hagain, hget⟩ := Store.openAt_again hopen
    simp only [Disk.retrieve, hopen, hagain, bind, Except.bind, hget key]

namespace CommandLine

variable {α : Type} {d : Disk} {path : String} {lookup : String → Option String} {args : List String}
  {i : Invocation} {o : EngineOptions}

theorem wp_askNames (v : View) (options : QueryOptions) (request : Query.Request) :
    wp (askNames v options request) (fun _ d' => d' = d) d := by
  unfold askNames
  split <;> rfl

/-- Answers come from the view. -/
theorem wp_onView (e : Engine) (v : View) (c : Command) : wp (onView e v c) (fun _ d' => d' = d) d := by
  cases c with
  | annotated => exact wp_askNames ..
  | assignable => exact wp_askNames ..
  | inPackage => exact wp_askNames ..
  | _ => rfl

/-! ### Command lines -/

/-- Read-only is in effect, by the switch or by the variable. -/
def Invocation.IsReadOnly (i : Invocation) (lookup : String → Option String) : Prop :=
  i.isOn "read-only" = true ∨
    ∃ text, lookup "ANNOCACHE_READ_ONLY" = some text ∧
      EngineOptions.readSwitch "ANNOCACHE_READ_ONLY" text = .ok true

theorem of_bind_eq_ok {ε α β : Type} {x : Except ε α} {f : α → Except ε β} {b : β} (h : x >>= f = .ok b) :
    ∃ a, x = .ok a ∧ f a = .ok b := by
  cases x with
  | error e => cases h
  | ok a => exact ⟨a, rfl, h⟩

theorem readOnly_of_withVariables {base : EngineOptions} {text : String}
    (h : EngineOptions.withVariables base lookup = .ok o) (htext : lookup "ANNOCACHE_READ_ONLY" = some text)
    (hread : EngineOptions.readSwitch "ANNOCACHE_READ_ONLY" text = .ok true) : o.readOnly = true := by
  obtain ⟨disabled, -, h⟩ := of_bind_eq_ok h
  obtain ⟨readOnly, hreadOnly, h⟩ := of_bind_eq_ok h
  obtain ⟨alwaysValid, -, h⟩ := of_bind_eq_ok h
  obtain ⟨identityPolicy, -, h⟩ := of_bind_eq_ok h
  obtain ⟨scanThreads, -, h⟩ := of_bind_eq_ok h
  obtain ⟨logQueries, -, h⟩ := of_bind_eq_ok h
  obtain rfl := Except.ok.inj h
  simp only [EngineOptions.readIfSet, htext, hread] at hreadOnly
  exact (Except.ok.inj hreadOnly).symm

/-- Either way the engine is told so. -/
theorem Invocation.IsReadOnly.readOnly (h : i.IsReadOnly lookup) (hoptions : i.engineOptions lookup = .ok o) :
    o.readOnly = true := by
  obtain ⟨base, hbase, hoptions⟩ := of_bind_eq_ok hoptions
  obtain rfl := Except.ok.inj hoptions
  show (base.readOnly || i.isOn "read-only") = true
  rcases h with hswitch | ⟨text, htext, hread⟩
  · rw [hswitch, Bool.or_true]
  · rw [readOnly_of_withVariables hbase htext hread, Bool.true_or]

/-- The arguments make a command that reads the store at a path, or does not need it, and is not to write it.
It is not the command that removes the store. -/
structure ReadsOnly (path : String) (lookup : String → Option String) (args : List String) : Prop where
  readOnly (i : Invocation) : Invocation.ofArguments args = .ok i → i.IsReadOnly lookup
  path_eq (i : Invocation) (o : EngineOptions) (p : String) : Invocation.ofArguments args = .ok i →
    i.engineOptions lookup = .ok o → o.resolvedPath lookup = .ok p → p = path
  ne_clear (i : Invocation) : Invocation.ofArguments args = .ok i → i.command ≠ .clear

/-! ### Commands -/

variable (hpath : ∀ p, o.resolvedPath lookup = .ok p → p = path) (hreadOnly : o.readOnly = true)

include hpath

/-- An engine that is opened for a command leaves the disk as opening its store does. -/
theorem wp_openEngine : wp (openEngine o lookup) (fun r d' => d.OnlyOpened path d' ∧
    ∀ env e w, r = .ok (env, e, w) → Engine.Opened o lookup d env e w ∧ w.disk = d') d := by
  unfold openEngine
  simp only [wp_bind, wp_get, andThen_ok]
  cases hopen : Engine.openOnDisk o lookup d with
  | error f =>
    refine ⟨.inl rfl, fun env e w heq => ?_⟩
    cases heq
  | ok opened =>
    obtain ⟨env, e, w⟩ := opened
    have hopened := Engine.opened_of_openOnDisk hopen
    simp only [wp_bind, wp_set, andThen_ok, wp_pure]
    refine ⟨?_, fun env' e' w' heq => ?_⟩
    · cases hopened with
      | without h => exact .inl rfl
      | stored h hresolved hstore => exact .inr ⟨_, hpath _ hresolved ▸ hstore⟩
    · cases heq
      exact ⟨hopened, rfl⟩

theorem wp_stats : wp (stats o lookup) (fun _ d' => d.OnlyOpened path d') d := by
  unfold stats
  rw [wp_bind]
  refine wp_mono (wp_openEngine hpath) fun r d' hr => ?_
  cases r with
  | error f => exact hr.1
  | ok opened =>
    obtain ⟨env, e, w⟩ := opened
    obtain ⟨-, rfl⟩ := hr.2 env e w rfl
    dsimp only [andThen]
    cases e.stats env w with
    | ok s => exact hr.1
    | error e => exact hr.1

include hreadOnly

theorem wp_invalidate (container : String) :
    wp (invalidate o lookup container) (fun _ d' => d.OnlyOpened path d') d := by
  unfold invalidate
  rw [wp_bind]
  refine wp_mono (wp_openEngine hpath) fun r d' hr => ?_
  cases r with
  | error f => exact hr.1
  | ok opened =>
    obtain ⟨env, e, w⟩ := opened
    obtain ⟨hopened, rfl⟩ := hr.2 env e w rfl
    obtain ⟨rfl, -⟩ := Engine.environment_of_opened hopened
    have hworld : (e.invalidate env (Location.parse w.disk.isDirectory container) w).2.2 = w :=
      Engine.world_invalidate_of_readOnly hreadOnly _ w
    dsimp only [andThen]
    generalize e.invalidate env (Location.parse w.disk.isDirectory container) w = result at hworld
    obtain ⟨result, e', w'⟩ := result
    obtain rfl : w' = w := hworld
    simp only [wp_bind, wp_set, andThen_ok]
    cases result with
    | ok u => exact hr.1
    | error e => exact hr.1

theorem wp_withView (g : General) (c : Command) :
    wp (withView o lookup g c) (fun _ d' => d.OnlyOpened path d') d := by
  unfold withView
  simp only [wp_bind, wp_get, andThen_ok]
  by_cases hspecs : containerSpecs g d = []
  · rw [if_pos hspecs]
    exact .inl rfl
  · rw [if_neg hspecs, wp_bind]
    refine wp_mono (wp_openEngine hpath) fun r d' hr => ?_
    cases r with
    | error f => exact hr.1
    | ok opened =>
      obtain ⟨env, e, w⟩ := opened
      obtain ⟨hopened, rfl⟩ := hr.2 env e w rfl
      obtain ⟨rfl, hreads⟩ := Engine.environment_of_opened hopened
      have hworld := Engine.world_openModule_of_readOnly hreads hreadOnly (containerSpecs g d) false w
      dsimp only [andThen]
      generalize e.openModule env (containerSpecs g d) false w = result at hworld
      obtain ⟨result, e', w'⟩ := result
      obtain rfl : w' = w := hworld
      simp only [wp_bind, wp_set, andThen_ok]
      cases result with
      | error err => exact hr.1
      | ok v => exact wp_mono (wp_onView e' v c) fun _ d' hd => hd ▸ hr.1

omit hpath hreadOnly

theorem wp_carryOut (hoptions : i.engineOptions lookup = .ok o)
    (hpath : ∀ p, o.resolvedPath lookup = .ok p → p = path) (hreadOnly : o.readOnly = true)
    (hclear : i.command ≠ .clear) : wp (carryOut i lookup) (fun _ d' => d.OnlyOpened path d') d := by
  unfold carryOut
  rw [wp_bind, wp_except, hoptions, andThen_ok]
  cases hcommand : i.command with
  | clear => exact absurd hcommand hclear
  | stats => exact wp_stats hpath
  | invalidate container => exact wp_invalidate hpath hreadOnly container
  | scan => exact wp_withView hpath hreadOnly i.general _
  | annotated => exact wp_withView hpath hreadOnly i.general _
  | assignable => exact wp_withView hpath hreadOnly i.general _
  | inPackage => exact wp_withView hpath hreadOnly i.general _
  | chain => exact wp_withView hpath hreadOnly i.general _

/-! ### Runs -/

/-- A read-only command line does to the disk what opening its store does, or nothing. -/
theorem onlyOpened_run (h : ReadsOnly path lookup args) (d : Disk) :
    d.OnlyOpened path (run lookup args d).2 := by
  unfold run
  cases hargs : Invocation.ofArguments args with
  | error refusal => cases refusal <;> exact .inl rfl
  | ok i =>
    dsimp only
    have hcarry : d.OnlyOpened path ((carryOut i lookup).run.run d).2 := by
      cases hoptions : i.engineOptions lookup with
      | error f =>
        have hfails : wp (carryOut i lookup) (fun _ d' => d' = d) d := by
          unfold carryOut
          rw [wp_bind, wp_except, hoptions]
          rfl
        exact .inl hfails
      | ok o =>
        exact wp_carryOut hoptions (fun p => h.path_eq i o p hargs hoptions)
          ((h.readOnly i hargs).readOnly hoptions) (h.ne_clear i hargs)
    generalize (carryOut i lookup).run.run d = ran at hcarry
    obtain ⟨r, d'⟩ := ran
    cases r <;> exact hcarry

/-- The disk behind command lines that are run one after the other, each with its variables. -/
def runAll (lines : List ((String → Option String) × List String)) (d : Disk) : Disk :=
  lines.foldl (fun d line => (run line.1 line.2 d).2) d

theorem read_only_runs_keep_blobs {lines : List ((String → Option String) × List String)}
    (h : ∀ line ∈ lines, ReadsOnly path line.1 line.2) (d : Disk) (key : String) :
    (runAll lines d).retrieve path key = d.retrieve path key := by
  induction lines generalizing d with
  | nil => rfl
  | cons line lines ih =>
    obtain ⟨hline, hlines⟩ := List.forall_mem_cons.1 h
    calc (runAll (line :: lines) d).retrieve path key
        = (runAll lines (run line.1 line.2 d).2).retrieve path key := rfl
      _ = (run line.1 line.2 d).2.retrieve path key := ih hlines _
      _ = d.retrieve path key := (onlyOpened_run hline d).retrieve key

/-! ### A shelf of blobs -/

theorem ReadsOnly.of_invocation (hargs : Invocation.ofArguments args = .ok i) (hreadOnly : i.IsReadOnly lookup)
    (hoptions : i.engineOptions lookup = .ok o) (hpath : o.resolvedPath lookup = .ok path)
    (hclear : i.command ≠ .clear) : ReadsOnly path lookup args where
  readOnly j hj := Except.ok.inj (hargs.symm.trans hj) ▸ hreadOnly
  path_eq j o' p hj ho' hp := by
    obtain rfl := Except.ok.inj (hargs.symm.trans hj)
    obtain rfl := Except.ok.inj (hoptions.symm.trans ho')
    exact Except.ok.inj (hp.symm.trans hpath)
  ne_clear j hj := Except.ok.inj (hargs.symm.trans hj) ▸ hclear

/-- A directory with one blob, and an empty directory of classes. -/
def shelf : Disk :=
  (((Disk.blank 0).put ⟨false, ["cache"]⟩ (.directory 0)).put ⟨false, ["cache", "k.bin"]⟩ (.file [1, 2] 0)).put
    ⟨false, ["classes"]⟩ (.directory 0)

/-- Variables that set read-only. -/
def readOnlySet (name : String) : Option String := if name = "ANNOCACHE_READ_ONLY" then some "on" else none

/-- Command lines of all kinds that read the shelf. -/
def shelfLines : List ((String → Option String) × List String) :=
  [ (fun _ => none, ["--db", "./cache", "--read-only", "-c", "classes", "scan"]),
    (readOnlySet, ["--db", "./cache", "invalidate", "classes"]),
    (readOnlySet, ["--no-cache", "--db", "./cache", "stats"]) ]

theorem read_only_runs_keep_blobs_of_shelf :
    (∀ line ∈ shelfLines, ReadsOnly "./cache" line.1 line.2) ∧
      shelf.retrieve "./cache" "k" = .ok (some [1, 2]) ∧
      (runAll shelfLines shelf).retrieve "./cache" "k" = .ok (some [1, 2]) := by
  have hlines : ∀ line ∈ shelfLines, ReadsOnly "./cache" line.1 line.2 := by
    intro line hline
    simp only [shelfLines, List.mem_cons, List.not_mem_nil, or_false] at hline
    rcases hline with rfl | rfl | rfl
    · exact .of_invocation rfl (.inl rfl) rfl rfl nofun
    · exact .of_invocation rfl (.inr ⟨_, rfl, rfl⟩) rfl rfl nofun
    · exact .of_invocation rfl (.inr ⟨_, rfl, rfl⟩) rfl rfl nofun
  exact ⟨hlines, rfl, (read_only_runs_keep_blobs hlines shelf "k").trans rfl⟩

/-- Read-only or not, `clear` takes the blobs away. -/
theorem read_only_clear_takes_blobs :
    ∃ i o, Invocation.ofArguments ["--db", "./cache", "--read-only", "clear"] = .ok i ∧
      i.IsReadOnly (fun _ => none) ∧ i.engineOptions (fun _ => none) = .ok o ∧ o.readOnly = true ∧
      o.resolvedPath (fun _ => none) = .ok "./cache" ∧
      shelf.retrieve "./cache" "k" = .ok (some [1, 2]) ∧
      (runAll [(fun _ => none, ["--db", "./cache", "--read-only", "clear"])] shelf).retrieve "./cache" "k" =
        .ok none :=
  ⟨_, _, rfl, .inl rfl, rfl, rfl, rfl, rfl, rfl⟩

end CommandLine

end ClassCatalog

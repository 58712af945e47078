import ClassCatalog.ClassFile.Blueprint
import ClassCatalog.Container.Scripted
import ClassCatalog.Proofs.Engine.Calls

/-!
# What a release takes out of memory

To release a module is to forget its record and to take out of memory the containers of the record that no
other record lists. `Engine.Without` says that an engine is as another was, without certain indexes in
memory; `evictUnused_without` describes the loop, with what it counts, and `release_without` the release.
-/

namespace ClassCatalog.Engine

/-- Some record lists a location. -/
def Listed (modules : NameMap ModuleRecord) (l : Location) : Prop :=
  ∃ record ∈ modules.values, l ∈ record.containers

/-- An engine as it was, without the indexes that it had in memory under certain keys. -/
structure Without (e : Engine) (gone : String → Prop) (e' : Engine) : Prop where
  rest : e' = { e with cache := { e.cache with published := e'.cache.published } }
  lost {key : String} (h : gone key) : e'.cache.published.find? key = none
  kept {key : String} (h : ¬ gone key) : e'.cache.published.find? key = e.cache.published.find? key

variable {e e' e'' : Engine} {gone more : String → Prop} {name : String} {l : Location}
  {modules : NameMap ModuleRecord}

namespace Without

theorem refl (e : Engine) (h : ∀ key, ¬ gone key) : e.Without gone e :=
  ⟨rfl, fun hgone => absurd hgone (h _), fun _ => rfl⟩

theorem trans (h : e.Without gone e') (h' : e'.Without more e'') :
    e.Without (fun key => gone key ∨ more key) e'' := by
  refine ⟨?_, fun {key} hgone => ?_, fun hkept => ?_⟩
  · rw [h'.rest, h.rest]
  · by_cases hmore : more key
    · exact h'.lost hmore
    · rw [h'.kept hmore]
      exact h.lost (hgone.resolve_right hmore)
  · rw [not_or] at hkept
    rw [h'.kept hkept.2, h.kept hkept.1]

theorem congr (h : e.Without gone e') (hiff : ∀ key, gone key ↔ more key) : e.Without more e' :=
  ⟨h.rest, fun hmore => h.lost ((hiff _).mpr hmore), fun hkept => h.kept (hkept ∘ (hiff _).mp)⟩

theorem modules_eq (h : e.Without gone e') : e'.modules = e.modules := by rw [h.rest]

theorem evict (e : Engine) (l : Location) : e.Without (fun key => l.cacheKey = key) (e.evict l).2 := by
  refine ⟨rfl, fun {key} hgone => ?_, fun {key} hkept => ?_⟩
  · exact (NameMap.find?_erase ..).trans (if_pos hgone.symm)
  · exact (NameMap.find?_erase ..).trans (if_neg (Ne.symm hkept))

end Without

theorem uses_iff : e.uses l = true ↔ ∃ m, Listed e.modules m ∧ m.same l = true := by
  simp only [uses, Listed, List.any_eq_true]
  constructor
  · rintro ⟨record, hrecord, m, hm, hsame⟩
    exact ⟨m, ⟨record, hrecord, hm⟩, hsame⟩
  · rintro ⟨m, ⟨record, hrecord, hm⟩, hsame⟩
    exact ⟨record, hrecord, m, hm, hsame⟩

/-- The loop over a record evicts what is not in use, and counts what was there. -/
theorem evictUnused_without (e : Engine) (ls : List Location) :
    e.Without (fun key => ∃ l ∈ ls, l.cacheKey = key ∧ e.uses l = false) (e.evictUnused ls).2 ∧
      e.cache.published.size = (e.evictUnused ls).2.cache.published.size + (e.evictUnused ls).1 := by
  induction ls generalizing e with
  | nil => exact ⟨.refl e (by simp), rfl⟩
  | cons l ls ih =>
    unfold evictUnused
    cases huses : e.uses l with
    | true =>
      rw [if_pos rfl]
      refine ⟨(ih e).1.congr fun key => ?_, (ih e).2⟩
      simp [huses]
    | false =>
      rw [if_neg Bool.false_ne_true]
      obtain ⟨hrest, hcount⟩ := ih (e.evict l).2
      refine ⟨((Without.evict e l).trans hrest).congr fun key => ?_, ?_⟩
      · have hsame : ∀ m, (e.evict l).2.uses m = e.uses m := fun _ => rfl
        simp only [hsame, List.mem_cons, exists_eq_or_imp, huses, and_true]
      · have hsize := e.cache.published.size_erase l.cacheKey
        rw [hsize]
        exact (congrArg (· + _) hcount).trans (Nat.add_assoc ..)

/-- A release of a module that has a record. -/
theorem release_without {record : ModuleRecord} (h : e.modules.find? name = some record) :
    { e with modules := e.modules.erase name }.Without (fun key => ∃ l ∈ record.containers, l.cacheKey = key ∧
        ∀ m, Listed (e.modules.erase name) m → m.same l = false) (e.release name).2 ∧
      e.cache.published.size = (e.release name).2.cache.published.size + (e.release name).1 := by
  unfold release
  rw [h]
  obtain ⟨hwithout, hcount⟩ := evictUnused_without { e with modules := e.modules.erase name } record.containers
  refine ⟨hwithout.congr fun key => ?_, hcount⟩
  refine exists_congr fun l => and_congr_right fun _ => and_congr_right fun _ => ?_
  rw [← Bool.not_eq_true, uses_iff]
  simp

theorem release_unknown (h : e.modules.find? name = none) : e.release name = (0, e) := by
  unfold release
  rw [h]

theorem modules_release (e : Engine) (name : String) :
    (e.release name).2.modules = e.modules.erase name := by
  cases h : e.modules.find? name with
  | none => rw [release_unknown h, NameMap.erase_of_find?_eq_none h]
  | some record => exact (release_without h).1.modules_eq

/-! ### The records of a run -/

namespace Client

variable {ω : Type} {env : Environment ω}

theorem modules_call (c : Client ω) (call : Call) :
    (c.call env call).2.engine.modules = call.recorded c.engine.modules (c.call env call).1 := by
  cases call with
  | openModule specs cancelled => rfl
  | openNamed name specs cancelled =>
    simp only [call]
    cases openNamed_cases env c.engine name specs cancelled c.world with
    | failed _ h =>
      rw [h]
      rfl
    | brokenOff _ _ h =>
      rw [h]
      rfl
    | recorded _ htable h =>
      rw [h]
      simp only [Option.elim, Call.recorded, htable]
  | release name => exact modules_release c.engine name
  | evict l => rfl
  | invalidate l => rfl
  | clearStore => rfl
  | stats => rfl
  | query n options request =>
    obtain ⟨events, hengine⟩ := c.ask_engine n options request
    have hmodules : (c.ask n options request).2.engine.modules = c.engine.modules := by rw [hengine]
    exact hmodules

theorem modules_run (turns : List (Turn ω)) (c : Client ω) :
    (run env turns c).2.engine.modules =
      (run env turns c).1.foldl (fun modules (call, reply) => call.recorded modules reply)
        c.engine.modules := by
  induction turns generalizing c with
  | nil => rfl
  | cons t turns ih =>
    have hcall : (c.turn env t).2.engine.modules =
        t.call.recorded c.engine.modules (c.turn env t).1 := modules_call _ t.call
    exact (ih _).trans (by rw [hcall]; rfl)

end Client

/-! ### Releasing a module -/

/-- Of the listed locations, those are one that have one logical path. -/
def PathsDecide (modules : NameMap ModuleRecord) : Prop :=
  ∀ l m, Listed modules l → Listed modules m → (l.same m = true ↔ l.logicalPath = m.logicalPath)

theorem Listed.of_erase (h : Listed (modules.erase name) l) : Listed modules l := by
  obtain ⟨record, hrecord, hl⟩ := h
  obtain ⟨other, hother⟩ := NameMap.mem_values_iff.mp hrecord
  rw [NameMap.find?_erase] at hother
  split at hother
  · cases hother
  · exact ⟨record, NameMap.mem_values_iff.mpr ⟨other, hother⟩, hl⟩

/-- After any run: to release a module that is not open changes nothing. To release one that is forgets
its record and takes exactly the containers out of memory that are listed there and in no other record;
it counts the indexes that have gone, and leaves all else as it is. -/
theorem release_evicts_unshared {ω : Type} (env : Environment ω) (options : EngineOptions) (world : ω)
    (turns : List (Turn ω)) (name : String) :
    let history := (Client.run env turns ⟨{ options }, world, []⟩).1
    let c := (Client.run env turns ⟨{ options }, world, []⟩).2
    let r := c.call env (.release name)
    c.engine.modules = history.modules ∧
    (history.modules.find? name = none → r = (.released 0, c)) ∧
    ∀ record, history.modules.find? name = some record → PathsDecide history.modules →
      ∃ evicted e, r = (.released evicted, { c with engine := e }) ∧
        { c.engine with modules := history.modules.erase name }.Without (fun key => ∃ l ∈ record.containers,
          l.cacheKey = key ∧ ∀ m, Listed (history.modules.erase name) m → m.logicalPath ≠ l.logicalPath) e ∧
        c.engine.cache.published.size = e.cache.published.size + evicted := by
  intro history c r
  have hmodules : c.engine.modules = history.modules := Client.modules_run turns _
  refine ⟨hmodules, fun hnone => ?unknown, fun record hrecord hpaths => ?known⟩
  case unknown =>
    have hrelease : c.engine.release name = (0, c.engine) := release_unknown (hmodules ▸ hnone)
    show (Reply.released (c.engine.release name).1, { c with engine := (c.engine.release name).2 }) = _
    rw [hrelease]
  case known =>
    obtain ⟨hwithout, hcount⟩ := release_without (hmodules ▸ hrecord : c.engine.modules.find? name = _)
    rw [hmodules] at hwithout
    refine ⟨_, _, rfl, hwithout.congr fun key => ?_, hcount⟩
    refine exists_congr fun l => and_congr_right fun hl => and_congr_right fun _ => ?_
    have hlisted : Listed history.modules l := ⟨record, NameMap.mem_values_iff.mpr ⟨name, hrecord⟩, hl⟩
    refine forall_congr' fun m => imp_congr_right fun hm => ?_
    rw [← Bool.not_eq_true, not_congr (hpaths m l hm.of_erase hlisted)]

/-- Two archives of one class each. -/
def ownAndShared : ScriptedWorld :=
  let archive (name : String) : ScriptedContainer :=
    { entries := [⟨"entry.class", ClassFile.Blueprint.assemble { name }⟩] }
  { containers := (NameMap.empty.insert "own.jar" (archive "o.Own")).insert "shared.jar" (archive "s.Shared") }

/-- One module has both of them, and lists the one of its own twice; another has the shared one. -/
def twoModules : List (Turn ScriptedWorld) :=
  let own : ContainerSpec := ⟨.archive "own.jar", .seed⟩
  let shared : ContainerSpec := ⟨.archive "shared.jar", .seed⟩
  [⟨id, .openNamed "one" [own, shared, own] false⟩, ⟨id, .openNamed "two" [shared] false⟩]

def ranTwoModules : History × Client ScriptedWorld :=
  Client.run ScriptedWorld.environment twoModules ⟨{}, ownAndShared, []⟩

/-- To release the first evicts its own archive, once, and keeps the shared one in memory. -/
theorem release_of_twoModules :
    let own := Location.archive "own.jar"
    let shared := Location.archive "shared.jar"
    let c := ranTwoModules.2
    (ranTwoModules.1.modules.find? "one").map (·.containers) = some [own, shared, own] ∧
      PathsDecide ranTwoModules.1.modules ∧
      ∃ e, c.call ScriptedWorld.environment (.release "one") = (.released 1, { c with engine := e }) ∧
        e.modules.entries.map (fun m => (m.1, m.2.containers)) = [("two", [shared])] ∧
        e.cache.published.find? own.cacheKey = none ∧
        e.cache.published.find? shared.cacheKey = c.engine.cache.published.find? shared.cacheKey := by
  intro own shared
  have hentries : ranTwoModules.1.modules.entries.map (fun m => (m.1, m.2.containers)) =
      [("one", [own, shared, own]), ("two", [shared])] := by decide +kernel
  have hcount : (ranTwoModules.2.engine.release "one").1 = 1 := by decide +kernel
  obtain ⟨-, -, hknown⟩ :=
    release_evicts_unshared ScriptedWorld.environment {} ownAndShared twoModules "one"
  -- From here on it does not matter which run this was.
  rw [show Client.run _ twoModules _ = ranTwoModules from rfl] at hknown
  generalize ranTwoModules = ran at *
  intro c
  obtain ⟨⟨one, record⟩, rest, hmodules, hone, hrest⟩ := List.map_eq_cons_iff.1 hentries
  obtain ⟨⟨two, record'⟩, none, rfl, htwo, hnone⟩ := List.map_eq_cons_iff.1 hrest
  obtain rfl := List.map_eq_nil_iff.1 hnone
  obtain rfl : one = "one" := congrArg Prod.fst hone
  obtain rfl : two = "two" := congrArg Prod.fst htwo
  have hcontainers : record.containers = [own, shared, own] := congrArg Prod.snd hone
  have hcontainers' : record'.containers = [shared] := congrArg Prod.snd htwo
  have hfind : ran.1.modules.find? "one" = some record := by
    rw [NameMap.find?, hmodules]
    rfl
  have hleft : (ran.1.modules.erase "one").entries = [("two", record')] := by
    show ran.1.modules.entries.filter _ = _
    rw [hmodules]
    rfl
  have hlisted : ∀ l, Listed ran.1.modules l → l = own ∨ l = shared := by
    rintro l ⟨listed, hrecord, hl⟩
    rw [NameMap.values, hmodules] at hrecord
    simp only [List.map_cons, List.map_nil, List.mem_cons, List.not_mem_nil, or_false] at hrecord
    rcases hrecord with rfl | rfl
    · rw [hcontainers] at hl
      simp only [List.mem_cons, List.not_mem_nil, or_false] at hl
      exact hl.elim .inl Or.symm
    · rw [hcontainers'] at hl
      exact .inr (List.mem_singleton.mp hl)
  have hpaths : PathsDecide ran.1.modules := by
    intro l m hl hm
    rcases hlisted l hl with rfl | rfl <;> rcases hlisted m hm with rfl | rfl <;> decide +kernel
  have hothers : ∀ m, Listed (ran.1.modules.erase "one") m ↔ m = shared := by
    intro m
    simp only [Listed, NameMap.values, hleft, List.map_cons, List.map_nil, List.mem_singleton, exists_eq_left,
      hcontainers']
  obtain ⟨evicted, e, hr, hwithout, -⟩ := hknown _ hfind hpaths
  rw [hcontainers] at hwithout
  refine ⟨?record, hpaths, e, ?reply, ?left, hwithout.lost ?own, hwithout.kept ?shared⟩
  case record =>
    rw [hfind, Option.map_some, hcontainers]
  case reply =>
    have hreply : Reply.released (ran.2.engine.release "one").1 = .released evicted :=
      congrArg Prod.fst hr
    rw [hr, ← hreply, hcount]
  case left =>
    rw [hwithout.modules_eq]
    show (ran.1.modules.erase "one").entries.map _ = _
    rw [hleft, ← hcontainers']
    rfl
  case own =>
    refine ⟨own, List.mem_cons_self, rfl, fun m hm => ?_⟩
    rw [(hothers m).1 hm]
    decide
  case shared =>
    rintro ⟨l, hl, hkey, hunshared⟩
    have hne : l ≠ shared := by
      rintro rfl
      exact hunshared shared ((hothers shared).2 rfl) rfl
    have hown : l = own := by simpa [hne] using hl
    subst hown
    exact absurd hkey (by decide +kernel)

end ClassCatalog.Engine

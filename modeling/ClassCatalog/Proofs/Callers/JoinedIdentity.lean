import ClassCatalog.ClassFile.Blueprint
import ClassCatalog.Container.Scripted
import ClassCatalog.Proofs.Callers.SharedFlight

/-!
# Whose identity a shared index has

An index from memory or from the store is accepted only for the identity that the load itself has
learned, and an index made anew gets that identity. But a load that waits for another takes what it
gets. So the identity of an index is that of some load of the container, though not always of the load
that returns it.
-/

namespace ClassCatalog

namespace Caller

/-- The identity that a load has learned. -/
def identity? : Caller → Option Identity
  | load _ (.resolved current) => some current
  | load _ (.recalling current) => some current
  | load _ (.seeking current) => some current
  | load _ (.holding current _) => some current
  | load _ (.filling current _ _) => some current
  | load _ (.leaving current _ _) => some current
  | load _ (.deciding current _) => some current
  | load _ (.returned current _) => some current
  | _ => none

end Caller

namespace Filling

variable {ω : Type} {env : Environment ω} {settings : CacheSettings} {key : String} {l : Location}
  {current : Identity} {σ σ' : Session ω} {f f' : Filling}

/-- The index at hand, if any, has the identity `current`. -/
def Keeps (current : Identity) : Filling → Prop
  | reading _ _ _ index => index.identity = current
  | built index => index.identity = current
  | kept index => index.identity = current
  | ended (.ok loaded) => loaded.index.identity = current
  | _ => True

theorem Advance.keeps (h : Advance env settings key l current σ f f' σ')
    (hvalid : settings.alwaysValid = false) (hf : f.Keeps current) : f'.Keeps current := by
  have hidentity : ∀ {stored : Identity}, Loading.accepts settings stored current = true →
      stored = current := fun haccepts => by simpa [Loading.accepts, hvalid] using haccepts
  cases h with
  | hit _ haccepts => exact hidentity haccepts
  | find _ _ haccepts => exact hidentity haccepts
  | openIt => exact rfl
  | take hscan =>
    rw [hscan]
    exact (Scan.run_identity ..).trans hf
  | close => exact hf
  | keep => exact hf
  | store => exact hf
  | publish => exact hf
  | _ => trivial

end Filling

namespace Crowd

variable {ι ω : Type} [DecidableEq ι] {env : Environment ω} {settings : CacheSettings}
  {s s' t : Crowd ι ω} {i : ι} {c c' : Caller}

/-- Some load has learned this identity of the container with this key. -/
def Learned (s : Crowd ι ω) (key : String) (identity : Identity) : Prop :=
  ∃ i, (s.callers i).key = key ∧ (s.callers i).identity? = some identity

omit [DecidableEq ι] in
theorem Move.identity? {identity : Identity} (h : Move env settings i s c c' t)
    (hc : c.identity? = some identity) : c'.identity? = some identity := by
  cases h with
  | refuse => nomatch hc
  | resolve => nomatch hc
  | _ => exact hc

theorem Learned.step {key : String} {identity : Identity} (h : s.Learned key identity)
    (hstep : s.step env settings i = some s') : s'.Learned key identity := by
  obtain ⟨j, rfl, hj⟩ := h
  refine ⟨j, (moves_of_step hstep).key j, ?_⟩
  obtain ⟨c, t, hmove, rfl⟩ := step_moves hstep
  by_cases hij : j = i
  · rw [hij, moved_callers_self]
    exact hmove.identity? (hij ▸ hj)
  · rw [moved_callers_of_ne t hij, hmove.shared.1]
    exact hj

/-- Every index at hand has an identity that a load of the container has learned. -/
structure Accounted (s : Crowd ι ω) : Prop where
  filling : ∀ {i l current n f}, s.callers i = .load l (.filling current n f) → f.Keeps current
  filled : ∀ {i n loaded}, (s.callers i).cell? = some n → s.contents n = .filled (.ok loaded) →
    s.Learned (s.callers i).key loaded.index.identity
  carried : ∀ {i loaded}, (s.callers i).result? = some (.ok loaded) →
    s.Learned (s.callers i).key loaded.index.identity

theorem Accounted.move (h : s.Accounted) (ho : s.Orderly) (hvalid : settings.alwaysValid = false)
    (hstep : s.step env settings i = some s') : s'.Accounted := by
  have hmoves := moves_of_step hstep
  obtain ⟨c, t, hmove, rfl⟩ := step_moves hstep
  have hi := moved_callers_self t i c
  have hothers : ∀ {j}, j ≠ i → (t.moved i c).callers j = s.callers j := hmoves.others
  have hkey := hmoves.key
  -- The result of a filling has the identity of the one who filled.
  have hended : ∀ {l current n loaded}, s.callers i = .load l (.filling current n (.ended (.ok loaded))) →
      (t.moved i c).Learned (s.callers i).key loaded.index.identity := fun {l current n loaded} hfilling => by
    have hkeeps : loaded.index.identity = current := h.filling hfilling
    refine Learned.step ⟨i, rfl, ?_⟩ hstep
    rw [hfilling, hkeeps]
    rfl
  refine ⟨fun {j l current n f} hj => ?_, fun {j n loaded} hj hr => ?_, fun {j loaded} hj => ?_⟩
  · by_cases hji : j = i
    · rw [hji, hi] at hj
      subst hj
      obtain ⟨rfl, -⟩ | ⟨f, σ, hadvance, -, hf⟩ := hmove.filling
      · trivial
      · exact hadvance.keeps hvalid (h.filling hf)
    · exact h.filling ((hothers hji).symm.trans hj)
  · rw [hkey]
    obtain ⟨k, hk, hkkey, hbefore⟩ | ⟨l, current, hfilling, hl⟩ := ho.filled_of_step hstep hj hr
    · exact hkkey ▸ (h.filled hk hbefore).step hstep
    · have hikey : (s.callers i).key = (s.callers j).key := by
        rw [hfilling]
        exact hl
      exact hikey ▸ hended hfilling
  · rw [hkey]
    by_cases hji : j = i
    · rw [hji, hi] at hj
      rw [hji]
      obtain hbefore | ⟨n, hn, hfilled⟩ | ⟨l, current, n, hfilling⟩ |
        ⟨l, current, _, hrecalling, -, haccepts, heq⟩ := hmove.result hj
      · exact (h.carried hbefore).step hstep
      · exact (h.filled hn hfilled).step hstep
      · exact hended hfilling
      · cases heq
        have hidentity : loaded.index.identity = current := by
          simpa [Loading.accepts, hvalid] using haccepts
        refine Learned.step ⟨i, rfl, ?_⟩ hstep
        rw [hrecalling, hidentity]
        rfl
    · exact (h.carried (hothers hji ▸ hj)).step hstep

theorem Accounted.step (h : s.Accounted) (ho : s.Orderly) (hvalid : settings.alwaysValid = false)
    (hstep : Step env settings s s') : s'.Accounted := by
  cases hstep with
  | move i hstep => exact h.move ho hvalid hstep
  | cancel k => exact ⟨h.filling, h.filled, h.carried⟩
  | change w => exact ⟨h.filling, h.filled, h.carried⟩

theorem Accounted.steps (h : s.Accounted) (ho : s.Orderly) (hvalid : settings.alwaysValid = false)
    (hsteps : Steps env settings s s') : s'.Accounted := by
  induction hsteps with
  | refl => exact h
  | tail hsteps hstep ih => exact ih.step (ho.steps hsteps) hvalid hstep

omit [DecidableEq ι] in
theorem Fresh.accounted (h : s.Fresh) : s.Accounted := by
  refine ⟨fun {i l current n f} hi => ?_, fun {i n loaded} _ hr => ?_, fun {i loaded} hi => ?_⟩
  · obtain ⟨l', hl⟩ | ⟨l', hl⟩ | ⟨l', hl⟩ := h.callers i <;> nomatch hl.symm.trans hi
  · nomatch (h.contents n).symm.trans hr
  · obtain ⟨l', hl⟩ | ⟨l', hl⟩ | ⟨l', hl⟩ := h.callers i <;> rw [hl] at hi <;> nomatch hi

/-- A load returns an index of the identity it has learned, or of one that another load of the
container has learned. -/
theorem returned_identity_learned (hvalid : settings.alwaysValid = false) (hfresh : s.Fresh)
    (hsteps : Steps env settings s s') {l : Location} {current : Identity} {loaded : Loaded}
    (hi : s'.callers i = .load l (.returned current (.ok loaded))) :
    loaded.index.identity = current ∨
      ∃ j, j ≠ i ∧ (s'.callers j).key = l.cacheKey ∧
        (s'.callers j).identity? = some loaded.index.identity := by
  have h : s'.Accounted := hfresh.accounted.steps hfresh.orderly hvalid hsteps
  have hresult : (s'.callers i).result? = some (.ok loaded) := by rw [hi]; rfl
  obtain ⟨j, hkey, hj⟩ := h.carried hresult
  by_cases hji : j = i
  · rw [hji, hi] at hj
    exact .inl (Option.some.inj hj).symm
  · rw [hi] at hkey
    exact .inr ⟨j, hji, hkey, hj⟩

/-! ### An archive that changes while it is read -/

/-- An archive, with one class at one time and another at another. -/
def archiveAt (time : UInt64) : ScriptedWorld :=
  let name := if time = 1 then "a.A" else "b.B"
  let entry : ClassEntry := ⟨"entry.class", ClassFile.Blueprint.assemble { name }⟩
  { containers := NameMap.empty.insert "a.jar"
      { entries := [entry], size := some 9, lastModified := time } }

/-- Two loads of the archive, each with a token of its own. -/
def twoLoads : Crowd Bool ScriptedWorld :=
  { world := archiveAt 1
    callers := fun _ => .load (.archive "a.jar") .ready
    token := fun i => if i then 1 else 0 }

theorem twoLoads_fresh : twoLoads.Fresh := ⟨rfl, fun _ => rfl, fun _ => .inl ⟨_, rfl⟩⟩

/-- One load has begun to read the archive when it changes. The other learns the new identity, finds
the cell of the first and waits for it. -/
def overtaken : Crowd Bool ScriptedWorld :=
  let reading := twoLoads.play ScriptedWorld.environment {} (List.replicate 9 true)
  let changed := { reading with world := archiveAt 2 }
  changed.play ScriptedWorld.environment {}
    (List.replicate 4 false ++ List.replicate 8 true ++ List.replicate 4 false)

theorem overtaken_steps : Steps ScriptedWorld.environment {} twoLoads overtaken := by
  have hchange : Steps ScriptedWorld.environment {}
      (twoLoads.play ScriptedWorld.environment {} (List.replicate 9 true)) _ :=
    .single (.change _ (archiveAt 2))
  exact ((steps_play _ _ twoLoads _).trans hchange).trans (steps_play ..)

theorem overtaken_returned : ∃ loaded,
    overtaken.callers false =
      .load (.archive "a.jar") (.returned ⟨"a.jar", 9, 2, none⟩ (.ok loaded)) ∧
    loaded.index.identity = ⟨"a.jar", 9, 1, none⟩ := by
  have hreturned : (overtaken.callers false).loaded?.map
      (fun x => (x.1, x.2.1, x.2.2.index.identity)) =
        some (.archive "a.jar", ⟨"a.jar", 9, 2, none⟩, ⟨"a.jar", 9, 1, none⟩) := by decide +kernel
  obtain ⟨⟨l, current, loaded⟩, hloaded, heq⟩ := Option.map_eq_some_iff.1 hreturned
  simp only [Prod.mk.injEq] at heq
  obtain ⟨rfl, rfl, hidentity⟩ := heq
  exact ⟨loaded, Caller.eq_of_loaded? hloaded, hidentity⟩

/-- What a load has waited for need not have the identity that the load itself has learned. -/
theorem joined_index_is_stale : ¬ ∀ (s s' : Crowd Bool ScriptedWorld) (i : Bool) (l : Location)
    (current : Identity) (loaded : Loaded), s.Fresh → Steps ScriptedWorld.environment {} s s' →
      s'.callers i = .load l (.returned current (.ok loaded)) → loaded.index.identity = current := by
  intro hown
  obtain ⟨loaded, hreturned, hidentity⟩ := overtaken_returned
  have hcurrent := hown _ _ _ _ _ _ twoLoads_fresh overtaken_steps hreturned
  rw [hidentity] at hcurrent
  nomatch hcurrent

/-- There it is the identity that the other load has learned. -/
theorem returned_identity_of_overtaken : ∃ loaded,
    CacheSettings.alwaysValid {} = false ∧ twoLoads.Fresh ∧
      Steps ScriptedWorld.environment {} twoLoads overtaken ∧
      overtaken.callers false =
        .load (.archive "a.jar") (.returned ⟨"a.jar", 9, 2, none⟩ (.ok loaded)) ∧
      (loaded.index.identity = ⟨"a.jar", 9, 2, none⟩ ∨ ∃ j, j ≠ false ∧
        (overtaken.callers j).key = (Location.archive "a.jar").cacheKey ∧
        (overtaken.callers j).identity? = some loaded.index.identity) := by
  obtain ⟨loaded, hreturned, -⟩ := overtaken_returned
  exact ⟨loaded, rfl, twoLoads_fresh, overtaken_steps, hreturned,
    returned_identity_learned rfl twoLoads_fresh overtaken_steps hreturned⟩

end Crowd

end ClassCatalog

import ClassCatalog.ClassFile.Blueprint
import ClassCatalog.Container.Scripted
import ClassCatalog.Proofs.Cache.Reading
import ClassCatalog.Proofs.Index.Scanned

/-!
# What a rebuild makes of its entries

A container that delivers entries, to nobody who asks to cancel, is made into an index of them
(`rebuild_is_scan`): every entry is decoded once, and none of them can make the rebuild fail.
-/

namespace ClassCatalog.Loading

variable {ω : Type} {env : Environment ω} {l : Location} {s : Session ω} {entries : List ClassEntry}

/-- The container delivers the entries to the end, and nobody asks to cancel. -/
structure Delivers (env : Environment ω) (l : Location) (s : Session ω) (entries : List ClassEntry) : Prop where
  listing : (env.enumerate l s.world).1 = .delivered ⟨entries.map .entry, none⟩
  running : s.cancelled = false

theorem entries_map_entry (entries : List ClassEntry) :
    (Enumeration.mk (entries.map .entry) none).entries = entries := by
  rw [Enumeration.entries, List.filterMap_map]
  exact List.filterMap_some

theorem cancels_map_entry (entries : List ClassEntry) : (Enumeration.mk (entries.map .entry) none).cancels = false := by
  simp [Enumeration.cancels]

theorem Delivers.run_rebuild (h : Delivers env l s entries) (current : Identity) :
    ∃ s', (rebuild env l current).run.run s = (.ok (.ofEntries current entries), s') ∧
      s'.cache.decodeCalls = s.cache.decodeCalls + entries.length := by
  cases hrun : (rebuild env l current).run.run s with
  | mk r s' =>
    have hdelivered := wp_rebuild_delivered current h.listing (cancels_map_entry entries) h.running
    obtain ⟨rfl, -⟩ := wp_of_run hdelivered hrun
    have hread : Scan.outcome l current ⟨entries.map .entry, none⟩ = .ok (.ofEntries current entries) :=
      congrArg (fun es => Except.ok (Index.ofEntries current es)) (entries_map_entry entries)
    have hpass : Pass _ current s _ s' := wp_of_run (wp_rebuild_pass h.listing) hrun
    obtain ⟨-, -, hcalls⟩ := hpass.whole hread
    rw [entries_map_entry] at hcalls
    exact ⟨s', by rw [hread], hcalls⟩

/-- A rebuild gives the index of the entries, and every other rebuild whose well-formed entries are the same gives the
same classes. -/
theorem rebuild_is_scan (h : Delivers env l s entries) (current : Identity) :
    ∃ index s', (rebuild env l current).run.run s = (.ok index, s') ∧ index.identity = current ∧
      index.IsScanOf entries ∧ s'.cache.decodeCalls = s.cache.decodeCalls + entries.length ∧
      ∀ {ω' : Type} {env' : Environment ω'} {l' : Location} {t : Session ω'} {entries' : List ClassEntry},
        Delivers env' l' t entries' → entries'.filter (!·.isMalformed) = entries.filter (!·.isMalformed) →
        ∀ current', ∃ index' t', (rebuild env' l' current').run.run t = (.ok index', t') ∧
          index'.classes = index.classes := by
  obtain ⟨s', hrun, hcalls⟩ := h.run_rebuild current
  refine ⟨_, s', hrun, Index.ofEntries_identity .., Index.isScanOf_ofEntries .., hcalls, ?_⟩
  intro ω' env' l' t entries' h' hsame current'
  obtain ⟨t', hrun', -⟩ := h'.run_rebuild current'
  exact ⟨_, t', hrun', Index.classes_ofEntries_congr hsame⟩

/-- A class, an entry that is no class, and the class again without its last byte. -/
def repeatedEntries : List ClassEntry :=
  let bytes := ClassFile.Blueprint.assemble { name := "a.A" }
  [⟨"first.class", bytes⟩, ⟨"junk.class", [1, 2, 3]⟩, ⟨"second.class", bytes.dropLast⟩]

theorem deliveries_eq_map {c : ScriptedContainer} (hfail : c.failAfter = none) (hcancel : c.cancelAfter = none)
    (position : Nat) (entries : List ClassEntry) : c.deliveries position entries = ⟨entries.map .entry, none⟩ := by
  induction entries generalizing position with
  | nil => rfl
  | cons e entries ih => simp [ScriptedContainer.deliveries, hfail, hcancel, ih]

/-- An archive in memory delivers what it holds. -/
theorem delivers_archive (entries : List ClassEntry) : Delivers ScriptedWorld.environment (.archive "a.jar")
    ⟨{}, { containers := NameMap.empty.insert "a.jar" { entries } }, false⟩ entries where
  listing := by
    show (ScriptedWorld.enumerate _ _).1 = _
    rw [ScriptedWorld.enumerate, Location.logicalPath, NameMap.find?_insert_self]
    exact congrArg Listing.delivered (deliveries_eq_map rfl rfl 0 entries)
  running := rfl

/-- The class that is cut short is noted twice, and without the entry that is no class the classes are the same. -/
theorem rebuild_of_repeatedEntries :
    let env := ScriptedWorld.environment
    let l := Location.archive "a.jar"
    let current : Identity := ⟨"a.jar", 1, 2, none⟩
    let session (entries : List ClassEntry) : Session ScriptedWorld :=
      ⟨{}, { containers := NameMap.empty.insert "a.jar" { entries } }, false⟩
    let wellFormed := repeatedEntries.filter (!·.isMalformed)
    Delivers env l (session repeatedEntries) repeatedEntries ∧ Delivers env l (session wellFormed) wellFormed ∧
      wellFormed.length = 2 ∧
      ∃ index s' index' t', (rebuild env l current).run.run (session repeatedEntries) = (.ok index, s') ∧
        (rebuild env l current).run.run (session wellFormed) = (.ok index', t') ∧
        index.failures = [("junk.class", "unexpected end of class file at offset 0"),
          ("second.class", "unexpected end of class file at offset 53"),
          ("second.class", "duplicate definition of a.A")] ∧
        s'.cache.decodeCalls = 3 ∧ index'.classes = index.classes := by
  intro env l current session wellFormed
  have hall : Delivers env l (session repeatedEntries) repeatedEntries := delivers_archive repeatedEntries
  have hwell : Delivers env l (session wellFormed) wellFormed := delivers_archive wellFormed
  obtain ⟨index, s', hrun, -, hscan, hcalls, hothers⟩ := rebuild_is_scan hall current
  have hsame : wellFormed.filter (!·.isMalformed) = wellFormed := List.filter_filter.trans (by simp [wellFormed])
  obtain ⟨index', t', hrun', hclasses⟩ := hothers hwell hsame current
  refine ⟨hall, hwell, by decide +kernel, index, s', index', t', hrun, hrun', ?_, hcalls, hclasses⟩
  rw [hscan.failures]
  decide +kernel

end ClassCatalog.Loading

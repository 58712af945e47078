import ClassCatalog.Proofs.Cache.Faithful
import ClassCatalog.Proofs.Cache.Reading

/-!
# What there is of a container

What a container shows to the cache is its size and time, the digest it has of its own, and what reading it
delivers (`Environment.exhibit`). That is changed by others only (`Environment.Presents`): neither reading a
container nor writing to the store does. An index describes a container of its identity if it is what a scan
makes of it (`Index.Describes`).
-/

namespace ClassCatalog

variable {ω : Type} {env : Environment ω} {settings : CacheSettings} {contents : ω → Location → Enumeration}
  {held : ω → String → Option Bytes} {l : Location} {w w' : ω}

/-! ### Containers -/

/-- All that the cache can see of a container. -/
def Environment.exhibit (env : Environment ω) (contents : ω → Location → Enumeration) (l : Location) (w : ω) :
    Except String ContainerStat × Option (Except String String) × Enumeration :=
  (env.stat l w, env.ownDigest l w, contents w l)

/-- The identity that a container has, or why it cannot be learned. -/
def Environment.identity (env : Environment ω) (settings : CacheSettings)
    (contents : ω → Location → Enumeration) (l : Location) (w : ω) : Except ScanError Identity :=
  Loading.identityFrom settings l (env.stat l w) (env.ownDigest l w) (contents w l)

/-- What a container delivers when it does, and nothing that a load or an invalidation does changes what there
is of any. -/
structure Environment.Presents (env : Environment ω) (contents : ω → Location → Enumeration) : Prop where
  delivered {l : Location} {w : ω} {course : Enumeration} :
    (env.enumerate l w).1 = .delivered course → course = contents w l
  enumerate (l k : Location) (w : ω) : env.exhibit contents k (env.enumerate l w).2 = env.exhibit contents k w
  put (key : String) (bytes : Bytes) (w : ω) (k : Location) :
    env.exhibit contents k (env.store.put key bytes w).2 = env.exhibit contents k w
  delete (key : String) (w : ω) (k : Location) :
    env.exhibit contents k (env.store.delete key w).2 = env.exhibit contents k w

theorem Environment.Presents.of_enumerate (h : env.Presents contents) {listing : Listing}
    (henumerate : env.enumerate l w = (listing, w')) (k : Location) :
    env.exhibit contents k w' = env.exhibit contents k w := by
  rw [← h.enumerate l k w, henumerate]

theorem Environment.contents_of_exhibit (h : env.exhibit contents l w' = env.exhibit contents l w) :
    contents w' l = contents w l := congrArg (fun x => x.2.2) h

theorem Environment.identity_of_exhibit (h : env.exhibit contents l w' = env.exhibit contents l w) :
    env.identity settings contents l w' = env.identity settings contents l w := by
  obtain ⟨hstat, hown, hcontents⟩ : env.stat l w' = env.stat l w ∧ env.ownDigest l w' = env.ownDigest l w ∧
      contents w' l = contents w l := by simpa [exhibit] using h
  simp only [identity, hstat, hown, hcontents]

namespace Loading

theorem tolerates_exhibit (h : env.Presents contents) : Tolerates env fun s s' : Session ω =>
    ∀ k, env.exhibit contents k s'.world = env.exhibit contents k s.world where
  refl _ _ := rfl
  trans hab hbc k := (hbc k).trans (hab k)
  enumerate l s k := h.enumerate l k s.world
  cancel _ _ _ := rfl

/-- What is learned is the identity that the container has. -/
theorem wp_resolve_identity (h : env.Presents contents) (l : Location) (s : Session ω) :
    wp (resolve env settings l) (fun r _ => ∀ current, r = .ok current →
      env.identity settings contents l s.world = .ok current) s := by
  unfold Environment.identity resolve digest entriesDigest
  rw [wp_bind, wp_get, andThen_ok]
  cases env.stat l s.world with
  | error reason =>
    intro current hok
    cases hok
  | ok stat =>
    cases hpolicy : settings.identityPolicy with
    | timestampSize =>
      simp only [identityFrom, hpolicy, wp_bind, wp_pure, andThen_ok]
      exact fun _ h => h
    | contentDigest =>
      simp only [identityFrom, hpolicy, wp_bind, wp_get, andThen_ok]
      cases env.ownDigest l s.world with
      | some own =>
        cases own with
        | ok digest => exact fun _ h => h
        | error reason =>
          intro current hok
          cases hok
      | none =>
        simp only [wp_bind]
        cases hlisting : (env.enumerate l s.world).1 with
        | interrupted =>
          rw [wp_enumerate_interrupted hlisting rfl]
          intro current hok
          cases hok
        | delivered course =>
          obtain rfl := h.delivered hlisting
          rw [wp_enumerate_delivered hlisting rfl, andThen_ok, wp_bind, wp_modify, andThen_ok]
          cases (contents s.world l).failure with
          | some reason =>
            intro current hok
            cases hok
          | none => exact fun _ h => h

theorem run_resolve_exhibit (h : env.Presents contents) {s σ : Session ω} {r : Except ScanError Identity}
    (hrun : (resolve env settings l).run.run s = (r, σ)) (k : Location) :
    env.exhibit contents k σ.world = env.exhibit contents k s.world :=
  wp_of_run ((tolerates_exhibit h).keeps_resolve l s) hrun k

theorem identity_of_run_resolve (h : env.Presents contents) {s σ : Session ω} {current : Identity}
    (hrun : (resolve env settings l).run.run s = (.ok current, σ)) :
    env.identity settings contents l s.world = .ok current :=
  wp_of_run (wp_resolve_identity h l s) hrun current rfl

/-- Learning an identity does not change what the store holds. -/
theorem run_resolve_held (h : env.Faithful held) {s σ : Session ω} {r : Except ScanError Identity}
    (hrun : (resolve env settings l).run.run s = (r, σ)) (key : String) :
    held σ.world key = held s.world key := by
  have hR : Tolerates env fun s s' : Session ω => held s'.world key = held s.world key :=
    ⟨fun _ => rfl, fun hab hbc => hbc.trans hab, fun l s => h.enumerate l s.world key, fun _ _ => rfl⟩
  exact wp_of_run (hR.keeps_resolve l s) hrun

end Loading

theorem ScriptedWorld.containers_enumerate (l : Location) (w : ScriptedWorld) :
    (environment.enumerate l w).2.containers = w.containers := by
  show (ScriptedWorld.enumerate l w).2.containers = w.containers
  unfold ScriptedWorld.enumerate
  split
  · rfl
  · split <;> rfl

theorem ScriptedWorld.exhibit_of_containers {w w' : ScriptedWorld} (h : w'.containers = w.containers)
    (l : Location) : environment.exhibit listing l w' = environment.exhibit listing l w := by
  simp only [Environment.exhibit, environment, listing, h]

theorem ScriptedWorld.presents : environment.Presents listing where
  delivered {l w course} h := by
    replace h : (ScriptedWorld.enumerate l w).1 = .delivered course := h
    unfold ScriptedWorld.enumerate at h
    unfold listing
    cases hfind : w.containers.find? l.logicalPath with
    | none =>
      rw [hfind] at h
      exact (Listing.delivered.inj h).symm
    | some c =>
      rw [hfind] at h
      dsimp only at h
      split at h
      · exact (Listing.delivered.inj h).symm
      · nomatch h
  enumerate l k w := exhibit_of_containers (containers_enumerate l w) k
  put key bytes w k := exhibit_of_containers rfl k
  delete key w k := exhibit_of_containers rfl k

/-! ### Indexes -/

/-- There has been a container of this identity that delivered this. -/
def Environment.Was (env : Environment ω) (settings : CacheSettings) (contents : ω → Location → Enumeration)
    (past : ω → Prop) (identity : Identity) (course : Enumeration) : Prop :=
  ∃ l w, past w ∧ env.identity settings contents l w = .ok identity ∧ contents w l = course

theorem Environment.Was.mono {past past' : ω → Prop} {identity : Identity} {course : Enumeration}
    (h : env.Was settings contents past identity course) (hpast : ∀ w, past w → past' w) :
    env.Was settings contents past' identity course := by
  obtain ⟨l, w, hw, hidentity, hcourse⟩ := h
  exact ⟨l, w, hpast w hw, hidentity, hcourse⟩

/-- An index is what a scan made of a container that had its identity. -/
def Index.Describes (was : Identity → Enumeration → Prop) (index : Index) : Prop :=
  ∃ course, was index.identity course ∧ course.failure = none ∧
    index = .ofEntries index.identity course.entries

theorem Index.Describes.mono {was was' : Identity → Enumeration → Prop} {index : Index}
    (h : index.Describes was) (hwas : ∀ identity course, was identity course → was' identity course) :
    index.Describes was' := by
  obtain ⟨course, hthere, hcomplete, hscanned⟩ := h
  exact ⟨course, hwas _ _ hthere, hcomplete, hscanned⟩

theorem Index.describes_ofEntries {was : Identity → Enumeration → Prop} {identity : Identity}
    {course : Enumeration} (h : was identity course) (hcomplete : course.failure = none) :
    (ofEntries identity course.entries).Describes was := by
  refine ⟨course, ?_, hcomplete, ?_⟩ <;> rw [ofEntries_identity]
  exact h

/-- Every index in memory has a property, and so has every index that stored bytes would be read as. -/
structure Cache.Every (p : Index → Prop) (held : ω → String → Option Bytes) (c : Cache) (w : ω) : Prop where
  published {key : String} {loaded : Loaded} : c.published.find? key = some loaded → p loaded.index
  stored {key : String} {bytes : Bytes} {index : Index} :
    held w key = some bytes → Blob.decode bytes = .ok index → p index

namespace Cache.Every

variable {p q : Index → Prop} {c c' : Cache} {index : Index}

theorem mono (h : c.Every p held w) (hpq : ∀ index, p index → q index) : c.Every q held w :=
  ⟨fun hfind => hpq _ (h.published hfind), fun hheld hdecode => hpq _ (h.stored hheld hdecode)⟩

/-- A cache with fewer indexes, and a store that may have lost some. -/
theorem weaken (h : c.Every p held w)
    (hpublished : ∀ key loaded, c'.published.find? key = some loaded → c.published.find? key = some loaded)
    (hheld : ∀ key, held w' key = held w key ∨ held w' key = none) : c'.Every p held w' := by
  refine ⟨fun hfind => h.published (hpublished _ _ hfind), fun {key bytes index} hfound hdecode => ?_⟩
  obtain hsame | hnone := hheld key
  · exact h.stored (hsame ▸ hfound) hdecode
  · nomatch hnone.symm.trans hfound

theorem publish (h : c.Every p held w) (hindex : p index) (key : String) :
    (c.publish key index).2.Every p held w := by
  refine ⟨fun {k loaded} hfind => ?_, h.stored⟩
  rw [Cache.publish, NameMap.find?_insert] at hfind
  split at hfind
  · exact Option.some.inj hfind ▸ hindex
  · exact h.published hfind

theorem put (h : c.Every p held w) (hstore : env.store.Honest held) (hindex : p index)
    (hfits : (Blob.encode index).length < Blob.addressable) (key : String) :
    c.Every p held (env.store.put key (Blob.encode index) w).2 := by
  refine ⟨h.published, fun {k bytes i} hfound hdecode => ?_⟩
  obtain hsame | hnone | hput := hstore.put key (Blob.encode index) w k
  · exact h.stored (hsame ▸ hfound) hdecode
  · nomatch hnone.symm.trans hfound
  · obtain rfl := Option.some.inj (hput.symm.trans hfound)
    rw [Blob.decode_encode hfits] at hdecode
    exact Except.ok.inj hdecode ▸ hindex

theorem readStored (h : c.Every p held w) (hstore : env.store.Honest held) {key : String}
    (hread : Loading.readStored env key w = .ok (some index)) : p index := by
  unfold Loading.readStored at hread
  split at hread
  · nomatch hread
  · nomatch hread
  · rename_i bytes hget
    split at hread
    · nomatch hread
    · rename_i found hdecode
      obtain rfl := Option.some.inj (Except.ok.inj hread)
      exact h.stored (hstore.get hget) hdecode

end Cache.Every

end ClassCatalog

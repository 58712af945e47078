import ClassCatalog.Proofs.Disk.Within
import ClassCatalog.Proofs.Store.Calls

/-!
# A directory as a map

A directory stands for a map if under the file name of every cache key it has the bytes of the key
(`DirectoryStore.Holds`). Staging files may be lying about: no answer looks at them, and each step that needs
the name of one takes it over. Nothing else in the directory may have the extension of a blob, and nothing
with that of a staging file may be a directory, for such a thing can neither be written nor taken away.
-/

namespace ClassCatalog

/-! ### Names of files -/

theorem utf8ByteSize_of_single {s : String} (h : ∀ c ∈ s.toList, c.utf8Size = 1) :
    s.utf8ByteSize = s.toList.length := by
  have hlist : ∀ cs : List Char, (∀ c ∈ cs, c.utf8Size = 1) → (String.ofList cs).utf8ByteSize = cs.length := by
    intro cs hcs
    induction cs with
    | nil => rfl
    | cons c cs ih =>
      have hc := hcs c List.mem_cons_self
      have hrest := ih fun c hc => hcs c (List.mem_cons_of_mem _ hc)
      rw [← List.singleton_append, String.ofList_append, String.utf8ByteSize_append, hrest]
      simp [hc]
      omega
  rw [← hlist s.toList h, String.ofList_toList]

namespace DirectoryStore

/-- The name of a file for a key. -/
def entryName (key extension : String) : String := key ++ "." ++ extension

theorem blobPath_eq (root key : String) :
    blobPath root key = FilePath.join root (entryName key blobExtension) := rfl

theorem stagingPath_eq (root key : String) :
    stagingPath root key = FilePath.join root (entryName key stagingExtension) := rfl

/-- The extensions that files of a store have. -/
def IsExtension (extension : String) : Prop := extension = blobExtension ∨ extension = stagingExtension

variable {root key k extension name : String}

theorem toList_entryName (key extension : String) :
    (entryName key extension).toList = key.toList ++ '.' :: extension.toList := by
  simp [entryName]

theorem char_of_isCacheKey (hkey : IsCacheKey key) {c : Char} (hc : c ∈ key.toList) :
    c ≠ '/' ∧ c ≠ '\x00' ∧ c ≠ '.' ∧ c.utf8Size = 1 := by
  have hdigits : "0123456789abcdefABCDEF".toList.all
      fun c => c ≠ '/' ∧ c ≠ '\x00' ∧ c ≠ '.' ∧ c.utf8Size = 1 := by decide
  exact of_decide_eq_true (List.all_eq_true.1 hdigits c (hkey.2 c hc))

theorem char_of_isExtension (hextension : IsExtension extension) {c : Char} (hc : c ∈ extension.toList) :
    c ≠ '/' ∧ c ≠ '\x00' ∧ c ≠ '.' ∧ c.utf8Size = 1 := by
  have hextensions : (blobExtension.toList ++ stagingExtension.toList).all
      fun c => c ≠ '/' ∧ c ≠ '\x00' ∧ c ≠ '.' ∧ c.utf8Size = 1 := by decide
  have hmem : c ∈ blobExtension.toList ++ stagingExtension.toList := by
    obtain rfl | rfl := hextension
    · exact List.mem_append_left _ hc
    · exact List.mem_append_right _ hc
  exact of_decide_eq_true (List.all_eq_true.1 hextensions c hmem)

theorem length_of_isExtension (hextension : IsExtension extension) : extension.toList.length = 3 := by
  obtain rfl | rfl := hextension <;> rfl

/-- The text of a file name holds a key, a dot and an extension. -/
theorem char_of_entryName (hkey : IsCacheKey key) (hextension : IsExtension extension) {c : Char}
    (hc : c ∈ (entryName key extension).toList) : c ≠ '/' ∧ c ≠ '\x00' ∧ c.utf8Size = 1 := by
  rw [toList_entryName] at hc
  rcases List.mem_append.1 hc with hc | hc
  · obtain ⟨hslash, hzero, -, hsize⟩ := char_of_isCacheKey hkey hc
    exact ⟨hslash, hzero, hsize⟩
  · rcases List.mem_cons.1 hc with rfl | hc
    · decide
    · obtain ⟨hslash, hzero, -, hsize⟩ := char_of_isExtension hextension hc
      exact ⟨hslash, hzero, hsize⟩

theorem isFileName_entryName (hkey : IsCacheKey key) (hextension : IsExtension extension) :
    IsFileName (entryName key extension) := by
  have hlength : (entryName key extension).toList.length = 68 := by
    rw [toList_entryName, List.length_append, List.length_cons, hkey.1, length_of_isExtension hextension]
  have hlong : ∀ {text : String}, text.toList.length < 68 → entryName key extension ≠ text := by
    rintro text hshort rfl
    omega
  refine ⟨hlong (by decide), hlong (by decide), hlong (by decide), fun hc => ?_, fun hc => ?_, ?_⟩
  · exact (char_of_entryName hkey hextension hc).1 rfl
  · exact (char_of_entryName hkey hextension hc).2.1 rfl
  · rw [utf8ByteSize_of_single fun c hc => (char_of_entryName hkey hextension hc).2.2, hlength]
    decide

theorem isFileName_blob (hkey : IsCacheKey key) : IsFileName (entryName key blobExtension) :=
  isFileName_entryName hkey (.inl rfl)

theorem isFileName_staging (hkey : IsCacheKey key) : IsFileName (entryName key stagingExtension) :=
  isFileName_entryName hkey (.inr rfl)

theorem entryName_inj (h : entryName key extension = entryName k extension) : key = k := by
  have htexts := congrArg String.toList h
  rw [toList_entryName, toList_entryName] at htexts
  exact String.toList_inj.1 (List.append_cancel_right htexts)

theorem extension?_entryName (hkey : IsCacheKey key) (hextension : IsExtension extension) :
    FilePath.extension? (entryName key extension) = some extension := by
  have hdot : '.' ∉ extension.toList := fun hc => (char_of_isExtension hextension hc).2.2.1 rfl
  have hne : key.toList ≠ [] := fun h => by simpa [h] using hkey.1
  unfold FilePath.extension?
  rw [(isFileName_entryName hkey hextension).fileName?_eq]
  simp [toList_entryName, Text.splitLast?_append hdot, hne]

/-- What has an extension is neither empty nor made of dots. -/
theorem ne_of_extension? (h : FilePath.extension? name = some extension) :
    name ≠ "" ∧ name ≠ "." ∧ name ≠ ".." := by
  have hnone : ∀ text ∈ ["", ".", ".."], FilePath.extension? text = none := by decide
  have hne : ∀ text ∈ ["", ".", ".."], name ≠ text := by
    rintro text htext rfl
    nomatch (hnone name htext).symm.trans h
  exact ⟨hne _ (by simp), hne _ (by simp), hne _ (by simp)⟩

theorem blob_ne_staging (hkey : IsCacheKey key) (hk : IsCacheKey k) :
    entryName key blobExtension ≠ entryName k stagingExtension := by
  intro heq
  have hextension := extension?_entryName hkey (.inl rfl)
  rw [heq, extension?_entryName hk (.inr rfl)] at hextension
  exact absurd hextension (by decide)

variable {d d' : Disk} {p : Place} {m n : NameMap Bytes} {bytes : Bytes}

/-! ### Listing and taking away -/

/-- A file of a store, by its extension. -/
def IsEntry (name : String) : Prop := ∃ e, IsExtension e ∧ FilePath.extension? name = some e

theorem mem_namesWith {extensions : List String} {names : List String} (h : d.Within root p)
    (hnames : namesWith root extensions d = .ok names) :
    name ∈ names ↔ name ∈ d.children p ∧ ∃ e ∈ extensions, FilePath.extension? name = some e := by
  unfold namesWith at hnames
  rw [h.list] at hnames
  obtain rfl := Except.ok.inj hnames
  rw [List.mem_filter]
  cases FilePath.extension? name with
  | none => simp
  | some e => simp

theorem namesWith_ok (h : d.Within root p) (extensions : List String) :
    ∃ names, namesWith root extensions d = .ok names ∧ names.Nodup := by
  unfold namesWith
  rw [h.list]
  exact ⟨_, rfl, (Disk.nodup_children d p).filter _⟩

/-- Files are taken away one after the other, and nothing else is. -/
theorem removeAll_ok {names : List String} (hwithin : d.Within root p) (hnodup : names.Nodup)
    (hfiles : ∀ name ∈ names, IsFileName name ∧ ∃ bytes, d.inside p name = some (some bytes)) :
    ∃ d', removeAll root names d = (.ok (), d') ∧ d'.Within root p ∧
      ∀ key, d'.contents.find? key =
        if key ∈ names.map fun name => (p.child name).key then none else d.contents.find? key := by
  induction names generalizing d with
  | nil => exact ⟨d, rfl, hwithin, fun key => (if_neg List.not_mem_nil).symm⟩
  | cons name rest ih =>
    obtain ⟨hnew, hrest⟩ := List.nodup_cons.1 hnodup
    obtain ⟨⟨hname, bytes, hfile⟩, hfiles⟩ := List.forall_mem_cons.1 hfiles
    obtain ⟨next, hremove, hcontents⟩ := Disk.remove_ok (hwithin.locate hname) hfile
    have hfree : d.contents.find? (p.child name).key ≠ some none := by
      rw [show d.contents.find? (p.child name).key = some (some bytes) from hfile]
      exact nofun
    obtain ⟨d', hall, hd', hfind⟩ := ih (hwithin.keeps (.of_erase hcontents hfree)) hrest fun other hother => by
      have hne : other ≠ name := fun heq => hnew (heq ▸ hother)
      rw [Disk.Within.inside_erase hcontents, if_neg hne]
      exact hfiles other hother
    refine ⟨d', by simp only [removeAll, hremove, hall], hd', fun key => ?_⟩
    rw [hfind, hcontents, NameMap.find?_erase, List.map_cons]
    by_cases hmem : key ∈ rest.map fun name => (p.child name).key
    · rw [if_pos hmem, if_pos (List.mem_cons_of_mem _ hmem)]
    · rw [if_neg hmem]
      by_cases heq : key = (p.child name).key
      · rw [if_pos heq, if_pos (heq ▸ List.mem_cons_self)]
      · rw [if_neg heq, if_neg (by simpa [heq] using hmem)]

theorem inside_of_removed {names : List String} (h : ∀ key, d'.contents.find? key =
      if key ∈ names.map fun name => (p.child name).key then none else d.contents.find? key) (other : String) :
    d'.inside p other = if other ∈ names then none else d.inside p other := by
  have hmem : (p.child other).key ∈ (names.map fun name => (p.child name).key) ↔ other ∈ names := by
    rw [List.mem_map]
    constructor
    · rintro ⟨name, hname, hkey⟩
      exact Place.child_key_inj hkey ▸ hname
    · exact fun hother => ⟨other, hother, rfl⟩
  unfold Disk.inside
  rw [h]
  simp only [hmem]

/-- A directory in which what has the extension of a blob or a staging file is a file is emptied of these files,
and of nothing else. -/
theorem clear_ok (hwithin : d.Within root p)
    (hfiles : ∀ name ∈ d.children p, IsEntry name → IsFileName name ∧ ∃ bytes, d.inside p name = some (some bytes)) :
    ∃ d', ∃ names : List String, DirectoryStore.clear root d = (.ok (), d') ∧ d'.Within root p ∧
      (∀ name, name ∈ names ↔ name ∈ d.children p ∧ IsEntry name) ∧
      ∀ key, d'.contents.find? key =
        if key ∈ names.map fun name => (p.child name).key then none else d.contents.find? key := by
  obtain ⟨names, hnames, hnodup⟩ := namesWith_ok hwithin [blobExtension, stagingExtension]
  have hmem : ∀ name, name ∈ names ↔ name ∈ d.children p ∧ IsEntry name := by
    intro name
    rw [mem_namesWith hwithin hnames]
    simp only [IsEntry, IsExtension, List.mem_cons, List.not_mem_nil, or_false]
  obtain ⟨d', hall, hwithin', hfind⟩ := removeAll_ok hwithin hnodup fun name hname =>
    hfiles name ((hmem name).1 hname).1 ((hmem name).1 hname).2
  exact ⟨d', names, by simp only [DirectoryStore.clear, hnames, hall], hwithin', hmem, hfind⟩

/-- Of these files none is left. -/
theorem not_isEntry_of_cleared {names : List String} (hmem : ∀ name, name ∈ names ↔ name ∈ d.children p ∧ IsEntry name)
    (hfind : ∀ key, d'.contents.find? key =
      if key ∈ names.map fun name => (p.child name).key then none else d.contents.find? key)
    (hname : name ∈ d'.children p) : ¬ IsEntry name := by
  intro hentry
  obtain ⟨hne, hslash, hinside⟩ := Disk.mem_children.1 hname
  rw [inside_of_removed hfind] at hinside
  split at hinside
  · exact hinside rfl
  · rename_i hnot
    exact hnot ((hmem name).2 ⟨Disk.mem_children.2 ⟨hne, hslash, hinside⟩, hentry⟩)

/-! ### Maps in a directory -/

/-- A directory holds the bytes that a map has under cache keys. -/
structure Holds (root : String) (p : Place) (d : Disk) (m : NameMap Bytes) : Prop where
  within : d.Within root p
  held (key : String) : IsCacheKey key → d.inside p (entryName key blobExtension) = (m.find? key).map some
  keys (key : String) : m.find? key ≠ none → IsCacheKey key
  blobs (name : String) : name ∈ d.children p → FilePath.extension? name = some blobExtension →
    ∃ key, IsCacheKey key ∧ name = entryName key blobExtension
  staged (name : String) : name ∈ d.children p → FilePath.extension? name = some stagingExtension →
    IsFileName name ∧ ∃ bytes, d.inside p name = some (some bytes)

namespace Holds

theorem blob_free (h : Holds root p d m) (hkey : IsCacheKey key) :
    d.inside p (entryName key blobExtension) ≠ some none := by
  rw [h.held key hkey]
  cases m.find? key <;> exact nofun

theorem mem_children (hkey : IsFileName name) (hinside : d.inside p name ≠ none) : name ∈ d.children p :=
  Disk.mem_children.2 ⟨hkey.nonempty, hkey.no_slash, hinside⟩

theorem staging_free (h : Holds root p d m) (hkey : IsCacheKey key) :
    d.inside p (entryName key stagingExtension) ≠ some none := by
  intro hdirectory
  have hname := isFileName_staging hkey
  obtain ⟨-, bytes, hfile⟩ := h.staged _ (mem_children hname (by rw [hdirectory]; exact nofun))
    (extension?_entryName hkey (.inr rfl))
  nomatch hdirectory.symm.trans hfile

/-- A step that touches the two files of a key only. -/
theorem change (h : Holds root p d m) (hkey : IsCacheKey key) (hwithin : d'.Within root p)
    (hblob : d'.inside p (entryName key blobExtension) = (n.find? key).map some)
    (hstaging : d'.inside p (entryName key stagingExtension) ≠ some none)
    (hother : ∀ name, name ≠ entryName key blobExtension → name ≠ entryName key stagingExtension →
      d'.inside p name = d.inside p name)
    (hmap : ∀ k, k ≠ key → n.find? k = m.find? k) : Holds root p d' n := by
  have hchild : ∀ name, name ∈ d'.children p → name ≠ entryName key blobExtension →
      name ≠ entryName key stagingExtension → name ∈ d.children p := by
    intro name hmem hne hne'
    obtain ⟨hempty, hslash, hinside⟩ := Disk.mem_children.1 hmem
    exact Disk.mem_children.2 ⟨hempty, hslash, hother name hne hne' ▸ hinside⟩
  refine ⟨hwithin, fun k hk => ?_, fun k hfound => ?_, fun name hmem hextension => ?_,
    fun name hmem hextension => ?_⟩
  · by_cases heq : k = key
    · rw [heq, hblob]
    · rw [hother _ (fun h => heq (entryName_inj h)) (blob_ne_staging hk hkey), h.held k hk, hmap k heq]
  · by_cases heq : k = key
    · exact heq ▸ hkey
    · exact h.keys k (hmap k heq ▸ hfound)
  · by_cases heq : name = entryName key blobExtension
    · exact ⟨key, hkey, heq⟩
    · refine h.blobs name (hchild name hmem heq fun hstaged => ?_) hextension
      rw [hstaged, extension?_entryName hkey (.inr rfl)] at hextension
      exact absurd hextension (by decide)
  · by_cases heq : name = entryName key stagingExtension
    · subst heq
      refine ⟨isFileName_staging hkey, ?_⟩
      obtain ⟨-, -, hinside⟩ := Disk.mem_children.1 hmem
      cases hfound : d'.inside p (entryName key stagingExtension) with
      | none => exact absurd hfound hinside
      | some node =>
        cases node with
        | none => exact absurd hfound hstaging
        | some bytes => exact ⟨bytes, rfl⟩
    · have hne : name ≠ entryName key blobExtension := by
        rintro rfl
        rw [extension?_entryName hkey (.inl rfl)] at hextension
        exact absurd hextension (by decide)
      rw [hother name hne heq]
      exact h.staged name (hchild name hmem hne heq) hextension

theorem get (h : Holds root p d m) (hkey : IsCacheKey key) : DirectoryStore.get root key d = .ok (m.find? key) := by
  unfold DirectoryStore.get
  rw [blobPath_eq, h.within.read (isFileName_blob hkey), h.held key hkey]
  cases m.find? key <;> rfl

/-- The first step leaves a staging file, and that is all. -/
theorem stage (h : Holds root p d m) (hkey : IsCacheKey key) (bytes : Bytes) :
    ∃ d', DirectoryStore.stage root key bytes d = .ok d' ∧ Holds root p d' m ∧
      d'.inside p (entryName key stagingExtension) = some (some bytes) := by
  obtain ⟨d', hwrite, hwithin, hinside⟩ :=
    h.within.write (isFileName_staging hkey) (h.staging_free hkey) bytes
  have hstaged : d'.inside p (entryName key stagingExtension) = some (some bytes) := by
    rw [hinside, if_pos rfl]
  refine ⟨d', hwrite, h.change hkey hwithin ?_ ?_ ?_ fun _ _ => rfl, hstaged⟩
  · rw [hinside, if_neg (blob_ne_staging hkey hkey), h.held key hkey]
  · rw [hstaged]
    exact nofun
  · exact fun name _ hne => (hinside name).trans (if_neg hne)

/-- The second step makes the staged bytes those of the key. -/
theorem commit (h : Holds root p d m) (hkey : IsCacheKey key)
    (hstaged : d.inside p (entryName key stagingExtension) = some (some bytes)) :
    ∃ d', DirectoryStore.commit root key d = .ok d' ∧ Holds root p d' (m.insert key bytes) := by
  obtain ⟨d', hrename, hwithin, hinside⟩ :=
    h.within.rename (isFileName_staging hkey) (isFileName_blob hkey) hstaged (h.blob_free hkey)
  refine ⟨d', hrename, h.change hkey hwithin ?_ ?_ ?_ fun k hk => NameMap.find?_insert_of_ne m hk bytes⟩
  · rw [hinside, if_pos rfl, NameMap.find?_insert_self]
    rfl
  · rw [hinside, if_neg (blob_ne_staging hkey hkey).symm, if_pos rfl]
    exact nofun
  · exact fun name hne hne' => (hinside name).trans ((if_neg hne).trans (if_neg hne'))

theorem put (h : Holds root p d m) (hkey : IsCacheKey key) (bytes : Bytes) :
    ∃ d', DirectoryStore.put root key bytes d = (.ok (), d') ∧ Holds root p d' (m.insert key bytes) := by
  obtain ⟨staged, hstage, hheld, hstaged⟩ := h.stage hkey bytes
  obtain ⟨d', hcommit, hdone⟩ := hheld.commit hkey hstaged
  refine ⟨d', ?_, hdone⟩
  simp only [DirectoryStore.put, hstage, hcommit]

/-- What a writer leaves who dies behind the first step does not show. -/
theorem abandon (h : Holds root p d m) (hkey : IsCacheKey key) (staged : Bytes) :
    ∃ d', (Backend.directory root).abandon key staged d = (.ok (), d') ∧ Holds root p d' m := by
  obtain ⟨d', hstage, hheld, -⟩ := h.stage hkey staged
  refine ⟨d', ?_, hheld⟩
  simp only [Backend.directory, hstage, Except.mapError, prepare, hheld.within.makeDirectories, Database.finish]

/-- The staging file of a key is taken away if it is there. -/
theorem unstage (h : Holds root p d m) (hkey : IsCacheKey key) :
    Holds root p (attempt d (d.remove (stagingPath root key))) m := by
  have hname := isFileName_staging hkey
  rw [stagingPath_eq]
  cases hstaged : d.inside p (entryName key stagingExtension) with
  | none =>
    rw [h.within.remove_missing hname hstaged]
    exact h
  | some node =>
    cases node with
    | none => exact absurd hstaged (h.staging_free hkey)
    | some bytes =>
      obtain ⟨d', hremove, hwithin, hinside⟩ := h.within.remove hname hstaged
      rw [hremove]
      refine h.change hkey hwithin ?_ ?_ ?_ fun _ _ => rfl
      · exact (hinside _).trans ((if_neg (blob_ne_staging hkey hkey)).trans (h.held key hkey))
      · rw [attempt, hinside, if_pos rfl]
        exact nofun
      · exact fun name _ hne => (hinside name).trans (if_neg hne)

theorem delete (h : Holds root p d m) (hkey : IsCacheKey key) :
    ∃ d', DirectoryStore.delete root key d = (.ok (m.contains key), d') ∧ Holds root p d' (m.erase key) := by
  have hname := isFileName_blob hkey
  unfold DirectoryStore.delete
  rw [blobPath_eq]
  have h' := h.unstage hkey
  generalize attempt d (d.remove (stagingPath root key)) = cleared at h' ⊢
  dsimp only
  have hheld := h'.held key hkey
  cases hfound : m.find? key with
  | none =>
    rw [hfound] at hheld
    rw [h'.within.remove_missing hname hheld]
    refine ⟨cleared, by simp [NameMap.contains, hfound], ?_⟩
    rwa [NameMap.erase_of_find?_eq_none hfound]
  | some bytes =>
    rw [hfound] at hheld
    obtain ⟨d', hremove, hwithin, hinside⟩ := h'.within.remove hname hheld
    rw [hremove]
    refine ⟨d', by simp [NameMap.contains, hfound], h'.change hkey hwithin ?_ ?_ ?_ fun k hk => ?_⟩
    · rw [hinside, if_pos rfl, NameMap.find?_erase, if_pos rfl]
      rfl
    · rw [hinside, if_neg (blob_ne_staging hkey hkey).symm]
      exact h'.staging_free hkey
    · exact fun name hne _ => (hinside name).trans (if_neg hne)
    · rw [NameMap.find?_erase, if_neg hk]

/-- The files of keys are those of the map. -/
theorem size (h : Holds root p d m) : DirectoryStore.size root d = .ok m.size := by
  obtain ⟨names, hnames, hnodup⟩ := namesWith_ok h.within [blobExtension]
  have hperm : names.Perm (m.names.map fun key => entryName key blobExtension) := by
    refine (List.perm_ext_iff_of_nodup hnodup (m.nodup_names.map fun _ _ => entryName_inj)).2 fun name => ?_
    rw [mem_namesWith h.within hnames, List.mem_map]
    constructor
    · rintro ⟨hmem, e, he, hextension⟩
      obtain rfl := List.mem_singleton.1 he
      obtain ⟨key, hkey, rfl⟩ := h.blobs name hmem hextension
      obtain ⟨-, -, hinside⟩ := Disk.mem_children.1 hmem
      rw [h.held key hkey] at hinside
      cases hfound : m.find? key with
      | none => exact absurd (by rw [hfound]; rfl) hinside
      | some bytes => exact ⟨key, NameMap.mem_names_iff.2 ⟨bytes, hfound⟩, rfl⟩
    · rintro ⟨key, hmem, rfl⟩
      obtain ⟨bytes, hfound⟩ := NameMap.mem_names_iff.1 hmem
      have hkey := h.keys key (by rw [hfound]; exact nofun)
      refine ⟨mem_children (isFileName_blob hkey) ?_, _, List.mem_singleton_self _,
        extension?_entryName hkey (.inl rfl)⟩
      rw [h.held key hkey, hfound]
      exact nofun
  unfold DirectoryStore.size
  rw [hnames]
  show Except.ok names.length = .ok m.size
  rw [hperm.length_eq, List.length_map]
  exact congrArg Except.ok (List.length_map ..)

theorem clear (h : Holds root p d m) :
    ∃ d', DirectoryStore.clear root d = (.ok (), d') ∧ Holds root p d' ∅ := by
  have hfiles : ∀ name ∈ d.children p, IsEntry name →
      IsFileName name ∧ ∃ bytes, d.inside p name = some (some bytes) := by
    rintro name hmem ⟨extension, rfl | rfl, hextension⟩
    · obtain ⟨key, hkey, rfl⟩ := h.blobs name hmem hextension
      obtain ⟨-, -, hinside⟩ := Disk.mem_children.1 hmem
      rw [h.held key hkey] at hinside ⊢
      cases hfound : m.find? key with
      | none => exact absurd (by rw [hfound]; rfl) hinside
      | some bytes => exact ⟨isFileName_blob hkey, bytes, rfl⟩
    · exact h.staged name hmem hextension
  obtain ⟨d', names, hclear, hwithin, hmem, hfind⟩ := clear_ok h.within hfiles
  have hnone := fun {name} (hname : name ∈ d'.children p) => not_isEntry_of_cleared hmem hfind hname
  refine ⟨d', hclear, hwithin, fun key hkey => ?_, fun key hfound => absurd rfl hfound,
    fun name hmem' hextension => absurd ⟨_, .inl rfl, hextension⟩ (hnone hmem'),
    fun name hmem' hextension => absurd ⟨_, .inr rfl, hextension⟩ (hnone hmem')⟩
  by_contra hfound
  exact hnone (mem_children (isFileName_blob hkey) hfound) ⟨_, .inl rfl, extension?_entryName hkey (.inl rfl)⟩

end Holds

/-- A directory in which all blobs are files of cache keys and all staging files are files. -/
structure Clean (root : String) (d : Disk) (names : List String) : Prop where
  listed : d.list root = .ok names
  blobs (name : String) : name ∈ names → FilePath.extension? name = some blobExtension →
    ∃ key bytes, IsCacheKey key ∧ name = entryName key blobExtension ∧
      d.read (FilePath.join root name) = .ok bytes
  staged (name : String) : name ∈ names → FilePath.extension? name = some stagingExtension →
    ∃ bytes, d.read (FilePath.join root name) = .ok bytes

/-- What blobs there are under the names of a list, as a map. -/
theorem exists_map (names : List String)
    (hblobs : ∀ name ∈ names, FilePath.extension? name = some blobExtension →
      ∃ key bytes, IsCacheKey key ∧ name = entryName key blobExtension ∧
        d.inside p name = some (some bytes)) :
    ∃ m : NameMap Bytes, (∀ key, m.find? key ≠ none → IsCacheKey key) ∧ ∀ key, IsCacheKey key →
      (m.find? key).map some =
        if entryName key blobExtension ∈ names then d.inside p (entryName key blobExtension) else none := by
  induction names with
  | nil => exact ⟨∅, fun key hfound => absurd rfl hfound, fun key _ => rfl⟩
  | cons name rest ih =>
    obtain ⟨hname, hblobs⟩ := List.forall_mem_cons.1 hblobs
    obtain ⟨m, hkeys, hm⟩ := ih hblobs
    by_cases hextension : FilePath.extension? name = some blobExtension
    · obtain ⟨key, bytes, hkey, rfl, hinside⟩ := hname hextension
      refine ⟨m.insert key bytes, fun k hfound => ?_, fun k hk => ?_⟩
      · by_cases heq : k = key
        · exact heq ▸ hkey
        · exact hkeys k (by rwa [NameMap.find?_insert_of_ne m heq] at hfound)
      · by_cases heq : k = key
        · subst heq
          rw [NameMap.find?_insert_self, if_pos List.mem_cons_self, hinside]
          rfl
        · have hne : entryName k blobExtension ≠ entryName key blobExtension := fun h => heq (entryName_inj h)
          rw [NameMap.find?_insert_of_ne m heq, hm k hk]
          simp [hne]
    · refine ⟨m, hkeys, fun k hk => ?_⟩
      have hne : entryName k blobExtension ≠ name := by
        rintro rfl
        exact hextension (extension?_entryName hk (.inl rfl))
      rw [hm k hk]
      simp [hne]

/-- A clean directory stands for a map. -/
theorem Clean.holds {names : List String} (h : Clean root d names) : ∃ p m, Holds root p d m := by
  obtain ⟨p, t, hfind⟩ : ∃ p t, d.find root = .ok (p, .directory t) := by
    have hlisted := h.listed
    unfold Disk.list at hlisted
    split at hlisted
    · nomatch hlisted
    · nomatch hlisted
    · rename_i p t hfind
      exact ⟨p, t, hfind⟩
  have hwithin : d.Within root p := by
    unfold Disk.find at hfind
    split at hfind
    · nomatch hfind
    · rename_i q hlocate
      split at hfind
      · nomatch hfind
      · rename_i node hnode
        obtain ⟨rfl, rfl⟩ := Prod.mk.inj (Except.ok.inj hfind)
        exact ⟨hlocate, Disk.contents_eq_directory.2 ⟨t, hnode⟩⟩
  obtain rfl : d.children p = names := Except.ok.inj (hwithin.list.symm.trans h.listed)
  have hinside : ∀ {name bytes}, IsFileName name → d.read (FilePath.join root name) = .ok bytes →
      d.inside p name = some (some bytes) := by
    intro name bytes hname hread
    rw [hwithin.read hname] at hread
    split at hread
    · nomatch hread
    · nomatch hread
    · rename_i found hfound
      rw [hfound, Except.ok.inj hread]
  obtain ⟨m, hkeys, hm⟩ := exists_map (d.children p) fun name hmem hextension => by
    obtain ⟨key, bytes, hkey, rfl, hread⟩ := h.blobs name hmem hextension
    exact ⟨key, bytes, hkey, rfl, hinside (isFileName_blob hkey) hread⟩
  refine ⟨p, m, hwithin, fun key hkey => ?_, hkeys, fun name hmem hextension => ?_,
    fun name hmem hextension => ?_⟩
  · rw [hm key hkey]
    split
    · rfl
    · rename_i hnot
      by_contra hfound
      exact hnot (Holds.mem_children (isFileName_blob hkey) hfound)
  · obtain ⟨key, -, hkey, rfl, -⟩ := h.blobs name hmem hextension
    exact ⟨key, hkey, rfl⟩
  · obtain ⟨bytes, hread⟩ := h.staged name hmem hextension
    obtain ⟨hne, hcurrent, habove⟩ := ne_of_extension? hextension
    obtain ⟨-, hslash, -⟩ := Disk.mem_children.1 hmem
    obtain ⟨q, hlocate, -⟩ := Disk.read_eq_ok.1 hread
    have hname := hwithin.isFileName hne hcurrent habove hslash hlocate
    exact ⟨hname, bytes, hinside hname hread⟩

end DirectoryStore

end ClassCatalog

import ClassCatalog.Proofs.Store.Contract
import ClassCatalog.Proofs.Store.Directory

/-!
# Putting into a directory

As long as one process puts at a time, the file that has the name of a blob, or had it when a reader opened it,
is never written again: it was written to the end while it had the name of a staging file, and now that name
stands for another file (`Folder.Settled`). A second writer opens the very file that the first is about to
rename.
-/

namespace ClassCatalog

namespace Folder

/-- What a process can do next in a directory. -/
inductive Turn (f : Folder) : Errand Writing Nat Empty → Errand Writing Nat Empty → Folder → Prop
  | empty {bytes : Bytes} {n : Nat} (hstaging : f.staging = some n) :
      Turn f (.toPut bytes) (.putting bytes (.created n)) (f.setFile n [])
  | make {bytes : Bytes} (hnone : f.staging = none) :
      Turn f (.toPut bytes) (.putting bytes (.created f.fresh))
        { f.setFile f.fresh [] with staging := some f.fresh, fresh := f.fresh + 1 }
  | write {bytes : Bytes} {n : Nat} :
      Turn f (.putting bytes (.created n)) (.putting bytes .written) (f.write n bytes)
  | rename {bytes : Bytes} {n : Nat} (hstaging : f.staging = some n) :
      Turn f (.putting bytes .written) (.put bytes (.ok ())) { f with staging := none, blob := some n }
  | miss {bytes : Bytes} (hnone : f.staging = none) :
      Turn f (.putting bytes .written) (.putting bytes (.refused .notFound)) f
  | giveUp {bytes : Bytes} {e : DiskError} :
      Turn f (.putting bytes (.refused e)) (.put bytes (.error (.ofDisk e))) { f with staging := none }
  | find {n : Nat} (hblob : f.blob = some n) : Turn f .toGet (.getting n) f
  | lack (hnone : f.blob = none) : Turn f .toGet (.got none) f
  | read {n : Nat} : Turn f (.getting n) (.got (some (f.files n))) f
  | open : Turn f .toOpen .opened f

variable {ι : Type} [DecidableEq ι] {f f' : Folder} {e e' : Errand Writing Nat Empty}
  {s : Team ι Folder Writing Nat Empty} {known : Bytes → Prop} {i : ι}

theorem turn_of_next (h : protocol.next f e = some (e', f')) : Turn f e e' f' := by
  cases e with
  | toPut bytes =>
    simp only [Protocol.next, protocol, create] at h
    cases hstaging : f.staging with
    | none =>
      rw [hstaging] at h
      cases h
      exact .make hstaging
    | some n =>
      rw [hstaging] at h
      cases h
      exact .empty hstaging
  | putting bytes p =>
    cases p with
    | created n =>
      cases h
      exact .write
    | written =>
      simp only [Protocol.next, protocol, Folder.rename] at h
      cases hstaging : f.staging with
      | none =>
        rw [hstaging] at h
        cases h
        exact .miss hstaging
      | some n =>
        rw [hstaging] at h
        cases h
        exact .rename hstaging
    | refused e =>
      cases h
      exact .giveUp
  | toGet =>
    simp only [Protocol.next, protocol] at h
    cases hblob : f.blob with
    | none =>
      rw [hblob] at h
      cases h
      exact .lack hblob
    | some n =>
      rw [hblob] at h
      cases h
      exact .find hblob
  | getting n =>
    cases h
    exact .read
  | toOpen =>
    cases h
    exact .open
  | opening o => exact o.elim
  | put => nomatch h
  | got => nomatch h
  | opened => nomatch h

/-- A process takes one of these turns, or none. -/
theorem step_turns (s : Team ι Folder Writing Nat Empty) (i : ι) :
    s.step protocol i = s ∨ ∃ e f, Turn s.shared (s.errands i) e f ∧
      s.step protocol i = ⟨f, fun j => if j = i then e else s.errands j⟩ := by
  cases hnext : protocol.next s.shared (s.errands i) with
  | none => exact .inl (Team.step_of_done hnext)
  | some r => exact .inr ⟨r.1, r.2, turn_of_next hnext, Team.step_of_next hnext⟩

/-! ### One put at a time -/

/-- The numbers of files are not those of files to come, and no file has both names. -/
structure Sound (f : Folder) : Prop where
  blob (n : Nat) : f.blob = some n → n < f.fresh ∧ f.staging ≠ some n
  staging (n : Nat) : f.staging = some n → n < f.fresh

/-- A file is the blob, or a process is reading it. -/
def Read (s : Team ι Folder Writing Nat Empty) (n : Nat) : Prop :=
  s.shared.blob = some n ∨ ∃ j, s.errands j = .getting n

/-- How the file is that is being put. -/
def Stands (f : Folder) (bytes : Bytes) : Writing → Prop
  | .created n => f.staging = some n ∧ f.files n = []
  | .written => ∃ n, f.staging = some n ∧ f.files n = bytes
  | .refused _ => False

/-- Files that are read are whole, and are not those that are being written. -/
structure Settled (known : Bytes → Prop) (s : Team ι Folder Writing Nat Empty) : Prop where
  errands (j : ι) : (s.errands j).Known known
  lone : s.Lone
  read (n : Nat) : Read s n → n < s.shared.fresh ∧ s.shared.staging ≠ some n ∧ known (s.shared.files n)
  staging (n : Nat) : s.shared.staging = some n → n < s.shared.fresh
  stands (j : ι) (bytes : Bytes) (p : Writing) : s.errands j = .putting bytes p → Stands s.shared bytes p

omit [DecidableEq ι] in
theorem Settled.next (h : Settled known s) (hturn : Turn s.shared (s.errands i) e f) : e.Known known := by
  have hi := h.errands i
  have hread : ∀ n, s.errands i = .getting n → known (s.shared.files n) :=
    fun n hn => (h.read n (.inr ⟨i, hn⟩)).2.2
  generalize s.errands i = before at hturn hi hread
  cases hturn with
  | empty => exact hi
  | make => exact hi
  | write => exact hi
  | miss => exact hi
  | read => exact hread _ rfl
  | _ => trivial

/-- What is read after a turn was read before it, or has just been renamed. -/
theorem read_before {n : Nat} (hturn : Turn s.shared (s.errands i) e f)
    (hstep : s.step protocol i = ⟨f, fun j => if j = i then e else s.errands j⟩)
    (hread : Read (s.step protocol i) n) :
    Read s n ∨ f.staging = none ∧ s.shared.staging = some n ∧
      ∃ bytes, s.errands i = .putting bytes .written := by
  have hblob : (s.step protocol i).shared.blob = f.blob := by rw [hstep]
  obtain hblob' | ⟨j, hj⟩ := hread
  · rw [hblob] at hblob'
    generalize s.errands i = before at hturn
    cases hturn with
    | rename hstaging => exact .inr ⟨rfl, hstaging.trans hblob', _, rfl⟩
    | _ => exact .inl (.inl hblob')
  · obtain ⟨-, rfl⟩ | ⟨-, hbefore⟩ := Team.errands_of_step hstep hj
    · generalize s.errands i = before at hturn
      cases hturn with
      | find hfound => exact .inl (.inl hfound)
    · exact .inl (.inr ⟨j, hbefore⟩)

omit [DecidableEq ι] in
/-- A turn does not touch files that are read. -/
theorem Settled.files_of_read {n : Nat} (h : Settled known s) (hturn : Turn s.shared (s.errands i) e f)
    (hread : Read s n) : f.files n = s.shared.files n := by
  obtain ⟨hnumber, hstaging, -⟩ := h.read n hread
  have hstands := h.stands i
  generalize s.errands i = before at hturn hstands
  cases hturn with
  | @empty _ m hfound =>
    have hne : n ≠ m := by
      rintro rfl
      exact hstaging hfound
    exact if_neg hne
  | make => exact if_neg (Nat.ne_of_lt hnumber)
  | @write _ m =>
    have hne : n ≠ m := by
      rintro rfl
      exact hstaging (hstands _ _ rfl).1
    exact if_neg hne
  | _ => rfl

/-- The name of a staging file is taken away, stays with a file, or comes to a new one. -/
theorem staging_of_turn (hturn : Turn f e e' f') : f.fresh ≤ f'.fresh ∧
    (f'.staging = none ∨ f'.staging = f.staging ∨ f'.staging = some f.fresh ∧ f'.fresh = f.fresh + 1) := by
  cases hturn with
  | make => exact ⟨Nat.le_succ _, .inr (.inr ⟨rfl, rfl⟩)⟩
  | rename => exact ⟨Nat.le_refl _, .inl rfl⟩
  | giveUp => exact ⟨Nat.le_refl _, .inl rfl⟩
  | _ => exact ⟨Nat.le_refl _, .inr (.inl rfl)⟩

theorem Settled.read_step {n : Nat} (h : Settled known s) (hturn : Turn s.shared (s.errands i) e f)
    (hstep : s.step protocol i = ⟨f, fun j => if j = i then e else s.errands j⟩)
    (hread : Read (s.step protocol i) n) : n < f.fresh ∧ f.staging ≠ some n ∧ known (f.files n) := by
  obtain ⟨hfresh, hstaging⟩ := staging_of_turn hturn
  obtain hbefore | ⟨hnone, hfound, bytes, hi⟩ := read_before hturn hstep hread
  · obtain ⟨hnumber, hother, hknown⟩ := h.read n hbefore
    refine ⟨Nat.lt_of_lt_of_le hnumber hfresh, ?_, h.files_of_read hturn hbefore ▸ hknown⟩
    obtain hnone | hsame | ⟨hnew, -⟩ := hstaging
    · rw [hnone]
      exact nofun
    · rw [hsame]
      exact hother
    · rw [hnew]
      exact fun heq => Nat.ne_of_lt hnumber (Option.some.inj heq).symm
  · obtain ⟨m, hfound', hbytes⟩ := h.stands i bytes .written hi
    obtain rfl := Option.some.inj (hfound.symm.trans hfound')
    have hknown : known bytes := by
      have hi' := h.errands i
      rw [hi] at hi'
      exact hi'
    refine ⟨Nat.lt_of_lt_of_le (h.staging n hfound) hfresh, ?_, ?_⟩
    · rw [hnone]
      exact nofun
    · rw [hi] at hturn
      cases hturn with
      | rename => exact hbytes ▸ hknown
      | miss => exact hbytes ▸ hknown

theorem Settled.stands_step {j : ι} {bytes : Bytes} {p : Writing} (h : Settled known s) (hwaits : s.Waits i)
    (hturn : Turn s.shared (s.errands i) e f)
    (hstep : s.step protocol i = ⟨f, fun j => if j = i then e else s.errands j⟩)
    (hj : (s.step protocol i).errands j = .putting bytes p) : Stands f bytes p := by
  have hstands := h.stands i
  obtain ⟨-, rfl⟩ | ⟨hne, hbefore⟩ := Team.errands_of_step hstep hj
  · generalize s.errands i = before at hturn hstands
    cases hturn with
    | empty hstaging => exact ⟨hstaging, if_pos rfl⟩
    | make => exact ⟨rfl, if_pos rfl⟩
    | @write _ n =>
      obtain ⟨hstaging, hnil⟩ := hstands _ _ rfl
      refine ⟨n, hstaging, ?_⟩
      rw [Folder.write, hnil, List.drop_nil, List.append_nil]
      exact if_pos rfl
    | miss hnone =>
      obtain ⟨n, hstaging, -⟩ := hstands _ _ rfl
      nomatch hnone.symm.trans hstaging
  · -- The process that takes the turn is not putting: two would be.
    have hcalm : ∀ other q, s.errands i ≠ .putting other q := fun other q hi =>
      hne (h.lone j i bytes other p q hbefore hi)
    have hbegin : ∀ other, s.errands i ≠ .toPut other := fun other hi =>
      hwaits ⟨other, hi⟩ j bytes p hbefore
    generalize s.errands i = before at hturn hcalm hbegin
    cases hturn with
    | empty => exact absurd rfl (hbegin _)
    | make => exact absurd rfl (hbegin _)
    | write => exact absurd rfl (hcalm _ _)
    | rename => exact absurd rfl (hcalm _ _)
    | miss => exact absurd rfl (hcalm _ _)
    | giveUp => exact absurd rfl (hcalm _ _)
    | _ => exact h.stands j bytes p hbefore

theorem Settled.step (h : Settled known s) (hwaits : s.Waits i) : Settled known (s.step protocol i) := by
  have herrands : ∀ j, ((s.step protocol i).errands j).Known known :=
    Team.forall_step h.errands fun _ _ hnext => h.next (turn_of_next hnext)
  obtain hsame | ⟨e, f, hturn, hstep⟩ := step_turns s i
  · rw [hsame]
    exact h
  have hshared : (s.step protocol i).shared = f := by rw [hstep]
  refine ⟨herrands, h.lone.step hwaits, fun n hread => ?_, fun n hstaging => ?_, fun j bytes p hj => ?_⟩
  · rw [hshared]
    exact h.read_step hturn hstep hread
  · rw [hshared] at hstaging ⊢
    obtain ⟨hfresh, hnone | hsame | ⟨hnew, hnext⟩⟩ := staging_of_turn hturn
    · nomatch hnone.symm.trans hstaging
    · exact Nat.lt_of_lt_of_le (h.staging n (hsame ▸ hstaging)) hfresh
    · obtain rfl := Option.some.inj (hnew.symm.trans hstaging)
      omega
  · rw [hshared]
    exact h.stands_step hwaits hturn hstep hj

/-- Where one process puts at a time, what is got is known, and only a put that ends well changes the blob. -/
theorem upholds (known : Bytes → Prop) :
    Team.Upholds (ι := ι) protocol known (Settled known) Team.Waits where
  step s i h hwaits := h.step hwaits
  whole s i bytes h hgot := by
    have hi := h.errands i
    rw [hgot] at hi
    exact hi
  still s i h _ := by
    obtain hsame | ⟨e, f, hturn, hstep⟩ := step_turns s i
    · exact .inr (by rw [hsame])
    have hfiles : ∀ n, s.shared.blob = some n → f.files n = s.shared.files n :=
      fun n hn => h.files_of_read hturn (.inl hn)
    have hblob : f.blob = s.shared.blob → protocol.live f = protocol.live s.shared := by
      intro hsame
      show f.blob.map f.files = s.shared.blob.map s.shared.files
      rw [hsame]
      cases hfound : s.shared.blob with
      | none => rfl
      | some n => exact congrArg some (hfiles n hfound)
    rw [hstep]
    generalize s.errands i = before at hturn
    cases hturn with
    | rename => exact .inl ⟨_, if_pos rfl⟩
    | _ => exact .inr (hblob rfl)

theorem putsOwn (known : Bytes → Prop) : Team.PutsOwn (ι := ι) protocol (Settled known) := by
  intro s i bytes h hbefore hafter
  obtain hsame | ⟨e, f, hturn, hstep⟩ := step_turns s i
  · rw [hsame] at hafter
    exact absurd hafter hbefore
  obtain ⟨-, rfl⟩ | ⟨hne, -⟩ := Team.errands_of_step hstep hafter
  · have hshared : (s.step protocol i).shared = f := by rw [hstep]
    rw [hshared]
    have hstands := h.stands i
    generalize s.errands i = before at hturn hstands
    cases hturn with
    | rename hstaging =>
      obtain ⟨n, hfound, hbytes⟩ := hstands _ _ rfl
      obtain rfl := Option.some.inj (hstaging.symm.trans hfound)
      exact ⟨⟨_, rfl⟩, congrArg some hbytes⟩
  · exact absurd rfl hne

/-- If no two puts overlap, all is kept that is promised. -/
theorem contract_of_apart (h : s.Fresh) (hsound : s.shared.Sound) {turns : List ι}
    (hapart : s.Apart protocol turns) : s.Contract protocol turns := by
  have hread : ∀ n, Read s n → s.shared.blob = some n := by
    rintro n (hblob | ⟨j, hj⟩)
    · exact hblob
    · obtain ⟨_, hfresh⟩ | hfresh | hfresh := h j <;> nomatch hfresh.symm.trans hj
  refine (upholds _).contract (putsOwn _) ⟨h.known protocol, ?_, fun n hn => ?_, hsound.staging, ?_⟩ h hapart
  · exact fun j _ bytes _ p _ hj => absurd hj (h.calm j bytes p)
  · obtain ⟨hnumber, hstaging⟩ := hsound.blob n (hread n hn)
    refine ⟨hnumber, hstaging, .inl ?_⟩
    show s.shared.blob.map s.shared.files = _
    rw [hread n hn]
    rfl
  · exact fun j bytes p hj => absurd hj (h.calm j bytes p)

/-! ### A process by itself -/

open DirectoryStore

variable {root key : String} {p : Place} {d : Disk} {bytes : Bytes}

/-- A directory has the two files of a key. -/
structure Shows (root key : String) (p : Place) (d : Disk) (f : Folder) : Prop where
  within : d.Within root p
  staging : d.inside p (entryName key stagingExtension) = (f.staging.map f.files).map some
  blob : d.inside p (entryName key blobExtension) = (f.blob.map f.files).map some

/-- Read by itself, a blob is what the protocol has live. -/
theorem Shows.get (h : Shows root key p d f) (hkey : IsCacheKey key) :
    DirectoryStore.get root key d = .ok (protocol.live f) := by
  unfold DirectoryStore.get
  rw [blobPath_eq, h.within.read (isFileName_blob hkey), h.blob]
  show _ = Except.ok (f.blob.map f.files)
  cases f.blob.map f.files <;> rfl

/-- What is left when a process has written the staging file. -/
theorem Shows.stage (h : Shows root key p d f) (hkey : IsCacheKey key) (hsound : f.Sound) (bytes : Bytes) :
    ∃ d', DirectoryStore.stage root key bytes d = .ok d' ∧
      Shows root key p d' (f.create.2.write f.create.1 bytes) := by
  have hfree : d.inside p (entryName key stagingExtension) ≠ some none := by
    rw [h.staging]
    cases f.staging <;> exact nofun
  obtain ⟨d', hwrite, hwithin, hinside⟩ := h.within.write (isFileName_staging hkey) hfree bytes
  have hstaged : d'.inside p (entryName key stagingExtension) = some (some bytes) := by
    rw [hinside, if_pos rfl]
  have hblob : d'.inside p (entryName key blobExtension) = (f.blob.map f.files).map some := by
    rw [hinside, if_neg (blob_ne_staging hkey hkey), h.blob]
  refine ⟨d', hwrite, hwithin, ?_, ?_⟩
  · rw [hstaged]
    cases hstaging : f.staging <;> simp [create, hstaging, Folder.write, setFile]
  · rw [hblob]
    cases hfound : f.blob with
    | none => cases hstaging : f.staging <;> simp [create, hstaging, Folder.write, setFile, hfound]
    | some n =>
      obtain ⟨hnumber, hother⟩ := hsound.blob n hfound
      cases hstaging : f.staging with
      | none => simp [create, hstaging, Folder.write, setFile, hfound, Nat.ne_of_lt hnumber]
      | some m =>
        have hne : n ≠ m := by
          rintro rfl
          exact hother hstaging
        simp [create, hstaging, Folder.write, setFile, hfound, hne]

theorem Shows.commit {n : Nat} (h : Shows root key p d f) (hkey : IsCacheKey key) (hstaging : f.staging = some n) :
    ∃ d', DirectoryStore.commit root key d = .ok d' ∧
      Shows root key p d' { f with staging := none, blob := some n } := by
  have hstaged : d.inside p (entryName key stagingExtension) = some (some (f.files n)) := by
    rw [h.staging, hstaging]
    rfl
  have hfree : d.inside p (entryName key blobExtension) ≠ some none := by
    rw [h.blob]
    cases f.blob <;> exact nofun
  obtain ⟨d', hrename, hwithin, hinside⟩ :=
    h.within.rename (isFileName_staging hkey) (isFileName_blob hkey) hstaged hfree
  refine ⟨d', hrename, hwithin, ?_, ?_⟩
  · rw [hinside, if_neg (blob_ne_staging hkey hkey).symm, if_pos rfl]
    rfl
  · rw [hinside, if_pos rfl]
    rfl

/-- Run by itself, a put takes the three steps of the protocol. -/
theorem put_by_itself (h : Shows root key p d f) (hkey : IsCacheKey key) (hsound : f.Sound) (bytes : Bytes) :
    ∃ d' f', DirectoryStore.put root key bytes d = (.ok (), d') ∧ Shows root key p d' f' ∧
      (⟨f, fun _ : Unit => .toPut bytes⟩ : Team Unit _ _ _ _).play protocol [(), (), ()] =
        ⟨f', fun _ => .put bytes (.ok ())⟩ := by
  obtain ⟨staged, hstage, hshows⟩ := h.stage hkey hsound bytes
  have hstaging : (f.create.2.write f.create.1 bytes).staging = some f.create.1 := by
    cases hfound : f.staging <;> simp [create, hfound, Folder.write, setFile]
  obtain ⟨d', hcommit, hdone⟩ := hshows.commit hkey hstaging
  refine ⟨d', _, ?_, hdone, ?_⟩
  · simp only [DirectoryStore.put, hstage, hcommit]
  · simp [Team.play, Team.step, Protocol.next, protocol, Errand.afterPut, Folder.rename, hstaging]

end Folder

end ClassCatalog

import ClassCatalog.Proofs.Store.Contract
import ClassCatalog.Proofs.Store.Database

/-!
# Putting into a database

Whatever processes do, what is stored is whole, for it has been staged whole, and only a put that ends well
has changed it. But all share one place for staging: what a put brings in is what was staged last, by whomever
(`Database.Transactions.Staged`).
-/

namespace ClassCatalog

namespace Database

/-- What a process can do next with a database. -/
inductive Turn (key : String) (b : Database) :
    Errand Unit Empty Unit → Errand Unit Empty Unit → Database → Prop
  | stage {bytes : Bytes} (hkey : isKey key = true) (hspace : hasSpace b (b.stage key bytes) = true) :
      Turn key b (.toPut bytes) (.putting bytes ()) (b.stage key bytes)
  | refuse {bytes : Bytes} (hkey : isKey key = false) : Turn key b (.toPut bytes) (.put bytes (.error badKey)) b
  | full {bytes : Bytes} (hfull : hasSpace b (b.stage key bytes) = false) :
      Turn key b (.toPut bytes) (.put bytes (.error full)) b
  | commit {bytes staged : Bytes} (hstaged : b.staging.find? key = some staged)
      (hspace : hasSpace b (b.promote key staged) = true) :
      Turn key b (.putting bytes ()) (.put bytes (.ok ())) (b.promote key staged)
  | vanish {bytes : Bytes} (hnone : b.staging.find? key = none) :
      Turn key b (.putting bytes ()) (.put bytes (.error (vanished key))) b
  | overflow {bytes staged : Bytes} (hstaged : b.staging.find? key = some staged)
      (hfull : hasSpace b (b.promote key staged) = false) :
      Turn key b (.putting bytes ()) (.put bytes (.error full)) b
  | get : Turn key b .toGet (.got (b.indexes.find? key)) b
  | look : Turn key b .toOpen .opened b
  | notice : Turn key b .toOpen (.opening ()) b
  | sweep : Turn key b (.opening ()) .opened b.sweep

variable {ι : Type} [DecidableEq ι] {key : String} {b b' : Database} {e e' : Errand Unit Empty Unit}
  {s : Team ι Database Unit Empty Unit} {known : Bytes → Prop} {i : ι}

theorem stage_of_space {bytes : Bytes} (h : hasSpace b (b.stage key bytes) = true) :
    checked hasSpace (fun b => .ok (b.stage key bytes)) b = .ok (b.stage key bytes) := checked_of_fits rfl h

theorem stage_of_full {bytes : Bytes} (h : hasSpace b (b.stage key bytes) = false) :
    checked hasSpace (fun b => .ok (b.stage key bytes)) b = .error full := checked_of_full rfl h

theorem turn_of_next (h : (protocol key).next b e = some (e', b')) : Turn key b e e' b' := by
  cases e with
  | toPut bytes =>
    simp only [Protocol.next, protocol] at h
    cases hkey : isKey key with
    | false =>
      simp only [hkey, Bool.false_eq_true, if_false] at h
      cases h
      exact .refuse hkey
    | true =>
      cases hspace : hasSpace b (b.stage key bytes) with
      | false =>
        simp only [hkey, if_true, stage_of_full hspace] at h
        cases h
        exact .full hspace
      | true =>
        simp only [hkey, if_true, stage_of_space hspace] at h
        cases h
        exact .stage hkey hspace
  | putting bytes p =>
    simp only [Protocol.next, protocol] at h
    cases hstaged : b.staging.find? key with
    | none =>
      simp only [checked, Database.commit, hstaged] at h
      cases h
      exact .vanish hstaged
    | some staged =>
      cases hspace : hasSpace b (b.promote key staged) with
      | false =>
        rw [checked_of_full (commit_of_find? hstaged) hspace] at h
        cases h
        exact .overflow hstaged hspace
      | true =>
        rw [checked_of_fits (commit_of_find? hstaged) hspace] at h
        cases h
        exact .commit hstaged hspace
  | toGet =>
    cases h
    exact .get
  | toOpen =>
    simp only [Protocol.next, protocol] at h
    split at h
    · cases h
      exact .look
    · cases h
      exact .notice
  | opening o =>
    cases h
    exact .sweep
  | getting r => exact r.elim
  | put => cases h
  | got => cases h
  | opened => cases h

/-- A process takes one of these turns, or none. -/
theorem step_turns (key : String) (s : Team ι Database Unit Empty Unit) (i : ι) :
    s.step (protocol key) i = s ∨ ∃ e b, Turn key s.shared (s.errands i) e b ∧
      s.step (protocol key) i = ⟨b, fun j => if j = i then e else s.errands j⟩ := by
  cases hnext : (protocol key).next s.shared (s.errands i) with
  | none => exact .inl (Team.step_of_done hnext)
  | some r => exact .inr ⟨r.1, r.2, turn_of_next hnext, Team.step_of_next hnext⟩

theorem step_of_stage {bytes : Bytes} (hkey : isKey key = true)
    (hspace : hasSpace s.shared (s.shared.stage key bytes) = true) (h : s.errands i = .toPut bytes) :
    s.step (protocol key) i =
      ⟨s.shared.stage key bytes, fun j => if j = i then .putting bytes () else s.errands j⟩ := by
  refine Team.step_of_next ?_
  rw [h]
  simp only [Protocol.next, protocol, hkey, if_true, stage_of_space hspace, Errand.afterPut]

theorem step_of_commit {bytes staged : Bytes} (hstaged : s.shared.staging.find? key = some staged)
    (hspace : hasSpace s.shared (s.shared.promote key staged) = true) (h : s.errands i = .putting bytes ()) :
    s.step (protocol key) i =
      ⟨s.shared.promote key staged, fun j => if j = i then .put bytes (.ok ()) else s.errands j⟩ := by
  refine Team.step_of_next ?_
  rw [h]
  simp only [Protocol.next, protocol, checked_of_fits (commit_of_find? hstaged) hspace, Errand.afterPut]

/-- What processes put and get is known, and so is what is stored, and what is staged once a process has
staged anything. -/
structure Transactions (key : String) (known : Bytes → Prop) (s : Team ι Database Unit Empty Unit) : Prop where
  errands (j : ι) : (s.errands j).Known known
  live (bytes : Bytes) : s.shared.indexes.find? key = some bytes → known bytes
  staged (j : ι) (bytes staged : Bytes) : s.errands j = .putting bytes () →
    s.shared.staging.find? key = some staged → known staged

omit [DecidableEq ι] in
theorem Transactions.next (h : Transactions key known s) (hturn : Turn key s.shared (s.errands i) e b) :
    e.Known known := by
  have hi := h.errands i
  generalize s.errands i = before at hturn hi
  cases hturn with
  | stage => exact hi
  | get =>
    cases hlive : s.shared.indexes.find? key with
    | none => trivial
    | some bytes => exact h.live bytes hlive
  | _ => trivial

theorem Transactions.step (h : Transactions key known s) (i : ι) :
    Transactions key known (s.step (protocol key) i) := by
  have herrands : ∀ j, ((s.step (protocol key) i).errands j).Known known :=
    Team.forall_step h.errands fun _ _ hnext => h.next (turn_of_next hnext)
  obtain hsame | ⟨e, b, hturn, hstep⟩ := step_turns key s i
  · rw [hsame]
    exact h
  have hi := h.errands i
  have hshared : (s.step (protocol key) i).shared = b := by rw [hstep]
  generalize hat : s.errands i = before at hturn hi
  refine ⟨herrands, fun bytes hbytes => ?_, fun j bytes staged hj hbytes => ?_⟩ <;> rw [hshared] at hbytes
  · cases hturn with
    | commit hstaged =>
      rw [indexes_promote] at hbytes
      obtain rfl := Option.some.inj hbytes
      exact h.staged i _ _ hat hstaged
    | _ => exact h.live bytes hbytes
  · have hputting := Team.errands_of_step hstep hj
    cases hturn with
    | stage =>
      rw [find?_stage] at hbytes
      exact Option.some.inj hbytes ▸ hi
    | commit =>
      rw [staging_promote] at hbytes
      cases hbytes
    | sweep => cases hbytes
    | _ =>
      obtain ⟨-, hnow⟩ | ⟨-, hbefore⟩ := hputting
      · cases hnow
      · exact h.staged j bytes staged hbefore hbytes

/-- In all that processes do, what they get is known, and a put that does not end well changes nothing. -/
theorem upholds (key : String) (known : Bytes → Prop) :
    Team.Upholds (ι := ι) (protocol key) known (Transactions key known) fun _ _ => True where
  step s i h _ := h.step i
  whole s i bytes h hgot := by
    have hi := h.errands i
    rw [hgot] at hi
    exact hi
  still s i h _ := by
    obtain hsame | ⟨e, b, hturn, hstep⟩ := step_turns key s i
    · exact .inr (by rw [hsame])
    rw [hstep]
    generalize s.errands i = before at hturn
    cases hturn with
    | commit => exact .inl ⟨_, if_pos rfl⟩
    | _ => exact .inr rfl

/-! ### One put at a time -/

/-- At most one process is putting, and what is staged then is its own. -/
structure Alone (key : String) (s : Team ι Database Unit Empty Unit) : Prop where
  lone : s.Lone
  staged (j : ι) (bytes staged : Bytes) : s.errands j = .putting bytes () →
    s.shared.staging.find? key = some staged → staged = bytes

theorem Alone.step (h : Alone key s) (hwaits : s.Waits i) : Alone key (s.step (protocol key) i) := by
  have hlone : (s.step (protocol key) i).Lone := h.lone.step hwaits
  obtain hsame | ⟨e, b, hturn, hstep⟩ := step_turns key s i
  · rw [hsame]
    exact h
  have hshared : (s.step (protocol key) i).shared = b := by rw [hstep]
  refine ⟨hlone, fun j bytes staged hj hbytes => ?_⟩
  rw [hshared] at hbytes
  have hputting := Team.errands_of_step hstep hj
  generalize hat : s.errands i = before at hturn
  cases hturn with
  | stage =>
    rw [find?_stage] at hbytes
    obtain rfl := Option.some.inj hbytes
    obtain ⟨-, hnow⟩ | ⟨-, hbefore⟩ := hputting
    · cases hnow
      rfl
    -- Nobody is putting when the process begins.
    · exact absurd hbefore (hwaits ⟨_, hat⟩ j bytes ())
  | commit =>
    rw [staging_promote] at hbytes
    cases hbytes
  | sweep => cases hbytes
  | _ =>
    obtain ⟨-, hnow⟩ | ⟨-, hbefore⟩ := hputting
    · cases hnow
    · exact h.staged j bytes staged hbefore hbytes

theorem putsOwn (key : String) : Team.PutsOwn (ι := ι) (protocol key) (Alone key) := by
  intro s i bytes h hbefore hafter
  obtain hsame | ⟨e, b, hturn, hstep⟩ := step_turns key s i
  · rw [hsame] at hafter
    exact absurd hafter hbefore
  obtain ⟨-, rfl⟩ | ⟨hne, -⟩ := Team.errands_of_step hstep hafter
  · have hshared : (s.step (protocol key) i).shared = b := by rw [hstep]
    rw [hshared]
    generalize hat : s.errands i = before at hturn
    cases hturn with
    | commit hstaged =>
      obtain rfl := h.staged i bytes _ hat hstaged
      exact ⟨⟨(), rfl⟩, indexes_promote ..⟩
  · exact absurd rfl hne

/-! ### Runs -/

omit [DecidableEq ι] in
theorem transactions_of_fresh (key : String) (h : s.Fresh) :
    Transactions key (s.Given (protocol key)) s :=
  ⟨h.known (protocol key), fun _ hlive => .inl hlive, fun j bytes _ hj => absurd hj (h.calm j bytes ())⟩

omit [DecidableEq ι] in
theorem alone_of_fresh (key : String) (h : s.Fresh) : Alone key s :=
  ⟨fun j _ bytes _ p _ hj => absurd hj (h.calm j bytes p), fun j bytes _ hj => absurd hj (h.calm j bytes ())⟩

/-- Whatever processes do with a database, who gets bytes gets all that was given by somebody, and who fails
to put has changed nothing. -/
theorem whole_and_harmless (h : s.Fresh) (key : String) (turns : List ι) :
    s.Whole (protocol key) turns ∧ s.Harmless (protocol key) turns := by
  have hupholds : Team.Upholds (ι := ι) (protocol key) (s.Given (protocol key)) _ _ := upholds key _
  have hs := transactions_of_fresh key h
  exact ⟨fun _ _ => hupholds.got_known hs fun _ _ _ => trivial, hupholds.harmless hs fun _ _ _ => trivial⟩

/-- If no two puts overlap, all is kept that is promised. -/
theorem contract_of_apart (h : s.Fresh) {turns : List ι} (hapart : s.Apart (protocol key) turns) :
    s.Contract (protocol key) turns := by
  have hupholds : Team.Upholds (ι := ι) (protocol key) (s.Given (protocol key))
      (fun t => Transactions key (s.Given (protocol key)) t ∧ Alone key t) Team.Waits :=
    (upholds key _).and fun _ _ => Alone.step
  have hown : Team.PutsOwn (protocol key) fun t : Team ι Database Unit Empty Unit =>
      Transactions key (s.Given (protocol key)) t ∧ Alone key t :=
    fun t i bytes ht => putsOwn key t i bytes ht.2
  exact hupholds.contract hown ⟨transactions_of_fresh key h, alone_of_fresh key h⟩ h hapart

/-! ### A process by itself -/

variable {path : String} {d : Disk}

/-- Run by itself, a put takes the steps of the protocol. -/
theorem put_by_itself (h : IsOpen path d b) (key : String) (bytes : Bytes) :
    ∃ d' b' result, Space.mapped.put path key bytes d = (result, d') ∧ IsOpen path d' b' ∧
      (⟨b, fun _ : Unit => .toPut bytes⟩ : Team Unit _ _ _ _).play (protocol key) [(), ()] =
        ⟨b', fun _ => .put bytes result⟩ := by
  cases hkey : isKey key with
  | false =>
    refine ⟨d, b, .error badKey, ?_, h, ?_⟩
    · rw [Space.put, if_pos (Bool.eq_false_iff.1 hkey)]
    · simp [Team.play, Team.step, Protocol.next, protocol, hkey, Errand.afterPut]
  | true =>
    cases h.put Space.mapped hkey bytes with
    | refused hfull hput =>
      refine ⟨d, b, .error full, hput, h, ?_⟩
      simp [Team.play, Team.step, Protocol.next, protocol, hkey, stage_of_full hfull, Errand.afterPut]
    | leftStaged hfits hfull hput hopen =>
      have hcommit : checked hasSpace (commit key) (b.stage key bytes) = .error full :=
        checked_of_full (commit_stage b key bytes) hfull
      refine ⟨_, _, .error full, hput, hopen, ?_⟩
      simp [Team.play, Team.step, Protocol.next, protocol, hkey, stage_of_space hfits, hcommit, Errand.afterPut]
    | done hfits hfits' hput hopen =>
      have hcommit : checked hasSpace (commit key) (b.stage key bytes) =
          .ok ((b.stage key bytes).promote key bytes) := checked_of_fits (commit_stage b key bytes) hfits'
      refine ⟨_, _, .ok (), hput, hopen, ?_⟩
      simp [Team.play, Team.step, Protocol.next, protocol, hkey, stage_of_space hfits, hcommit, Errand.afterPut]

/-- Opened by itself, a database is opened as the protocol says. -/
theorem open_by_itself (h : IsOpen path d b) (key : String) :
    ∃ d' b', prepare path d = .ok d' ∧ IsOpen path d' b' ∧
      (⟨b, fun _ : Unit => .toOpen⟩ : Team Unit _ _ _ _).play (protocol key) [(), ()] =
        ⟨b', fun _ => .opened⟩ := by
  obtain ⟨d', hprepare, hopen⟩ := h.prepare
  refine ⟨d', _, hprepare, hopen, ?_⟩
  by_cases hnone : b.staging.size = 0
  · obtain ⟨indexes, staging⟩ := b
    obtain rfl : staging = ∅ := NameMap.ext (List.length_eq_zero_iff.1 hnone)
    rfl
  · simp [Team.play, Team.step, Protocol.next, protocol, hnone, Errand.afterOpen]

end Database

end ClassCatalog

import ClassCatalog.Proofs.Store.Folder
import ClassCatalog.Proofs.Store.Transactions

/-!
# Puts that overlap

All that is promised of putting is kept as long as no two puts overlap. Two writers share one place for staging.
In a database the second replaces what the first has staged, and the first then ends well with bytes that are
not its own. In a directory it even empties the file that the first is about to rename.
-/

namespace ClassCatalog

namespace Team

variable {ι : Type} [DecidableEq ι]

/-- For any number of processes at one key, and for any order of their steps: in a database, who gets bytes gets
all that was given by somebody, and who fails to put has changed nothing; and where no two puts overlap, in a
database as in a directory, who ends well has besides put its own bytes there. -/
theorem contract_without_overlap (key : String) :
    (∀ (s : Team ι Database Unit Empty Unit) (turns : List ι), s.Fresh →
      s.Whole (Database.protocol key) turns ∧ s.Harmless (Database.protocol key) turns ∧
        (s.Apart (Database.protocol key) turns → s.Contract (Database.protocol key) turns)) ∧
    ∀ (s : Team ι Folder Folder.Writing Nat Empty) (turns : List ι), s.Fresh → s.shared.Sound →
      s.Apart Folder.protocol turns → s.Contract Folder.protocol turns := by
  refine ⟨fun s turns hfresh => ?_, fun s turns hfresh hsound hapart => ?_⟩
  · obtain ⟨hwhole, hharmless⟩ := Database.whole_and_harmless hfresh key turns
    exact ⟨hwhole, hharmless, Database.contract_of_apart hfresh⟩
  · exact Folder.contract_of_apart hfresh hsound hapart

/-! ### Two writers and a reader -/

def twoWriters {σ π ρ τ : Type} (shared : σ) : Team (Fin 3) σ π ρ τ where
  shared
  errands := fun
    | 0 => .toPut [1, 2]
    | 1 => .toPut [3]
    | 2 => .toGet

theorem twoWriters_fresh {σ π ρ τ : Type} (shared : σ) :
    (twoWriters shared : Team (Fin 3) σ π ρ τ).Fresh
  | 0 => .inl ⟨_, rfl⟩
  | 1 => .inl ⟨_, rfl⟩
  | 2 => .inr (.inl rfl)

theorem calm_of_three {σ π ρ τ : Type} {s : Team (Fin 3) σ π ρ τ}
    (h : ∀ bytes p, s.errands 0 ≠ .putting bytes p ∧ s.errands 1 ≠ .putting bytes p ∧
      s.errands 2 ≠ .putting bytes p) : s.Calm
  | 0, bytes, p => (h bytes p).1
  | 1, bytes, p => (h bytes p).2.1
  | 2, bytes, p => (h bytes p).2.2

/-- A directory with nothing in it. -/
def emptyFolder : Folder := ⟨fun _ => [], none, none, 0⟩

/-- One writer after the other, and the reader while the second is at work. -/
theorem contract_of_one_after_the_other :
    (twoWriters {}).Contract (Database.protocol someKey) [0, 0, 1, 2, 1] ∧
    (twoWriters emptyFolder).Contract Folder.protocol [0, 0, 0, 1, 2, 1, 2, 1] := by
  obtain ⟨hdatabase, hfolder⟩ := contract_without_overlap (ι := Fin 3) someKey
  obtain ⟨-, -, hcontract⟩ := hdatabase (twoWriters {}) [0, 0, 1, 2, 1] (twoWriters_fresh _)
  -- The first writer comes to its end.
  have hstaged : (twoWriters {}).step (Database.protocol someKey) 0 = ⟨Database.stage {} someKey [1, 2], _⟩ :=
    Database.step_of_stage (by decide +kernel) (by decide +kernel) rfl
  obtain ⟨w, hput⟩ : ∃ w,
      ((twoWriters {}).step (Database.protocol someKey) 0).step (Database.protocol someKey) 0 =
        ⟨w, fun | 0 => .put [1, 2] (.ok ()) | 1 => .toPut [3] | 2 => .toGet⟩ := by
    rw [hstaged, Database.step_of_commit (i := 0) (Database.find?_stage ..) (by decide +kernel) rfl]
    refine ⟨_, congrArg (Team.mk _) (funext fun j => ?_)⟩
    match j with
    | 0 | 1 | 2 => rfl
  refine ⟨hcontract ?_, hfolder _ _ (twoWriters_fresh _) ⟨nofun, nofun⟩ ?_⟩
  · refine apart_cons (fun _ => (twoWriters_fresh _).calm) ?_
    refine apart_cons (fun ⟨_, h⟩ => absurd rfl (toPut_before h).1) ?_
    rw [hput]
    refine apart_cons (fun _ => calm_of_three fun _ _ => ⟨nofun, nofun, nofun⟩) ?_
    refine apart_cons (fun ⟨_, h⟩ => nomatch (toPut_before h).2) ?_
    exact apart_cons (fun ⟨_, h⟩ => absurd rfl (toPut_before (toPut_before h).2).1) apart_nil
  · refine apart_cons (fun _ => (twoWriters_fresh _).calm) ?_
    refine apart_cons (fun ⟨_, h⟩ => nomatch h) ?_
    refine apart_cons (fun ⟨_, h⟩ => nomatch h) ?_
    refine apart_cons (fun _ => calm_of_three fun _ _ => ⟨nofun, nofun, nofun⟩) ?_
    refine apart_cons (fun ⟨_, h⟩ => nomatch h) ?_
    refine apart_cons (fun ⟨_, h⟩ => nomatch h) ?_
    refine apart_cons (fun ⟨_, h⟩ => nomatch h) ?_
    exact apart_cons (fun ⟨_, h⟩ => nomatch h) apart_nil

/-- In a database, the first writer ends well though its bytes have never been there. In a directory, a reader gets
nothing where two writers put something, and a writer that fails has changed what the other put. -/
theorem contract_broken_by_overlap :
    ¬ (twoWriters {}).Own (Database.protocol someKey) [0, 1, 0] ∧
    ¬ (twoWriters emptyFolder).Whole Folder.protocol [0, 0, 1, 0, 2, 2] ∧
    ¬ (twoWriters emptyFolder).Harmless Folder.protocol [0, 0, 1, 0, 1, 1, 1] := by
  refine ⟨fun hown => ?_, fun hwhole => ?_, fun hharmless => ?_⟩
  · obtain ⟨pre, j, hpre, -, hlive⟩ := hown 0 [1, 2] rfl
    have hnever : ∀ turns ∈ [0, 1, 0].inits,
        (Database.protocol someKey).live ((twoWriters {}).play (Database.protocol someKey) turns).shared ≠
          some [1, 2] := by decide +kernel
    exact hnever _ ((List.mem_inits _ _).2 hpre) hlive
  · obtain hlive | ⟨j, hj⟩ := hwhole 2 [] rfl
    · nomatch hlive
    · match j with
      | 0 => nomatch hj
      | 1 => nomatch hj
      | 2 => nomatch hj
  · have hchanged := hharmless 1 [3] (.ofDisk .notFound) rfl [0, 0, 1, 0] ⟨[1, 1], rfl⟩
    nomatch hchanged

end Team

end ClassCatalog

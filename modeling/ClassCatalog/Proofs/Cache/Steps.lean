import ClassCatalog.Proofs.Cache.Loading

/-!
# A load and its steps

What the steps of a load keep, the load keeps, and it fails only as they do (`Steps.load`). `C` is what is known
of the identity that is learned first, `M` what is known of an index that is made of the container, and `R` what
is known of the index that is returned, be it one of these or one that was in memory or in the store.
-/

namespace ClassCatalog.Loading

variable {ω : Type} {env : Environment ω} {settings : CacheSettings} {l : Location} {current : Identity}
  {I : Session ω → Prop} {F : ScanError → Prop} {C : Identity → Prop} {M R : Index → Prop}

/-- What the steps of a load do with an invariant. -/
structure Steps (env : Environment ω) (settings : CacheSettings) (l : Location) (I : Session ω → Prop)
    (F : ScanError → Prop) (C : Identity → Prop) (M R : Index → Prop) : Prop where
  resolve : Settles I F C (resolve env settings l)
  report (e : Event) : Settles I F (fun _ => True) (report e)
  force : Settles I F (fun _ => True) (onCache fun c => c.force l.cacheKey)
  unforce : Settles I F (fun _ => True) (onCache fun c => c.unforce l.cacheKey)
  remembered {current : Identity} (h : C current) (forced : Bool) :
    Settles I F (fun hit => ∀ loaded, hit = some loaded → R loaded.index)
      (remembered settings l.cacheKey forced current)
  fromStore {current : Identity} (h : C current) (forced : Bool) :
    Settles I F (fun stored => ∀ index, stored = .ok index → R index)
      (fromStore env settings l.cacheKey forced current)
  rebuild {current : Identity} (h : C current) : Settles I F M (rebuild env l current)
  persist {index : Index} (hdisabled : settings.disabled = false) (h : M index) :
    Settles I F (fun _ => True) (persist env l.cacheKey index)
  made {index : Index} (h : M index) : R index
  publish {index : Index} (h : R index) : Settles I F (fun loaded => R loaded.index) (publish l.cacheKey index)

namespace Steps

variable (h : Steps env settings l I F C M R)
include h

theorem renew (hcurrent : C current) (forced : Bool) :
    Settles I F (fun loaded => R loaded.index) (renew env settings l.cacheKey l current forced) := by
  unfold Loading.renew
  refine .bind (.tryCatch (h.rebuild hcurrent) fun e he => ?_) fun index hindex => ?_
  · cases forced with
    | true => exact .bind h.force fun _ _ => .throw he
    | false => exact .throw he
  · cases hdisabled : settings.disabled with
    | true => exact h.publish (h.made hindex)
    | false => exact .bind (h.persist hdisabled hindex) fun _ _ => h.publish (h.made hindex)

theorem fetch (hcurrent : C current) (forced : Bool) :
    Settles I F (fun loaded => R loaded.index) (fetch env settings l.cacheKey l current forced) := by
  unfold Loading.fetch
  refine .bind (h.fromStore hcurrent forced) fun stored hstored => ?_
  cases stored with
  | ok index => exact .bind (h.report _) fun _ _ => h.publish (hstored index rfl)
  | error reason => exact .bind (h.report _) fun _ _ => h.renew hcurrent forced

theorem attempt (hcurrent : C current) :
    Settles I F (fun loaded => R loaded.index) (attempt env settings l.cacheKey l current) := by
  unfold Loading.attempt
  refine .get_bind fun s _ => .bind h.unforce fun _ _ => .bind (h.remembered hcurrent _) fun hit hhit => ?_
  cases hit with
  | some loaded => exact .bind (h.report _) fun _ _ => .pure (hhit loaded rfl)
  | none => exact h.fetch hcurrent _

theorem attempts (hcurrent : C current) (n : Nat) :
    Settles I F (fun loaded => R loaded.index) (attempts env settings l.cacheKey l current n) := by
  induction n with
  | zero => exact h.attempt hcurrent
  | succ n ih =>
    refine .tryCatch (h.attempt hcurrent) fun e he =>
      .bind (R := fun _ => True) (fun s hs => ⟨trivial, hs⟩) fun mine _ => ?_
    split
    · exact ih
    · exact .throw he

theorem load : Settles I F (fun loaded => R loaded.index) (load env settings l) := by
  unfold Loading.load
  refine .bind h.resolve fun current hcurrent => .get_bind fun s _ => ?_
  refine .bind (h.remembered hcurrent _) fun hit hhit => ?_
  cases hit with
  | some loaded => exact .bind (h.report _) fun _ _ => .pure (hhit loaded rfl)
  | none => exact .get_bind fun s' _ => h.attempts hcurrent _

end Steps

end ClassCatalog.Loading

import Mathlib.Data.List.Induction
import Mathlib.Data.List.Perm.Basic
import ClassCatalog.ClassFile.Blueprint
import ClassCatalog.Proofs.ClassFile.Bearers
import ClassCatalog.Proofs.View.Equality

/-!
# What a whole record loses

A record holds every usage that the attributes of the file hold, and as often, except those that are replaced
(`whole_record_holds`): where several methods with one key have usages on their parameters, only those of the last one
stay. Usages on methods and fields are gathered from all members with one name.
-/

namespace ClassCatalog

open ClassFile

namespace NameMap

variable {α β : Type}

/-- A new value under a name stands in for the old one, if there was one. -/
theorem perm_values_insert (f : α → List β) (m : NameMap α) (name : String) (value : α) :
    ((m.insert name value).values.flatMap f ++ ((m.find? name).map f).getD []).Perm
      (m.values.flatMap f ++ f value) := by
  rcases m with ⟨l, hl⟩
  show (((insertEntry name value l).map (·.2)).flatMap f ++ ((lookupEntry name l).map f).getD []).Perm
    ((l.map (·.2)).flatMap f ++ f value)
  induction l with
  | nil => simp [insertEntry, lookupEntry]
  | cons d rest ih =>
    rcases List.pairwise_cons.1 hl with ⟨hd, hrest⟩
    rw [insertEntry]
    split
    · rename_i hlt
      -- The entries are sorted, so no later one has the name either.
      have hnone : lookupEntry name (d :: rest) = none := by
        refine lookupEntry_eq_none fun e he => ?_
        rcases List.mem_cons.1 he with rfl | he
        · exact hlt
        · exact String.lt_trans hlt (hd e he)
      rw [hnone, Option.map_none, Option.getD_none, List.append_nil]
      exact List.perm_append_comm
    · split
      · rename_i heq
        simp only [lookupEntry, if_pos heq, List.map_cons, List.flatMap_cons, Option.map_some, Option.getD_some]
        exact List.perm_append_comm.trans ((List.perm_append_comm.append_left _).trans (by simp))
      · rename_i hne
        simp only [lookupEntry, if_neg hne, List.map_cons, List.flatMap_cons, List.append_assoc]
        exact (ih hrest).append_left _

end NameMap

/-- The usages on the parameters of the method with this key. -/
def ClassRecord.parametersOf (r : ClassRecord) (key : String) : List Usage :=
  ((r.parameterAnnotations.find? key).getD []).flatten

theorem ClassRecord.IsBare.usages {r : ClassRecord} (h : r.IsBare) : r.usages = [] := by
  rcases h with ⟨hclass, hfields, hmethods, hparameters⟩
  rw [ClassRecord.usages, hclass, hfields, hmethods, hparameters]
  rfl

/-- Every usage of a record is on some bearer. -/
theorem ClassRecord.exists_bearer {r : ClassRecord} {u : Usage} (h : u ∈ r.usages) :
    ∃ bearer, u ∈ r.usagesOn bearer := by
  simp only [ClassRecord.usages, List.mem_append, List.mem_flatten, NameMap.mem_values_iff] at h
  rcases h with h | ⟨us, ⟨name, hname⟩, hu⟩ | ⟨us, ⟨key, hkey⟩, hu⟩ | ⟨us, ⟨ps, ⟨key, hkey⟩, hus⟩, hu⟩
  · exact ⟨.classItself, h⟩
  · exact ⟨.field name, by rwa [usagesOn, hname, Option.getD_some]⟩
  · exact ⟨.method key, by rwa [usagesOn, hkey, Option.getD_some]⟩
  · rcases List.mem_iff_getElem?.1 hus with ⟨i, hi⟩
    refine ⟨.parameter key i, ?_⟩
    rwa [usagesOn, hkey, Option.getD_some, List.getD_eq_getElem?_getD, hi, Option.getD_some]

namespace ClassFile

/-! ### Adding a part -/

namespace Part

theorem perm_values_addUsages (m : NameMap (List Usage)) (name : String) (us : List Usage) :
    (addUsages m name us).values.flatten.Perm (m.values.flatten ++ us) := by
  classical
  unfold addUsages
  cases us with
  | nil => simp
  | cons u us =>
    have hinsert := NameMap.perm_values_insert id m name ((m.find? name).getD [] ++ u :: us)
    refine List.perm_iff_count.2 fun x => ?_
    have hcount := hinsert.count_eq x
    simp only [List.flatMap_id, Option.map_id_fun, id_eq, List.count_append] at hcount
    simp only [List.isEmpty_cons, Bool.false_eq_true, if_false, List.count_append]
    omega

/-- What a part takes the place of. -/
def replacedIn (r : ClassRecord) : Part → List Usage
  | method key _ ps => if ps.all List.isEmpty then [] else r.parametersOf key
  | _ => []

/-- A part adds its usages and takes those away that it takes the place of. -/
theorem perm_usages_addTo (r : ClassRecord) (part : Part) :
    ((addTo r part).usages ++ part.replacedIn r).Perm (r.usages ++ part.usages.map Usage.distinct) := by
  classical
  refine List.perm_iff_count.2 fun x => ?_
  cases part with
  | field name us =>
    have hfields := (perm_values_addUsages r.fieldAnnotations name (us.map Usage.distinct)).count_eq x
    simp only [addTo, replacedIn, ClassRecord.usages, usages, List.count_append, List.count_nil] at hfields ⊢
    omega
  | classAttribute us =>
    simp only [addTo, replacedIn, ClassRecord.usages, usages, List.count_append, List.count_nil]
    omega
  | method key us ps =>
    have hmethods := (perm_values_addUsages r.methodAnnotations key (us.map Usage.distinct)).count_eq x
    have hparameters := (NameMap.perm_values_insert List.flatten r.parameterAnnotations key
      (ps.map (·.map Usage.distinct))).count_eq x
    simp only [addTo, any_not_isEmpty, replacedIn]
    cases hall : ps.all List.isEmpty with
    | true =>
      have hnone : ps.flatten = [] := List.flatten_eq_nil_iff.2 fun p hp =>
        List.isEmpty_iff.1 (List.all_eq_true.1 hall p hp)
      simp only [ClassRecord.usages, usages, List.count_append, hnone, List.append_nil,
        Bool.not_true, Bool.false_eq_true, if_false, if_true] at hmethods ⊢
      omega
    | false =>
      have hflat : ∀ m : NameMap (List (List Usage)), m.values.flatten.flatten = m.values.flatMap List.flatten :=
        fun m => List.flatten_flatten.trans (List.flatMap_def ..).symm
      have hps : (ps.map (·.map Usage.distinct)).flatten = ps.flatten.map Usage.distinct := List.map_flatten.symm
      simp only [List.count_append, hps] at hmethods hparameters
      have hold : r.parametersOf key = ((r.parameterAnnotations.find? key).map List.flatten).getD [] := by
        unfold ClassRecord.parametersOf
        cases r.parameterAnnotations.find? key <;> rfl
      simp only [ClassRecord.usages, hold, usages, hflat, List.map_append, List.count_append,
        Bool.not_false, Bool.false_eq_true, if_true, if_false]
      omega

end Part

/-! ### A visit -/

/-- All usages that an attribute holds. -/
def Attribute.allUsages (a : Attribute) : List Usage := a.usages ++ a.parameterUsages

/-- Only attributes of methods hold usages on parameters. -/
theorem Attribute.Holds.parameterUsages_eq_nil {pool : ConstantPool} {owner : Attribute.Owner} {name : String}
    {body : Bytes} {a : Attribute} (h : Attribute.Holds pool owner name body a) (howner : owner ≠ .method) :
    a.parameterUsages = [] := by
  cases h with
  | annotations retention hbody => rfl
  | parameterAnnotations retention hbody => exact absurd rfl howner
  | other hname hparameters => rfl

namespace Visit

variable {pool : ConstantPool}

/-- All usages that the attributes hold. -/
def usages (v : Visit pool) : List Usage := v.contents.flatMap Attribute.allUsages

theorem parameterUsages_eq_nil {v : Visit pool} (h : v.site.owner ≠ .method) : v.parameterUsages = [] := by
  refine List.flatMap_eq_nil_iff.2 fun a ha => ?_
  rcases List.mem_map.1 ha with ⟨sighting, -, rfl⟩
  exact sighting.holds.parameterUsages_eq_nil h

/-- The part of a visit has all usages that were read. -/
theorem perm_usages_part (v : Visit pool) : v.part.usages.Perm v.usages := by
  have hsplit : (v.contents.flatMap Attribute.usages ++ v.parameterUsages).Perm v.usages :=
    List.flatMap_append_perm ..
  refine .trans ?_ hsplit
  rcases v with ⟨site, sightings⟩
  cases site with
  | field name | classItself =>
    rw [parameterUsages_eq_nil (by simp [Site.owner]), List.append_nil]
    exact .refl _
  | method key => exact (Attribute.flatten_mergedParameters _).append_left _

/-- The usages on parameters whose place a later visit takes. -/
def replaced : List (Visit pool) → List Usage
  | [] => []
  | v :: later => (if later.any (·.parametrizes v.site) then v.parameterUsages else []) ++ replaced later

/-- The usages on the parameters of what is visited, if it is this site. -/
def parametersAt (site : Site) (v : Visit pool) : List Usage := if v.site = site then v.parameterUsages else []

/-- One more visit takes the place of what was left under its key. -/
theorem perm_replaced_append (visits : List (Visit pool)) (v : Visit pool) :
    (replaced (visits ++ [v])).Perm (replaced visits ++
      if v.parameterUsages.isEmpty then [] else surviving (·.parametrizes v.site) (parametersAt v.site) visits) := by
  classical
  induction visits with
  | nil => simp [replaced, surviving]
  | cons u visits ih =>
    refine List.perm_iff_count.2 fun x => ?_
    have hcount := ih.count_eq x
    have hany : (visits ++ [v]).any (·.parametrizes u.site) =
        (visits.any (·.parametrizes u.site) || v.parametrizes u.site) := by simp
    rw [List.cons_append, replaced, replaced, surviving, hany]
    simp only [List.count_append] at hcount ⊢
    rw [hcount]
    by_cases hsite : u.site = v.site
    · have hv : v.parametrizes v.site = !v.parameterUsages.isEmpty := by simp [parametrizes]
      have hat : parametersAt v.site u = u.parameterUsages := if_pos hsite
      rw [hsite, hv, hat]
      cases v.parameterUsages.isEmpty <;> cases visits.any (·.parametrizes v.site) <;>
        simp only [Bool.not_true, Bool.not_false, Bool.or_true, Bool.or_false, Bool.false_eq_true, if_true,
          if_false, List.nil_append, List.count_append, List.count_nil] <;> omega
    · have hv : v.parametrizes u.site = false := by simp [parametrizes, Ne.symm hsite]
      have hat : parametersAt v.site u = [] := if_neg hsite
      simp [hv, hat]
      omega

theorem perm_surviving {γ α : Type} {overwrites : γ → Bool} {give give' : γ → List α}
    (h : ∀ x, (give x).Perm (give' x)) (l : List γ) :
    (surviving overwrites give l).Perm (surviving overwrites give' l) := by
  induction l with
  | nil => exact .refl _
  | cons x l ih =>
    rw [surviving, surviving]
    split
    · exact ih
    · exact (h x).append ih

/-- Under the key of a method stands what no later visit to it replaces. -/
theorem perm_parametersOf_record {header : ClassRecord} (hheader : header.IsBare) (visits : List (Visit pool))
    (key : String) : ((record header visits).parametersOf key).Perm
      ((surviving (·.parametrizes (.method key)) (parametersAt (.method key)) visits).map Usage.distinct) := by
  let give (v : Visit pool) : List Usage :=
    if v.site = .method key then (Attribute.mergedParameters v.contents).flatten else []
  have hstep : ∀ (r : ClassRecord) (v : Visit pool), (Part.addTo r v.part).parametersOf key =
      (if v.parametrizes (.method key) then [] else r.parametersOf key) ++ (give v).map Usage.distinct := by
    intro r v
    rw [ClassRecord.parametersOf, parameters_addTo]
    cases hv : v.parametrizes (.method key) with
    | true =>
      have hsite : v.site = .method key := of_decide_eq_true (Bool.and_eq_true_iff.1 hv).1
      simp [give, hsite, List.map_flatten]
    | false =>
      have hnone : give v = [] := by
        by_cases hsite : v.site = .method key
        · rw [parametrizes, hsite, isEmpty_parameterUsages] at hv
          simpa [give, hsite] using hv
        · exact if_neg hsite
      simp [hnone, ClassRecord.parametersOf]
  have hfold := foldl_surviving (·.parametersOf key) hstep visits header
  have hnone : header.parametersOf key = [] := by
    rw [ClassRecord.parametersOf, hheader.parameterAnnotations]
    rfl
  simp only [hnone, ite_self, List.nil_append] at hfold
  refine .trans (.of_eq hfold) (.map _ (perm_surviving (fun v => ?_) visits))
  unfold parametersAt
  split
  · rename_i hsite
    simp only [give, hsite, if_true]
    exact Attribute.flatten_mergedParameters v.contents
  · rename_i hsite
    simp [give, hsite]

/-- What a visit takes the place of in a record. -/
theorem replacedIn_part (v : Visit pool) (r : ClassRecord) :
    v.part.replacedIn r = if v.parameterUsages.isEmpty then [] else
      match v.site with
      | .method key => r.parametersOf key
      | _ => [] := by
  rw [isEmpty_parameterUsages]
  rcases v with ⟨site, sightings⟩
  cases site <;> simp [part, Part.replacedIn]

/-- The record of the visits has what the visits gave, without what is replaced. -/
theorem perm_usages_record {header : ClassRecord} (hheader : header.IsBare) (visits : List (Visit pool)) :
    ((record header visits).usages ++ (replaced visits).map Usage.distinct).Perm
      ((visits.flatMap usages).map Usage.distinct) := by
  classical
  induction visits using List.reverseRecOn with
  | nil => simp [record, assembleRecord, hheader.usages, replaced]
  | append_singleton visits v ih =>
    have hrecord : record header (visits ++ [v]) = Part.addTo (record header visits) v.part := by
      simp [record, assembleRecord]
    have hadd := Part.perm_usages_addTo (record header visits) v.part
    have hpart := v.perm_usages_part.map Usage.distinct
    have hreplaced := (perm_replaced_append visits v).map Usage.distinct
    have hplace : (v.part.replacedIn (record header visits)).Perm ((if v.parameterUsages.isEmpty then [] else
        surviving (·.parametrizes v.site) (parametersAt v.site) visits).map Usage.distinct) := by
      rw [replacedIn_part]
      cases hempty : v.parameterUsages.isEmpty with
      | true => exact .refl _
      | false =>
        have howner : v.site.owner = .method := by
          by_contra hne
          rw [parameterUsages_eq_nil hne] at hempty
          nomatch hempty
        cases hsite : v.site with
        | method key => exact perm_parametersOf_record hheader visits key
        | field name | classItself =>
          rw [hsite] at howner
          nomatch howner
    rw [hrecord, List.flatMap_append, List.flatMap_singleton]
    refine List.perm_iff_count.2 fun x => ?_
    have h₁ := ih.count_eq x
    have h₂ := hadd.count_eq x
    have h₃ := hpart.count_eq x
    have h₄ := hreplaced.count_eq x
    have h₅ := hplace.count_eq x
    simp only [List.map_append, List.count_append] at h₁ h₂ h₄ ⊢
    omega

theorem exists_of_mem_replaced {visits : List (Visit pool)} {u : Usage} (h : u ∈ replaced visits) :
    ∃ v ∈ visits, u ∈ v.parameterUsages := by
  induction visits with
  | nil => nomatch h
  | cons v visits ih =>
    rw [replaced, List.mem_append] at h
    rcases h with h | h
    · split at h
      · exact ⟨v, List.mem_cons_self .., h⟩
      · nomatch h
    · rcases ih h with ⟨w, hw, hu⟩
      exact ⟨w, List.mem_cons_of_mem _ hw, hu⟩

theorem mem_usages_of_mem_parameterUsages {v : Visit pool} {u : Usage} (h : u ∈ v.parameterUsages) :
    u ∈ v.usages := by
  rcases List.mem_flatMap.1 h with ⟨a, ha, hu⟩
  exact List.mem_flatMap.2 ⟨a, ha, List.mem_append_right _ hu⟩

theorem replaced_eq_nil {visits : List (Visit pool)}
    (h : visits.Pairwise fun v w => v.parameterUsages = [] ∨ w.parametrizes v.site = false) :
    replaced visits = [] := by
  induction h with
  | nil => rfl
  | cons hv hrest ih =>
    rename_i v visits
    rw [replaced, ih, List.append_nil]
    by_cases hempty : v.parameterUsages = []
    · rw [hempty, ite_self]
    · have hany : visits.any (·.parametrizes v.site) = false := by
        refine List.any_eq_false.2 fun w hw => ?_
        rw [(hv w hw).resolve_left hempty]
        decide
      rw [hany, if_neg (by decide)]

theorem repeatsName_of_mem_usages {v : Visit pool} (h : v.part.repeatsName = false) {u : Usage}
    (hu : u ∈ v.usages) : u.repeatsName = false :=
  Part.repeatsName_eq_false.1 h u (v.perm_usages_part.mem_iff.2 hu)

end Visit

/-- A whole record has the usages of all attributes and each as often as the file, but for usages on parameters: of
several methods with one key, the last that has any puts its own in the place of the others. -/
theorem whole_record_holds {bytes : Bytes} {r : ClassRecord} (h : decode bytes = .ok r) :
    ∃ pool header c c', readHeader.runAt (Cursor.start bytes) = (.ok (pool, header), c) ∧
      (survey pool c).next = .ok c' ∧
      (r.usages ++ Visit.replaced (survey pool c).whole).Perm ((survey pool c).whole.flatMap Visit.usages) ∧
      ((survey pool c).whole.Pairwise (fun v w => v.parameterUsages = [] ∨ w.parametrizes v.site = false) →
        r.usages.Perm ((survey pool c).whole.flatMap Visit.usages)) := by
  rcases of_decode_eq_ok h with ⟨pool, header, c, c', hheader, hnext, hplain, rfl⟩
  have hperm := Visit.perm_usages_record (isBare_readHeader hheader) (survey pool c).whole
  have hall : ∀ u ∈ (survey pool c).whole.flatMap Visit.usages, u.repeatsName = false := by
    intro u hu
    rcases List.mem_flatMap.1 hu with ⟨v, hv, hu⟩
    exact Visit.repeatsName_of_mem_usages (hplain v hv) hu
  have hreplaced : ∀ u ∈ Visit.replaced (survey pool c).whole, u.repeatsName = false := by
    intro u hu
    rcases Visit.exists_of_mem_replaced hu with ⟨v, hv, hu⟩
    exact Visit.repeatsName_of_mem_usages (hplain v hv) (Visit.mem_usages_of_mem_parameterUsages hu)
  rw [Part.map_distinct_eq hall, Part.map_distinct_eq hreplaced] at hperm
  refine ⟨pool, header, c, c', hheader, hnext, hperm, fun hapart => ?_⟩
  rwa [Visit.replaced_eq_nil hapart, List.append_nil] at hperm

/-! ### Two methods with one key -/

/-- Whether the file has more usages than its record. -/
def losesUsages (bytes : Bytes) : Bool :=
  match decode bytes, readHeader.runAt (Cursor.start bytes) with
  | .ok r, (.ok (pool, _), c) => r.usages.length < ((survey pool c).whole.flatMap Visit.usages).length
  | _, _ => false

theorem of_losesUsages {bytes : Bytes} (h : losesUsages bytes = true) :
    ∃ r pool header c, decode bytes = .ok r ∧ readHeader.runAt (Cursor.start bytes) = (.ok (pool, header), c) ∧
      r.usages.length < ((survey pool c).whole.flatMap Visit.usages).length := by
  unfold losesUsages at h
  split at h
  · rename_i r pool header c hdecode hheader
    exact ⟨r, pool, header, c, hdecode, hheader, of_decide_eq_true h⟩
  · nomatch h

/-- Two methods with one key, each with a usage on its parameter. -/
def sameMethods : Blueprint where
  name := "app/Form"
  methods :=
    [{ name := "m", descriptor := "(I)V", parameters := [[⟨"app.First", .runtime, []⟩]] },
      { name := "m", descriptor := "(I)V", parameters := [[⟨"app.Second", .runtime, []⟩]] }]

/-- One of the two usages is in the record, the other is replaced. -/
theorem whole_record_of_sameMethods :
    ∃ r pool header c, decode sameMethods.assemble = .ok r ∧
      readHeader.runAt (Cursor.start sameMethods.assemble) = (.ok (pool, header), c) ∧
      (r.usages ++ Visit.replaced (survey pool c).whole).Perm ((survey pool c).whole.flatMap Visit.usages) := by
  have hloses : losesUsages sameMethods.assemble = true := by decide +kernel
  rcases of_losesUsages hloses with ⟨r, -, -, -, hdecode, -, -⟩
  rcases whole_record_holds hdecode with ⟨pool, header, c, -, hheader, -, hperm, -⟩
  exact ⟨r, pool, header, c, hdecode, hheader, hperm⟩

/-- A record can have fewer usages than its file. -/
theorem usages_on_parameters_are_lost :
    ¬ ∀ (bytes : Bytes) (r : ClassRecord) (pool : ConstantPool) (header : ClassRecord) (c : Cursor),
      decode bytes = .ok r → readHeader.runAt (Cursor.start bytes) = (.ok (pool, header), c) →
        r.usages.Perm ((survey pool c).whole.flatMap Visit.usages) := by
  intro h
  have hloses : losesUsages sameMethods.assemble = true := by decide +kernel
  rcases of_losesUsages hloses with ⟨r, pool, header, c, hdecode, hheader, hlt⟩
  exact Nat.ne_of_lt hlt (h _ r pool header c hdecode hheader).length_eq

end ClassFile

end ClassCatalog

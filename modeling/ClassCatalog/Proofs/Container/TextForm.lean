import ClassCatalog.Container.Policy
import ClassCatalog.Proofs.Text.Split

/-!
# The text forms of locations and specifications

Of all locations those are canonical that some text is read as (`Location.Canonical`): the disk says what
kind a path without the mark is, and in an archive the first mark stands before the entry, whose slashes at
the start are gone. A canonical location is read from its own text form (`Canonical.parse_logicalPath`), and
a specification with it from that form with the policy behind (`Canonical.parse_spec`). For the second only
the last colon counts, and the name of a policy has none.
-/

namespace ClassCatalog

variable {isDirectory : String → Bool}

namespace Location

/-- What a text can be read as. -/
inductive Canonical (isDirectory : String → Bool) : Location → Prop
  | directory {path : String} (hdisk : isDirectory path = true) (hmark : ¬ nestedMark <:+: path.toList) :
      Canonical isDirectory (directory path)
  | archive {path : String} (hdisk : isDirectory path = false) (hmark : ¬ nestedMark <:+: path.toList) :
      Canonical isDirectory (archive path)
  | nested {outer entry : String} (hmark : ¬ nestedMark <:+: outer.toList)
      (hentry : entry.toList.head? ≠ some '/') : Canonical isDirectory (nested outer entry)

/-- A mark cannot begin in a text without marks and end in a mark behind it. -/
theorem not_nestedMark_prefix {outer s after : List Char} (hmark : ¬ nestedMark <:+: outer)
    (hs : s <:+ outer) (hne : s ≠ []) : ¬ nestedMark <+: s ++ nestedMark ++ after := by
  intro hprefix
  match s with
  | [] => exact hne rfl
  | [c] =>
    -- The slash would have to be the exclamation mark of the mark behind.
    simp [nestedMark, List.cons_prefix_cons] at hprefix
  | c :: d :: s =>
    have hstart : nestedMark <+: c :: d :: s := by
      simpa [nestedMark, List.cons_prefix_cons] using hprefix
    exact hmark (hstart.isInfix.trans hs.isInfix)

theorem canonical_parse (isDirectory : String → Bool) (raw : String) :
    Canonical isDirectory (parse isDirectory raw) := by
  unfold parse
  cases hcut : Text.splitFirst? nestedMark raw.toList with
  | none =>
    have hmark := Text.splitFirst?_eq_none.1 hcut
    cases hdisk : isDirectory raw with
    | true => exact .directory hdisk hmark
    | false => exact .archive hdisk hmark
  | some parts =>
    obtain ⟨outer, entry⟩ := parts
    obtain ⟨-, hfree⟩ := Text.of_splitFirst?_eq_some hcut
    refine .nested ?_ ?_
    · rintro ⟨before, after, heq⟩
      rw [String.toList_ofList] at heq
      refine hfree (nestedMark ++ after) ⟨before, by rw [← List.append_assoc, heq]⟩ (by simp [nestedMark]) ?_
      rw [List.append_assoc, List.append_assoc]
      exact List.prefix_append ..
    · rw [String.toList_ofList]
      intro hhead
      have hslash := List.head?_dropWhile_not (· == '/') entry
      simp [hhead] at hslash

/-- The kind of a location, and where its path ends, are read off its text form. -/
theorem Canonical.parse_logicalPath {l : Location} (h : Canonical isDirectory l) :
    parse isDirectory l.logicalPath = l := by
  unfold parse
  cases h with
  | directory hdisk hmark => simp [logicalPath, Text.splitFirst?_eq_none.2 hmark, hdisk]
  | archive hdisk hmark => simp [logicalPath, Text.splitFirst?_eq_none.2 hmark, hdisk]
  | @nested outer entry hmark hentry =>
    have hcut : Text.splitFirst? nestedMark (Location.nested outer entry).logicalPath.toList =
        some (outer.toList, entry.toList) := by
      rw [logicalPath, String.toList_append, String.toList_append, String.toList_ofList]
      exact Text.splitFirst?_append fun s => not_nestedMark_prefix hmark
    have htrimmed : entry.toList.dropWhile (· == '/') = entry.toList := by
      cases htext : entry.toList with
      | nil => rfl
      | cons c rest =>
        rw [htext, List.head?_cons] at hentry
        exact List.dropWhile_cons_of_neg (by simpa using fun hc => hentry (congrArg some hc))
    rw [hcut]
    simp [htrimmed]

theorem Canonical.eq_of_logicalPath {l l' : Location} (h : Canonical isDirectory l)
    (h' : Canonical isDirectory l') (heq : l.logicalPath = l'.logicalPath) : l = l' := by
  rw [← h.parse_logicalPath, heq, h'.parse_logicalPath]

end Location

namespace ScanPolicy

theorem ofName?_name (p : ScanPolicy) : ofName? p.name = some p := by cases p <;> decide

theorem colon_notMem_name (p : ScanPolicy) : ':' ∉ p.name.toList := by cases p <;> decide

end ScanPolicy

namespace ContainerSpec

theorem canonical_parse (isDirectory : String → Bool) (raw : String) :
    (parse isDirectory raw).location.Canonical isDirectory := by
  unfold parse
  split
  · exact Location.canonical_parse isDirectory raw
  · split
    · exact Location.canonical_parse isDirectory _
    · exact Location.canonical_parse isDirectory raw

/-- Whatever the text of the location looks like, the policy behind it is read as the policy. -/
theorem parse_spec {l : Location} (h : l.Canonical isDirectory) (policy : ScanPolicy) :
    parse isDirectory (l.logicalPath ++ ":" ++ policy.name) = ⟨l, policy⟩ := by
  have hcut : Text.splitLast? ':' (l.logicalPath ++ ":" ++ policy.name).toList =
      some (l.logicalPath.toList, policy.name.toList) := by
    rw [String.toList_append, String.toList_append, List.append_assoc]
    exact Text.splitLast?_append policy.colon_notMem_name
  unfold parse
  rw [hcut]
  simp [ScanPolicy.ofName?_name, h.parse_logicalPath]

/-- A specification that was read from a text is read again from its location and its policy, and its location
from the text form of that alone. So of two specifications that were read, whatever from, those whose locations
have one text form have one location. -/
theorem read_again_from_text_form (isDirectory : String → Bool) (raw : String) :
    let s := parse isDirectory raw
    parse isDirectory (s.location.logicalPath ++ ":" ++ s.policy.name) = s ∧
      Location.parse isDirectory s.location.logicalPath = s.location ∧
      ∀ raw', (parse isDirectory raw').location.logicalPath = s.location.logicalPath →
        (parse isDirectory raw').location = s.location := by
  intro s
  have hcanonical : s.location.Canonical isDirectory := canonical_parse isDirectory raw
  refine ⟨parse_spec hcanonical s.policy, hcanonical.parse_logicalPath, fun raw' hsame => ?_⟩
  exact (canonical_parse isDirectory raw').eq_of_logicalPath hcanonical hsame

/-- A drive letter, two marks, slashes in a row, two policies and capital letters. -/
example : parse (fun _ => true) "C:/a!!///b!//c.jar:seed:PARTIAL" =
    ⟨.nested "C:/a!" "b!//c.jar:seed", .fragment⟩ := by decide

end ContainerSpec

end ClassCatalog

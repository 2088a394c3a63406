import AbiFacts.Profile.Validation
import AbiFacts.Proofs.Profile.Mismatches
import Mathlib.Data.List.TakeWhile

/-! # What validation finds

Validation looks at the name, the pins and the table of expectations one after another, and each
look is taken whatever the others find. So the issues are exactly the problems of a profile, each
once and in a fixed order (`validation_finds_exactly_the_problems`).
-/
namespace AbiFacts

/-! ## Names -/

theorem Text.trim_eq_nil {text : List Char} :
    Text.trim text = [] ↔ ∀ c ∈ text, Text.isBlank c = true := by
  rw [Text.trim, List.reverse_eq_nil_iff, List.dropWhile_eq_nil_iff]
  simp only [List.mem_reverse]
  constructor
  · intro h c hc
    rw [← List.takeWhile_append_dropWhile (p := Text.isBlank) (l := text), List.mem_append] at hc
    exact hc.elim List.mem_takeWhile_imp (h c)
  · exact fun h c hc => h c ((List.dropWhile_suffix _).subset hc)

/-- A character that no name of a file in the directory of profiles may hold. -/
def IsBarred (c : Char) : Prop := Text.isBlank c = true ∨ c = '/' ∨ c = '\\'

/-- The problem that is reported for a name: of those that it has the first one. -/
inductive HasProblem (name : String) : NameProblem → Prop where
  | empty (hblank : ∀ c ∈ name.toList, Text.isBlank c = true) : HasProblem name .empty
  | notPlain {c d : Char} (hc : c ∈ name.toList) (hshown : Text.isBlank c = false)
      (hd : d ∈ name.toList) (hbarred : IsBarred d) : HasProblem name .notPlain
  | hidden (hplain : ∀ c ∈ name.toList, ¬ IsBarred c) (hdot : name.toList.head? = some '.') :
      HasProblem name .hidden

structure IsUsable (name : String) : Prop where
  nonempty : name ≠ ""
  plain : ∀ c ∈ name.toList, ¬ IsBarred c
  visible : name.toList.head? ≠ some '.'

theorem any_isBarred {text : List Char} :
    (text.any fun c => Text.isBlank c || c == '/' || c == '\\') = true ↔ ∃ c ∈ text, IsBarred c := by
  simp [IsBarred, or_assoc]

/-- A name that is not blank has a character that is not. -/
theorem trim_ne_nil {name : String} :
    ¬ (Text.trim name.toList).isEmpty = true ↔ ∃ c ∈ name.toList, Text.isBlank c = false := by
  simp [Text.trim_eq_nil]

theorem nameProblem?_eq_some {name : String} {problem : NameProblem} :
    nameProblem? name = some problem ↔ HasProblem name problem := by
  constructor
  · intro h
    rw [nameProblem?] at h
    split at h
    case isTrue hempty =>
      cases h
      exact .empty (Text.trim_eq_nil.mp (List.isEmpty_iff.mp hempty))
    case isFalse hshown =>
      obtain ⟨c, hc, hshown⟩ := trim_ne_nil.mp hshown
      split at h
      case isTrue hany =>
        cases h
        obtain ⟨d, hd, hbarred⟩ := any_isBarred.mp hany
        exact .notPlain hc hshown hd hbarred
      case isFalse hplain =>
        obtain ⟨hdot, ⟨⟩⟩ := Option.ite_none_right_eq_some.mp h
        exact .hidden (fun d hd hbarred => hplain (any_isBarred.mpr ⟨d, hd, hbarred⟩)) hdot
  · rintro (hblank | ⟨hc, hshown, hd, hbarred⟩ | ⟨hplain, hdot⟩)
    · have hempty := List.isEmpty_iff.mpr (Text.trim_eq_nil.mpr hblank)
      rw [nameProblem?, if_pos hempty]
    · have hsome := trim_ne_nil.mpr ⟨_, hc, hshown⟩
      rw [nameProblem?, if_neg hsome, if_pos (any_isBarred.mpr ⟨_, hd, hbarred⟩)]
    · have hmem := List.mem_of_head? hdot
      have hsome := trim_ne_nil.mpr ⟨'.', hmem, by decide⟩
      have hnone := mt any_isBarred.mp fun ⟨d, hd, hbarred⟩ => hplain d hd hbarred
      rw [nameProblem?, if_neg hsome, if_neg hnone, if_pos hdot]

/-- Exactly the usable names have no problem. -/
theorem nameProblem?_eq_none {name : String} : nameProblem? name = none ↔ IsUsable name := by
  rw [Option.eq_none_iff_forall_ne_some]
  simp only [ne_eq, nameProblem?_eq_some]
  constructor
  · intro h
    have hplain : ∀ d ∈ name.toList, ¬ IsBarred d := by
      intro d hd hbarred
      by_cases hblank : ∀ c ∈ name.toList, Text.isBlank c = true
      · exact h .empty (.empty hblank)
      · obtain ⟨c, hc, hshown⟩ := trim_ne_nil.mp (by simpa [Text.trim_eq_nil] using hblank)
        exact h .notPlain (.notPlain hc hshown hd hbarred)
    refine ⟨?_, hplain, fun hdot => h .hidden (.hidden hplain hdot)⟩
    rintro rfl
    exact h .empty (.empty (by simp))
  · rintro ⟨hne, hplain, hvisible⟩ _ (hblank | ⟨_, _, hd, hbarred⟩ | ⟨_, hdot⟩)
    · obtain ⟨c, hc⟩ := List.exists_mem_of_ne_nil _ (mt String.toList_eq_nil_iff.mp hne)
      exact hplain c hc (.inl (hblank c hc))
    · exact hplain _ hd hbarred
    · exact hvisible hdot

/-! ## Tables that pin nothing -/

/-- Nothing is pinned in the empty expectations alone. -/
theorem Expectations.isEmpty_iff {e : Expectations} : e.isEmpty = true ↔ e = {} := by
  rw [isEmpty, Bool.and_eq_true, List.isEmpty_iff, Option.isNone_iff_eq_none]
  constructor
  · rintro ⟨hentries, htail⟩
    ext property value
    · rw [← mem_entries, hentries]
      simp
    · rw [htail]
  · rintro rfl
    simp [entries]

/-! ## Issues -/

def Issue.place : Issue → Nat
  | name _ _ => 0
  | mismatch _ m => m.place + 1
  | nothingPinned => Property.list.length + 2

/-- Only a table of expectations that pins nothing is a warning. -/
theorem Issue.severity_eq_warning {issue : Issue} :
    issue.severity = .warning ↔ issue = .nothingPinned := by
  cases issue <;> simp [severity]

theorem Mismatch.place_le (m : Mismatch) : m.place ≤ Property.list.length := by
  cases m with
  | property p _ _ => exact p.place_lt.le
  | tailPadding _ _ => exact Nat.le_refl _

namespace Profile

/-- What is wrong with a profile, said without regard to the other things that may be wrong. -/
inductive Finds (p : Profile) : Issue → Prop where
  | name {problem : NameProblem} (h : HasProblem p.name problem) : Finds p (.name p.name problem)
  | mismatch {m : Mismatch} (h : p.Disagrees m) : Finds p (.mismatch p.abi m)
  | nothingPinned (h : p.expect = some {}) : Finds p .nothingPinned

theorem mem_issues {p : Profile} {issue : Issue} : issue ∈ p.issues ↔ p.Finds issue := by
  have hwarning : p.expect.any Expectations.isEmpty = true ↔ p.expect = some {} := by
    simp [Option.any_eq_true, Expectations.isEmpty_iff]
  simp only [issues, List.mem_append, Option.mem_toList, Option.map_eq_some_iff, List.mem_map,
    List.mem_ite_nil_right, List.mem_singleton, hwarning, nameProblem?_eq_some, mem_mismatches]
  constructor
  · rintro ((⟨problem, h, rfl⟩ | ⟨m, h, rfl⟩) | ⟨h, rfl⟩)
    · exact .name h
    · exact .mismatch h
    · exact .nothingPinned h
  · rintro (h | h | h)
    · exact .inl (.inl ⟨_, h, rfl⟩)
    · exact .inl (.inr ⟨_, h, rfl⟩)
    · exact .inr ⟨h, rfl⟩

theorem issues_ordered (p : Profile) : p.issues.Pairwise fun a b => a.place < b.place := by
  have hmismatches : (p.mismatches.map (Issue.mismatch p.abi)).Pairwise
      fun a b => a.place < b.place := by
    rw [List.pairwise_map]
    exact p.mismatches_ordered.imp Nat.succ_lt_succ
  rw [issues, List.append_assoc, List.pairwise_append, List.pairwise_append]
  refine ⟨by cases nameProblem? p.name <;> simp, ⟨hmismatches, by split <;> simp, ?_⟩, ?_⟩
  · intro a ha b hb
    rcases List.mem_map.mp ha with ⟨m, _, rfl⟩
    rcases List.mem_ite_nil_right.mp hb with ⟨_, hb⟩
    rw [List.mem_singleton.mp hb]
    have hplace := m.place_le
    simp only [Issue.place]
    omega
  · intro a ha b hb
    rcases Option.map_eq_some_iff.mp (Option.mem_toList.mp ha) with ⟨problem, _, rfl⟩
    rcases List.mem_append.mp hb with hb | hb
    · rcases List.mem_map.mp hb with ⟨m, _, rfl⟩
      exact Nat.succ_pos _
    · rcases List.mem_ite_nil_right.mp hb with ⟨_, hb⟩
      rw [List.mem_singleton.mp hb]
      exact Nat.succ_pos _

/-- An empty table has no pin that could disagree. -/
theorem pinsAgree_of_nothingPinned {p : Profile} (h : p.expect = some {}) : p.PinsAgree := by
  constructor
  · intro e hexpect property expected hpin
    rw [h, Option.some.injEq] at hexpect
    subst hexpect
    cases hpin
  · intro e hexpect expected hpin
    rw [h, Option.some.injEq] at hexpect
    subst hexpect
    cases hpin

/-- A pin disagrees unless all agree. -/
theorem exists_disagrees {p : Profile} : (∃ m, p.Disagrees m) ↔ ¬ p.PinsAgree := by
  rw [← mismatches_eq_nil, List.eq_nil_iff_forall_not_mem]
  simp [mem_mismatches]

theorem exists_finds_name {p : Profile} :
    (∃ problem, p.Finds (.name p.name problem)) ↔ ¬ IsUsable p.name := by
  rw [← nameProblem?_eq_none, ← ne_eq, Option.ne_none_iff_exists']
  simp only [nameProblem?_eq_some]
  apply exists_congr
  intro problem
  constructor
  · intro h
    cases h with
    | name h => exact h
  · exact .name

theorem finds_mismatch {p : Profile} {m : Mismatch} :
    p.Finds (.mismatch p.abi m) ↔ p.Disagrees m := by
  constructor
  · intro h
    cases h with
    | mismatch h => exact h
  · exact .mismatch

theorem finds_nothingPinned {p : Profile} : p.Finds .nothingPinned ↔ p.expect = some {} := by
  constructor
  · intro h
    cases h with
    | nothingPinned h => exact h
  · exact .nothingPinned

theorem exists_finds_error {p : Profile} :
    (∃ issue, p.Finds issue ∧ issue.severity = .error) ↔ ¬ IsUsable p.name ∨ ¬ p.PinsAgree := by
  rw [← exists_finds_name, ← exists_disagrees]
  constructor
  · rintro ⟨issue, hfinds, hseverity⟩
    cases hfinds with
    | name h => exact .inl ⟨_, .name h⟩
    | mismatch h => exact .inr ⟨_, h⟩
    | nothingPinned h => cases hseverity
  · rintro (⟨problem, h⟩ | ⟨m, h⟩)
    · exact ⟨_, h, rfl⟩
    · exact ⟨_, .mismatch h, rfl⟩

theorem issues_eq_nil {p : Profile} :
    p.issues = [] ↔ IsUsable p.name ∧ p.PinsAgree ∧ p.expect ≠ some {} := by
  have hnone : p.issues = [] ↔ ∀ issue, ¬ p.Finds issue := by
    simp only [List.eq_nil_iff_forall_not_mem, mem_issues]
  rw [hnone]
  constructor
  · intro h
    refine ⟨?_, ?_, fun hexpect => h _ (.nothingPinned hexpect)⟩
    · apply Classical.not_not.mp
      rw [← exists_finds_name]
      rintro ⟨problem, hfinds⟩
      exact h _ hfinds
    · apply Classical.not_not.mp
      rw [← exists_disagrees]
      rintro ⟨m, hdisagrees⟩
      exact h _ (.mismatch hdisagrees)
  · rintro ⟨husable, hagree, hexpect⟩ issue hfinds
    cases hfinds with
    | name h => exact exists_finds_name.mp ⟨_, .name h⟩ husable
    | mismatch h => exact exists_disagrees.mp ⟨_, h⟩ hagree
    | nothingPinned h => exact hexpect h

/-- Validation finds each problem of a profile once and in a fixed order, whatever other problems
there are, and nothing else. -/
theorem validation_finds_exactly_the_problems (p : Profile) :
    (p.issues = [] ↔ IsUsable p.name ∧ p.PinsAgree ∧ p.expect ≠ some {}) ∧
    (∀ issue, issue ∈ p.issues ↔ p.Finds issue) ∧
    p.issues.Pairwise (fun a b => a.place < b.place) ∧
    ((∃ problem, Issue.name p.name problem ∈ p.issues) ↔ ¬ IsUsable p.name) ∧
    ¬ (Issue.nothingPinned ∈ p.issues ∧ ∃ m, Issue.mismatch p.abi m ∈ p.issues) ∧
    ((∃ issue ∈ p.issues, issue.severity = .warning) ↔ p.expect = some {}) ∧
    ((∃ issue ∈ p.issues, issue.severity = .error) ↔ ¬ IsUsable p.name ∨ ¬ p.PinsAgree) := by
  refine ⟨issues_eq_nil, fun _ => mem_issues, p.issues_ordered, ?_, ?_, ?_, ?_⟩
  · simp only [mem_issues, exists_finds_name]
  · simp only [mem_issues, finds_nothingPinned, finds_mismatch]
    rintro ⟨hexpect, hdisagrees⟩
    exact exists_disagrees.mp hdisagrees (pinsAgree_of_nothingPinned hexpect)
  · simp only [mem_issues, Issue.severity_eq_warning, exists_eq_right, finds_nothingPinned]
  · simp only [mem_issues, exists_finds_error]

end Profile
end AbiFacts

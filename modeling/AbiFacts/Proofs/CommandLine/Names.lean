import AbiFacts.Proofs.CommandLine.Discovering
import AbiFacts.Proofs.Files.Components
import AbiFacts.Proofs.Profile.Templates

/-! # Names of profiles and their files

Checking a name, validating a profile with this name and writing a template under it find the same
thing wrong with it. A name that passes is the name of one file in the directory of the profiles and
leads nowhere else, and it shares this file with no other name (`accepted_names_stay_inside`).
-/
namespace AbiFacts

open Files Profile

namespace NameProblem

def list : List NameProblem := [empty, notPlain, hidden]

/-- A name has this problem, whatever else is wrong with it. -/
def Applies (name : String) : NameProblem → Prop
  | empty => Text.trim name.toList = []
  | notPlain => ∃ c ∈ name.toList, Text.isBlank c = true ∨ c = '/' ∨ c = '\\'
  | hidden => name.toList.head? = some '.'

def IsFirst (name : String) (problem : NameProblem) : Prop :=
  ∃ before after, list = before ++ problem :: after ∧ problem.Applies name ∧
    ∀ other ∈ before, ¬ other.Applies name

theorem isFirst_of_hasProblem {name : String} {problem : NameProblem}
    (h : HasProblem name problem) : problem.IsFirst name := by
  cases h with
  | empty hblank =>
    refine ⟨[], [notPlain, hidden], rfl, Text.trim_eq_nil.mpr hblank, ?_⟩
    simp
  | @notPlain c d hc hshown hd hbarred =>
    have hnonempty : ¬ empty.Applies name := by
      intro htrim
      have hblank := Text.trim_eq_nil.mp htrim c hc
      simp [hshown] at hblank
    refine ⟨[empty], [hidden], rfl, ⟨d, hd, hbarred⟩, ?_⟩
    simpa using hnonempty
  | hidden hplain hdot =>
    have hmem := List.mem_of_head? hdot
    have hnonempty : ¬ empty.Applies name :=
      fun htrim => hplain '.' hmem (.inl (Text.trim_eq_nil.mp htrim '.' hmem))
    have hnotBarred : ¬ notPlain.Applies name := fun ⟨c, hc, hbarred⟩ => hplain c hc hbarred
    refine ⟨[empty, notPlain], [], rfl, hdot, ?_⟩
    simpa using ⟨hnonempty, hnotBarred⟩

end NameProblem

namespace Profile

theorem checkName_eq_error {name : String} {invalid : InvalidName} :
    checkName name = .error invalid ↔
      ∃ problem, nameProblem? name = some problem ∧ invalid = ⟨name, problem⟩ := by
  rw [checkName]
  cases nameProblem? name <;> simp [eq_comm]

/-- In a profile with no more than a name and a kind only the name can be wrong. -/
theorem issues_of_name (name : String) (kind : Kind) :
    ({ name, abi := kind } : Profile).issues =
      ((nameProblem? name).map (Issue.name name)).toList := by
  simp [issues, mismatches]

end Profile

namespace CommandLine

theorem components_defaultPath {name : String} (h : IsUsable name) (project : Path) :
    (defaultPath project name).components = project.components ++
      [.normal (Name.ofString "abi"), .normal (Name.ofString (fileName name))] := by
  have hfile : (defaultPath project name).components =
      (directoryOf project).components ++ [.normal (Name.ofString (fileName name))] :=
    Path.components_join (directoryOf project) (isPlain_fileName name) (slash_notMem_fileName h)
  have hdirectory : (directoryOf project).components =
      project.components ++ [.normal (Name.ofString "abi")] :=
    Path.components_join project ⟨by decide, by decide, by decide⟩ (by decide)
  rw [hfile, hdirectory, List.append_assoc, List.singleton_append]

/-- Usable names with one path are one name. -/
theorem defaultPath_injective {name other : String} (h : IsUsable name) (hother : IsUsable other)
    {project : Path} (heq : defaultPath project name = defaultPath project other) :
    name = other := by
  have hcomponents := congrArg Path.components heq
  rw [components_defaultPath h, components_defaultPath hother] at hcomponents
  have hname : Name.ofString (fileName name) = Name.ofString (fileName other) := by
    simpa using hcomponents
  exact fileName_injective (Name.ofString_injective hname)

/-- The three checks of a name accept the same names and find the same thing wrong with the others,
the first one in their order. For a name that they accept, the path of the profile goes from the
project to `abi` and to one file there, which is the file of no other such name. -/
theorem accepted_names_stay_inside (name : String) (kind : Kind) :
    (checkName name = .ok () ↔ ({ name, abi := kind } : Profile).issues = []) ∧
    (checkName name = .ok () ↔ ∃ text, template name kind = .ok text) ∧
    (∀ invalid, checkName name = .error invalid →
      template name kind = .error invalid ∧ invalid.name = name ∧
        invalid.problem.IsFirst name ∧
        ∃ issue, ({ name, abi := kind } : Profile).issues = [issue] ∧
          issue.message = invalid.reason) ∧
    (checkName name = .ok () → ∀ project,
      (defaultPath project name).components = project.components ++
        [.normal (Name.ofString "abi"), .normal (Name.ofString (name ++ ".abi.toml"))] ∧
      Name.ofString (name ++ ".abi.toml") ≠ Path.dot ∧
      Name.ofString (name ++ ".abi.toml") ≠ Path.dotDot ∧
      ∀ other, checkName other = .ok () → other ≠ name →
        defaultPath project other ≠ defaultPath project name) := by
  refine ⟨?_, ?_, ?_, ?_⟩
  · rw [checkName_eq_ok, issues_of_name]
    simp
  · rw [checkName_eq_ok]
    simp [template_eq_ok]
  · intro invalid hinvalid
    rcases checkName_eq_error.mp hinvalid with ⟨problem, hproblem, rfl⟩
    refine ⟨template_eq_error.mpr hinvalid, rfl,
      NameProblem.isFirst_of_hasProblem (nameProblem?_eq_some.mp hproblem),
      .name name problem, ?_, rfl⟩
    rw [issues_of_name, hproblem]
    rfl
  · intro hok project
    have husable := nameProblem?_eq_none.mp (checkName_eq_ok.mp hok)
    have hplain := isPlain_fileName name
    refine ⟨components_defaultPath husable project, hplain.ne_dot, hplain.ne_dotDot, ?_⟩
    intro other hother hne heq
    exact hne (defaultPath_injective (nameProblem?_eq_none.mp (checkName_eq_ok.mp hother)) husable
      heq)

/-- Of a blank and a dot in front of it the blank is told. A name may end like a file. -/
theorem dot_before_blank_is_refused_for_the_blank :
    (∃ issue, ({ name := ".x ", abi := .ios } : Profile).issues = [issue] ∧
      issue.message = "profile name '.x ' contains whitespace or a path separator") ∧
    (defaultPath (.ofString "../p/") "x.abi.toml").components =
      [.parent, .normal (Name.ofString "p"), .normal (Name.ofString "abi"),
        .normal (Name.ofString "x.abi.toml.abi.toml")] ∧
    defaultPath (.ofString "../p/") "x" ≠ defaultPath (.ofString "../p/") "x.abi.toml" := by
  have hrefused : checkName ".x " = .error ⟨".x ", .notPlain⟩ := by decide
  have haccepted : checkName "x.abi.toml" = .ok () := by decide
  rcases (accepted_names_stay_inside ".x " .ios).2.2.1 _ hrefused with ⟨_, _, _, hissue⟩
  rcases (accepted_names_stay_inside "x.abi.toml" .ios).2.2.2 haccepted (.ofString "../p/") with
    ⟨hcomponents, _, _, hother⟩
  refine ⟨hissue, ?_, hother "x" (by decide) (by decide)⟩
  rw [hcomponents]
  decide +kernel

end CommandLine
end AbiFacts

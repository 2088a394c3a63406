import AbiFacts.Profile.Files
import AbiFacts.Proofs.Files.Growing

/-! # Loading profiles

What is loaded from a path is settled by where the path leads, the bytes that are there and the text
they hold. Each way of failing has an error of its own.
-/
namespace AbiFacts

open Files

namespace Files.Tree

variable {tree : Tree} {current : Location} {path : Path} {content : List UInt8}

def LeadsToFile (tree : Tree) (current : Location) (path : Path) (content : List UInt8) : Prop :=
  ∃ location, tree.resolve .look current path = .ok (.present location (.file content))

theorem read_eq_ok :
    tree.read current path = .ok content ↔ tree.LeadsToFile current path content := by
  unfold read LeadsToFile
  cases tree.resolve .look current path with
  | error => simp
  | ok place =>
    cases place with
    | absent => simp
    | present location node => cases node <;> simp

theorem LeadsToFile.pathExists (h : tree.LeadsToFile current path content) :
    tree.pathExists current path = true := by
  obtain ⟨location, hresolve⟩ := h
  rw [Tree.pathExists, hresolve]

theorem LeadsToFile.unique {other : List UInt8} (h : tree.LeadsToFile current path content)
    (h' : tree.LeadsToFile current path other) : content = other := by
  rw [← read_eq_ok] at h h'
  exact Except.ok.inj (h.symm.trans h')

end Files.Tree

namespace Profile

variable (tree : Tree) (current : Location) (path : Path)

inductive Loads : Except LoadError Profile → Prop where
  | notFound (hmissing : tree.pathExists current path = false) : Loads (.error (.notFound path))
  | noFile {e : SystemError} (hexists : tree.pathExists current path = true)
      (hread : tree.read current path = .error e) : Loads (.error (.unreadable (.system e)))
  | notText {content : List UInt8} (hfile : tree.LeadsToFile current path content)
      (hno : Text.ofBytes? content = none) : Loads (.error (.unreadable .notText))
  | invalid {content : List UInt8} {text : String} {failure : Decode.Failure}
      (hfile : tree.LeadsToFile current path content) (htext : Text.ofBytes? content = some text)
      (hfails : Toml.profile? text = .error failure) : Loads (.error (.invalid failure))
  | profile {content : List UInt8} {text : String} {p : Profile}
      (hfile : tree.LeadsToFile current path content) (htext : Text.ofBytes? content = some text)
      (hprofile : Toml.profile? text = .ok p) : Loads (.ok p)

def loadingRecord : LogRecord := ⟨.debug, "loading ABI profile", [("path", path.shown)]⟩

variable {tree current path}

theorem load_of_not_pathExists (h : tree.pathExists current path = false) :
    ((load path : InTree _) current tree).1 = ([], .error (.notFound path)) := by
  rw [load, InTree.bind_apply, InTree.pathExists_apply, h]
  rfl

theorem load_of_pathExists (h : tree.pathExists current path = true) :
    ((load path : InTree _) current tree).1 = ([loadingRecord path],
      match tree.read current path with
      | .error e => .error (.unreadable (.system e))
      | .ok content => ofBytes content) := by
  rw [load, InTree.bind_apply, InTree.pathExists_apply, h, if_pos rfl, InTree.bind_apply,
    InTree.read_apply]
  cases tree.read current path <;> rfl

theorem load_of_leadsToFile {content : List UInt8} (h : tree.LeadsToFile current path content) :
    ((load path : InTree _) current tree).1 = ([loadingRecord path], ofBytes content) := by
  rw [load_of_pathExists h.pathExists, Tree.read_eq_ok.mpr h]

theorem load_eq_iff {result : Except LoadError Profile} :
    ((load path : InTree _) current tree).1.2 = result ↔ Loads tree current path result := by
  constructor
  · rintro rfl
    cases hexists : tree.pathExists current path with
    | false =>
      rw [load_of_not_pathExists hexists]
      exact .notFound hexists
    | true =>
      rw [load_of_pathExists hexists]
      cases hread : tree.read current path with
      | error e => exact .noFile hexists hread
      | ok content =>
        have hfile := Tree.read_eq_ok.mp hread
        dsimp only
        rw [ofBytes]
        split
        case h_1 hno => exact .notText hfile hno
        case h_2 text htext =>
          split
          case h_1 p hprofile => exact .profile hfile htext hprofile
          case h_2 failure hfails => exact .invalid hfile htext hfails
  · intro h
    cases h with
    | notFound hmissing => rw [load_of_not_pathExists hmissing]
    | noFile hexists hread => rw [load_of_pathExists hexists, hread]
    | notText hfile hno => rw [load_of_leadsToFile hfile, ofBytes, hno]
    | invalid hfile htext hfails =>
      rw [load_of_leadsToFile hfile, ofBytes, htext]
      dsimp only
      rw [hfails]
    | profile hfile htext hprofile =>
      rw [load_of_leadsToFile hfile, ofBytes, htext]
      dsimp only
      rw [hprofile]

/-- A profile is loaded exactly from a path to a file with the text of the profile. -/
theorem loads_ok_iff {p : Profile} :
    Loads tree current path (.ok p) ↔ ∃ content text, tree.LeadsToFile current path content ∧
      Text.ofBytes? content = some text ∧ Toml.profile? text = .ok p := by
  constructor
  · rintro ⟨⟩
    exact ⟨_, _, ‹_›, ‹_›, ‹_›⟩
  · rintro ⟨content, text, hfile, htext, hprofile⟩
    exact .profile hfile htext hprofile

theorem loads_notFound_iff :
    Loads tree current path (.error (.notFound path)) ↔ tree.pathExists current path = false := by
  constructor
  · rintro ⟨⟩
    assumption
  · exact .notFound

/-- Reading fails for a path that leads to something, but not to a file that holds text. -/
theorem loads_unreadable_iff :
    (∃ e, Loads tree current path (.error (.unreadable e))) ↔
      tree.pathExists current path = true ∧
        ¬ ∃ content text, tree.LeadsToFile current path content ∧
          Text.ofBytes? content = some text := by
  constructor
  · rintro ⟨e, h⟩
    cases h with
    | noFile hexists hread =>
      refine ⟨hexists, fun ⟨content, _, hfile, _⟩ => ?_⟩
      rw [Tree.read_eq_ok.mpr hfile] at hread
      cases hread
    | notText hfile hno =>
      refine ⟨hfile.pathExists, fun ⟨content, text, hother, htext⟩ => ?_⟩
      rw [hother.unique hfile, hno] at htext
      cases htext
  · rintro ⟨hexists, hno⟩
    cases hread : tree.read current path with
    | error e => exact ⟨_, .noFile hexists hread⟩
    | ok content =>
      have hfile := Tree.read_eq_ok.mp hread
      cases htext : Text.ofBytes? content with
      | none => exact ⟨_, .notText hfile htext⟩
      | some text => exact absurd ⟨content, text, hfile, htext⟩ hno

theorem loads_invalid_iff {failure : Decode.Failure} :
    Loads tree current path (.error (.invalid failure)) ↔
      ∃ content text, tree.LeadsToFile current path content ∧ Text.ofBytes? content = some text ∧
        Toml.profile? text = .error failure := by
  constructor
  · rintro ⟨⟩
    exact ⟨_, _, ‹_›, ‹_›, ‹_›⟩
  · rintro ⟨content, text, hfile, htext, hfails⟩
    exact .invalid hfile htext hfails

/-- A failure to load is recorded unless nothing is found. -/
theorem load_of_loads_error {e : LoadError} (h : Loads tree current path (.error e)) :
    ((load path : InTree _) current tree).1 =
      (if e = .notFound path then [] else [loadingRecord path], .error e) := by
  have hresult := load_eq_iff.mpr h
  refine Prod.ext ?_ hresult
  cases hexists : tree.pathExists current path with
  | false =>
    rw [load_of_not_pathExists hexists] at hresult ⊢
    exact (if_pos (Except.error.inj hresult).symm).symm
  | true =>
    have hfound : e ≠ .notFound path := by
      rintro rfl
      exact Bool.false_ne_true ((loads_notFound_iff.mp h).symm.trans hexists)
    rw [load_of_pathExists hexists, if_neg hfound]

end Profile
end AbiFacts

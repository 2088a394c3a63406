import AbiFacts.Proofs.CommandLine.Outcomes

/-! # New profiles that are not created

As long as the kind, the name and the path are examined nothing is changed. Parents of the path that
were made for the file are left if the file cannot be written, but nothing else is
(`failing_leaves_parents_at_most`).
-/
namespace AbiFacts.CommandLine

open Files Profile

/-- The failures that are found before anything is made. -/
inductive FailsAtOnce (tree : Tree) (current : Location) (path : Path) (name kindText : String) :
    Failure → Prop where
  | unknownKind {e : NameError} (hkind : Kind.ofText kindText = .error e) :
      FailsAtOnce tree current path name kindText (.unknownKind e)
  | invalidName {e : InvalidName} (hname : checkName name = .error e) :
      FailsAtOnce tree current path name kindText (.invalidName e)
  | alreadyExists (hexists : tree.pathExists current path = true) :
      FailsAtOnce tree current path name kindText (.alreadyExists path)

inductive FailsInMaking (path : Path) : Failure → Prop where
  | creating {parent : Path} {e : SystemError} (hparent : path.parent? = some parent) :
      FailsInMaking path (.creating parent e)
  | writing {e : SystemError} : FailsInMaking path (.writing path e)

/-- There are no parents to make: the path has none, or its parent is a directory or the empty
path, which stands for the current directory. -/
def HasParents (tree : Tree) (current : Location) (path : Path) : Prop :=
  ∀ parent, path.parent? = some parent →
    parent.bytes = [] ∨ tree.isDirectory current parent = true

section
variable {before after : Tree} {current : Location} {path : Path} {name kindText : String}

theorem MakesParents.eq_of_hasParents (h : MakesParents current path before after)
    (hhas : HasParents before current path) : after = before := by
  cases h with
  | none => rfl
  | some hparent hmade =>
    rw [makeDirectories_of_isDirectory (hhas _ hparent)] at hmade
    exact (Prod.mk.inj hmade).2.symm

/-- A failure comes before anything is made, or in making the parents and the file. -/
theorem Attempt.of_failure {failure : Failure}
    (h : Attempt current path name kindText before (some failure) after) :
    FailsAtOnce before current path name kindText failure ∧ after = before ∨
      FailsInMaking path failure ∧ before.AddsParents current path after ∧
        (HasParents before current path → after = before) := by
  cases h with
  | unknownKind hkind => exact .inl ⟨.unknownKind hkind, rfl⟩
  | invalidName _ hname => exact .inl ⟨.invalidName hname, rfl⟩
  | alreadyExists _ _ hexists => exact .inl ⟨.alreadyExists hexists, rfl⟩
  | creating _ _ _ hparent hmade =>
    refine .inr ⟨.creating hparent, ?_, fun hhas => ?_⟩
    · have hadds := makeDirectories_addsParents current before hparent
      rwa [hmade] at hadds
    · rw [makeDirectories_of_isDirectory (hhas _ hparent)] at hmade
      cases hmade
  | writing _ _ _ hparents => exact .inr ⟨.writing, hparents.addsParents, hparents.eq_of_hasParents⟩

end

/-- A new profile that is not created changes nothing if the kind is unknown, the name is invalid or
the path exists. If the parents of the path cannot be made or the file cannot be written, no file or
link is added, removed or changed, and a directory is added only where nothing was and some leading
part of the path leads to it; nothing is changed if the parents were there. -/
theorem failing_leaves_parents_at_most (tree : Tree) (current : Location) (project : Path)
    (name kindText : String) (output : Option Path) (failure : Failure)
    (hfails : ((new project name kindText output : InTree Report) current tree).1.failure =
      some failure) :
    let path := output.getD (defaultPath project name)
    let after := ((new project name kindText output : InTree Report) current tree).2
    FailsAtOnce tree current path name kindText failure ∧ after = tree ∨
      FailsInMaking path failure ∧
      (∀ location node, node ≠ .directory →
        (after.lookup location = some node ↔ tree.lookup location = some node)) ∧
      (∀ location, after.lookup location = tree.lookup location ∨
        tree.lookup location = none ∧ after.lookup location = some .directory ∧
          ∃ above, path.IsBelow above ∧
            after.resolve .look current above = .ok (.present location .directory)) ∧
      (HasParents tree current path → after = tree) := by
  have hattempt := new_attempt tree current project name kindText output
  rw [hfails] at hattempt
  obtain hfirst | ⟨hlater, hadds, hhas⟩ := hattempt.of_failure
  · exact .inl hfirst
  · exact .inr ⟨hlater, fun _ _ => Tree.AddsDirectories.lookup_eq_some_iff hadds, hadds, hhas⟩

def linkedDirectory : Tree :=
  (default : Tree)
    |>.put [Name.ofString "data"] .directory
    |>.put [Name.ofString "data", Name.ofString "keep.txt"] (.file (Text.toBytes "precious"))
    |>.put [Name.ofString "link"] (.link (.ofString "data"))

/-- The parent is made where the link leads. The file that is there is kept, and so is the link. -/
theorem failing_through_a_link_keeps_files :
    let outcome := (new (.ofString "/") "x" "ios" (some (.ofString "link/made/x/")) :
      InTree Report) [] linkedDirectory
    outcome.1.failure = some (.writing (.ofString "link/made/x/") .isDirectory) ∧
    outcome.2.lookup [Name.ofString "data", Name.ofString "made"] = some .directory ∧
    outcome.2.lookup [Name.ofString "data", Name.ofString "keep.txt"] =
      some (.file (Text.toBytes "precious")) ∧
    outcome.2.lookup [Name.ofString "link"] = some (.link (.ofString "data")) := by
  intro outcome
  have hfails : outcome.1.failure = some (.writing (.ofString "link/made/x/") .isDirectory) := by
    decide +kernel
  refine ⟨hfails, by decide +kernel, ?_⟩
  obtain ⟨hfirst, -⟩ | ⟨-, hkept, -⟩ := failing_leaves_parents_at_most linkedDirectory []
    (.ofString "/") "x" "ios" (some (.ofString "link/made/x/")) _ hfails
  · cases hfirst
  · exact ⟨(hkept _ _ (by simp)).mpr (by decide +kernel),
      (hkept _ _ (by simp)).mpr (by decide +kernel)⟩

/-- A name that is one byte too long. -/
def longName : String := String.ofList (List.replicate (maxName + 1) 'a')

/-- A new directory is left behind where the file cannot be written, and also where only some of the
parents can be made. -/
theorem failing_leaves_new_directories :
    (let outcome :=
      (new (.ofString "/") "x" "ios" (some (.ofString "made/x/")) : InTree Report) [] default
    outcome.1.failure = some (.writing (.ofString "made/x/") .isDirectory) ∧
    (default : Tree).lookup [Name.ofString "made"] = none ∧
    outcome.2.lookup [Name.ofString "made"] = some .directory) ∧
    (let outcome := (new (.ofString "/") "x" "ios"
      (some (.ofString ("also/" ++ longName ++ "/x"))) : InTree Report) [] default
    outcome.1.failure = some (.creating (.ofString ("also/" ++ longName)) .nameTooLong) ∧
    (default : Tree).lookup [Name.ofString "also"] = none ∧
    outcome.2.lookup [Name.ofString "also"] = some .directory) := by
  decide +kernel

end AbiFacts.CommandLine

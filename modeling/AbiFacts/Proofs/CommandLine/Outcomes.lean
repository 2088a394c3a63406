import AbiFacts.CommandLine.Run
import AbiFacts.Proofs.Files.Parents
import AbiFacts.Proofs.Profile.Templates

/-! # Outcomes of asking for a new profile

The kind is read, the name is checked, the path is looked up, the parents of the path are made and
the file is written. Each of these steps can fail, and then the ones after it are not taken
(`new_attempt`).
-/
namespace AbiFacts.CommandLine

open Files Profile

/-- The parents of a path, if it has any, are made as far as they are missing. -/
inductive MakesParents (current : Location) (path : Path) (before : Tree) : Tree → Prop where
  | none (hparent : path.parent? = none) : MakesParents current path before before
  | some {parent : Path} {after : Tree} (hparent : path.parent? = some parent)
      (hmade : (makeDirectories parent : InTree _) current before = (.ok (), after)) :
      MakesParents current path before after

theorem MakesParents.addsParents {current : Location} {path : Path} {before after : Tree}
    (h : MakesParents current path before after) : before.AddsParents current path after := by
  cases h with
  | none => exact .refl before
  | some hparent hmade =>
    have hadds := makeDirectories_addsParents current before hparent
    rwa [hmade] at hadds

/-- A new profile is asked for: why it is not created, if it is not, and the tree that is left. -/
inductive Attempt (current : Location) (path : Path) (name kindText : String) (before : Tree) :
    Option Failure → Tree → Prop where
  | unknownKind {e : NameError} (hkind : Kind.ofText kindText = .error e) :
      Attempt current path name kindText before (some (.unknownKind e)) before
  | invalidName {kind : Kind} {e : InvalidName} (hkind : Kind.ofText kindText = .ok kind)
      (hname : checkName name = .error e) :
      Attempt current path name kindText before (some (.invalidName e)) before
  | alreadyExists {kind : Kind} {text : String} (hkind : Kind.ofText kindText = .ok kind)
      (htext : Profile.template name kind = .ok text)
      (hexists : before.pathExists current path = true) :
      Attempt current path name kindText before (some (.alreadyExists path)) before
  | creating {kind : Kind} {text : String} {parent : Path} {e : SystemError} {after : Tree}
      (hkind : Kind.ofText kindText = .ok kind) (htext : Profile.template name kind = .ok text)
      (hmissing : before.pathExists current path = false) (hparent : path.parent? = some parent)
      (hmade : (makeDirectories parent : InTree _) current before = (.error e, after)) :
      Attempt current path name kindText before (some (.creating parent e)) after
  | writing {kind : Kind} {text : String} {e : SystemError} {after : Tree}
      (hkind : Kind.ofText kindText = .ok kind) (htext : Profile.template name kind = .ok text)
      (hmissing : before.pathExists current path = false)
      (hparents : MakesParents current path before after)
      (hwrite : after.write current path (Text.toBytes text) = (.error e, after)) :
      Attempt current path name kindText before (some (.writing path e)) after
  | created {kind : Kind} {text : String} {between after : Tree}
      (hkind : Kind.ofText kindText = .ok kind) (htext : Profile.template name kind = .ok text)
      (hmissing : before.pathExists current path = false)
      (hparents : MakesParents current path before between)
      (hwrite : between.write current path (Text.toBytes text) = (.ok (), after)) :
      Attempt current path name kindText before none after

section
variable {tree between : Tree} {current : Location} {path : Path} {kind : Kind}
variable {name kindText text : String}

theorem write_attempt (hkind : Kind.ofText kindText = .ok kind)
    (htext : Profile.template name kind = .ok text)
    (hmissing : tree.pathExists current path = false)
    (hparents : MakesParents current path tree between) :
    Attempt current path name kindText tree
      ((create.write path kind text : InTree _) current between).1.failure
      ((create.write path kind text : InTree _) current between).2 := by
  rw [create.write, InTree.bind_apply, InTree.write_apply]
  cases hwrite : between.write current path (Text.toBytes text) with
  | mk written after =>
    cases written with
    | error e =>
      have hsame := Tree.write_eq_error hwrite
      subst hsame
      exact .writing hkind htext hmissing hparents hwrite
    | ok => exact .created hkind htext hmissing hparents hwrite

theorem create_attempt (hkind : Kind.ofText kindText = .ok kind)
    (htext : Profile.template name kind = .ok text) :
    Attempt current path name kindText tree
      ((create path kind text : InTree _) current tree).1.failure
      ((create path kind text : InTree _) current tree).2 := by
  rw [create, InTree.bind_apply, InTree.pathExists_apply]
  cases hfound : tree.pathExists current path with
  | true => exact .alreadyExists hkind htext hfound
  | false =>
    simp only [Bool.false_eq_true, if_false]
    cases hparent : path.parent? with
    | none => exact write_attempt hkind htext hfound (.none hparent)
    | some parent =>
      dsimp only
      rw [InTree.bind_apply]
      cases hmade : (makeDirectories parent : InTree _) current tree with
      | mk made between =>
        cases made with
        | error => exact .creating hkind htext hfound hparent hmade
        | ok => exact write_attempt hkind htext hfound (.some hparent hmade)

/-- What is asked for is attempted, at the path given or else in the directory of the project. -/
theorem new_attempt (tree : Tree) (current : Location) (project : Path) (name kindText : String)
    (output : Option Path) :
    Attempt current (output.getD (defaultPath project name)) name kindText tree
      ((new project name kindText output : InTree _) current tree).1.failure
      ((new project name kindText output : InTree _) current tree).2 := by
  rw [new]
  cases hkind : Kind.ofText kindText with
  | error => exact .unknownKind hkind
  | ok kind =>
    dsimp only
    cases htext : Profile.template name kind with
    | error => exact .invalidName hkind (template_eq_error.mp htext)
    | ok text => exact create_attempt hkind htext

end
end AbiFacts.CommandLine

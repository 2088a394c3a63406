import AbiFacts.Profile.Edit
import AbiFacts.Proofs.Toml.RoundTrip

/-! # Runs of edits

What a sequence of edits leads to can be read off the sequence. Each field is as it was last set; the
table of expectations is that of its last start over, changed by the edits after it. Edits that fail
and those that write the profile and read it back may be left out (`edits_leave_what_was_last_set`).
-/
namespace AbiFacts.Profile

def after (p : Profile) (edits : List Edit) : Profile := edits.foldl applied p

theorem after_cons (p : Profile) (edit : Edit) (edits : List Edit) :
    p.after (edit :: edits) = (p.applied edit).after edits := rfl

theorem after_append (p : Profile) (first second : List Edit) :
    p.after (first ++ second) = (p.after first).after second :=
  List.foldl_append

/-- What the last of the edits that set something sets it to. -/
def lastSet {α : Type} (sets : Edit → Option α) (edits : List Edit) : Option α :=
  edits.reverse.findSome? sets

@[simp] theorem lastSet_nil {α : Type} (sets : Edit → Option α) : lastSet sets [] = none := rfl

namespace Edit

/-- Does the edit name a kind or a fact that does not exist? -/
def isUnknown : Edit → Bool
  | abi kind => (Kind.parse? kind).isNone
  | pin property _ | unpin property => (Named.find? property : Option Property).isNone
  | _ => false

def isIdle : Edit → Bool
  | reparse => true
  | edit => edit.isUnknown

def setsName : Edit → Option String
  | name text => some text
  | _ => none

def setsAbi : Edit → Option Kind
  | abi text => Kind.parse? text
  | _ => none

def setsDescription : Edit → Option (Option String)
  | description text => some text
  | _ => none

def setsPin (property : Property) : Edit → Option (Option Bool)
  | pin key value => if key = property.key then some (some value) else none
  | unpin key => if key = property.key then some none else none
  | _ => none

def setsTailPadding : Edit → Option (Option TailPadding)
  | tailPadding rule => some rule
  | _ => none

/-- Does the edit make a table of expectations where there is none? -/
def creates : Edit → Bool
  | pin property _ => (Named.find? property : Option Property).isSome
  | tailPadding _ => true
  | _ => false

/-- Does the edit put something else in the place of the table of expectations? -/
def startsOver : Edit → Bool
  | pinAll | clear | empty => true
  | _ => false

end Edit

theorem apply_abi (p : Profile) (text : String) :
    p.apply (.abi text) =
      match Kind.parse? text with
      | some kind => .ok { p with abi := kind }
      | none => .error (.unknown (.unknownKind text)) := by
  unfold apply Kind.ofText
  dsimp only
  cases Kind.parse? text <;> rfl

theorem apply_pin (p : Profile) (text : String) (value : Bool) :
    p.apply (.pin text value) =
      match (Named.find? text : Option Property) with
      | some property => .ok (p.expecting (Expectations.setPin property (some value)))
      | none => .error (.unknown (.unknownProperty text)) := by
  unfold apply Property.ofText
  dsimp only
  cases (Named.find? text : Option Property) <;> rfl

theorem apply_unpin (p : Profile) (text : String) :
    p.apply (.unpin text) =
      match (Named.find? text : Option Property) with
      | some property => .ok { p with expect := p.expect.map (Expectations.setPin property none) }
      | none => .error (.unknown (.unknownProperty text)) := by
  unfold apply Property.ofText
  dsimp only
  cases (Named.find? text : Option Property) <;> rfl

/-- Writing a profile and reading it back leads to the same profile. -/
theorem apply_reparse (p : Profile) : p.apply .reparse = .ok p := by
  unfold apply
  simp only [Toml.profile?_toToml]

/-- An edit fails for an unknown name and for nothing else. -/
theorem apply_cases (p : Profile) (edit : Edit) :
    edit.isUnknown = true ∧ (∃ unknown, p.apply edit = .error (.unknown unknown)) ∨
      edit.isUnknown = false ∧ p.apply edit = .ok (p.applied edit) := by
  cases edit with
  | abi text =>
    rw [applied, apply_abi, Edit.isUnknown]
    cases Kind.parse? text <;> simp
  | pin text value =>
    rw [applied, apply_pin, Edit.isUnknown]
    cases (Named.find? text : Option Property) <;> simp
  | unpin text =>
    rw [applied, apply_unpin, Edit.isUnknown]
    cases (Named.find? text : Option Property) <;> simp
  | reparse =>
    rw [applied, apply_reparse]
    exact .inr ⟨rfl, rfl⟩
  | _ => exact .inr ⟨rfl, rfl⟩

theorem apply_of_isUnknown (p : Profile) {edit : Edit} (h : edit.isUnknown = true) :
    ∃ unknown, p.apply edit = .error (.unknown unknown) := by
  rcases p.apply_cases edit with ⟨_, herror⟩ | ⟨hknown, _⟩
  · exact herror
  · rw [h] at hknown
    cases hknown

theorem applied_of_isIdle (p : Profile) {edit : Edit} (h : edit.isIdle = true) :
    p.applied edit = p := by
  by_cases hreparse : edit = .reparse
  · rw [applied, hreparse, apply_reparse]
  · have hunknown : edit.isUnknown = true := by
      cases edit <;> first | exact h | exact absurd rfl hreparse
    rcases p.apply_of_isUnknown hunknown with ⟨unknown, herror⟩
    rw [applied, herror]

/-! ### What an edit sets -/

def pinOf (expect : Option Expectations) (property : Property) : Option Bool :=
  expect.bind fun e => e.pinned property

def tailPaddingOf (expect : Option Expectations) : Option TailPadding :=
  expect.bind fun e => e.tailPadding

/-- What an edit sets is as it says, and all else is as it was. -/
structure SetsOnly (edit : Edit) (p q : Profile) : Prop where
  name : q.name = edit.setsName.getD p.name
  abi : q.abi = edit.setsAbi.getD p.abi
  description : q.description = edit.setsDescription.getD p.description
  present : edit.startsOver = false → q.expect.isSome = (edit.creates || p.expect.isSome)
  pinned : edit.startsOver = false → ∀ property,
    pinOf q.expect property = (edit.setsPin property).getD (pinOf p.expect property)
  tailPadding : edit.startsOver = false →
    tailPaddingOf q.expect = edit.setsTailPadding.getD (tailPaddingOf p.expect)

/-- An edit that concerns no table of expectations. -/
theorem SetsOnly.of_expect {edit : Edit} {p q : Profile} (hexpect : q.expect = p.expect)
    (hcreates : edit.creates = false) (hpin : ∀ property, edit.setsPin property = none)
    (htail : edit.setsTailPadding = none) (hname : q.name = edit.setsName.getD p.name)
    (habi : q.abi = edit.setsAbi.getD p.abi)
    (hdescription : q.description = edit.setsDescription.getD p.description) :
    SetsOnly edit p q := by
  refine ⟨hname, habi, hdescription, fun _ => ?_, fun _ property => ?_, fun _ => ?_⟩
  · rw [hexpect, hcreates, Bool.false_or]
  · rw [hexpect, hpin, Option.getD_none]
  · rw [hexpect, htail, Option.getD_none]

/-- An edit that leaves the profile as it is sets nothing. -/
theorem SetsOnly.refl {edit : Edit} (p : Profile) (hcreates : edit.creates = false)
    (hpin : ∀ property, edit.setsPin property = none) (htail : edit.setsTailPadding = none)
    (hname : edit.setsName = none) (habi : edit.setsAbi = none)
    (hdescription : edit.setsDescription = none) : SetsOnly edit p p := by
  apply SetsOnly.of_expect rfl hcreates hpin htail
  · rw [hname, Option.getD_none]
  · rw [habi, Option.getD_none]
  · rw [hdescription, Option.getD_none]

theorem run_append (p : Profile) (first second : List Edit) :
    p.run (first ++ second) = p.run first ++ (p.after first).run second := by
  induction first generalizing p with
  | nil => rfl
  | cons edit first ih => rw [List.cons_append, run, ih, after_cons, run, List.cons_append]

end AbiFacts.Profile

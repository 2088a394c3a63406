import AbiFacts.Profile.Edit
import AbiFacts.Proofs.Profile.Mismatches
import Mathlib.Data.List.Nodup

/-! # Drift

A profile whose pins agree with its kind drifts when another kind is selected: its mismatches are
then the pinned facts on which the two kinds differ. Putting the facts in the place of the pins that
disagree with them leaves no mismatch, and a pin that agrees makes none
(`mismatches_are_the_drift`).
-/
namespace AbiFacts

/-! ## What can be pinned -/

/-- A boolean fact or the rule for tail padding. -/
inductive Pinnable where
  | property (property : Property)
  | tailPadding
  deriving DecidableEq

namespace Pinnable

def list : List Pinnable := Property.list.map .property ++ [.tailPadding]

def key : Pinnable → String
  | property p => p.key
  | tailPadding => "tail-padding"

def fact (abi : Descriptor) : Pinnable → String
  | property p => toString (p.eval abi)
  | tailPadding => abi.tailPadding.name

theorem mem_list (x : Pinnable) : x ∈ list := by
  cases x with
  | property p => exact List.mem_append_left _ (List.mem_map_of_mem (Named.mem_all p))
  | tailPadding => exact List.mem_append_right _ (.head _)

theorem nodup_keys : (list.map key).Nodup := by decide

theorem key_injective {x y : Pinnable} (h : x.key = y.key) : x = y :=
  List.inj_on_of_nodup_map nodup_keys x.mem_list y.mem_list h

end Pinnable

theorem toString_injective {a b : Bool} (h : toString a = toString b) : a = b := by
  revert h
  cases a <;> cases b <;> decide

theorem TailPadding.name_injective {a b : TailPadding} (h : a.name = b.name) : a = b :=
  Named.name_injective a b h

inductive Pin where
  | property (property : Property) (value : Bool)
  | tailPadding (rule : TailPadding)

namespace Pin

def about : Pin → Pinnable
  | property p _ => .property p
  | tailPadding _ => .tailPadding

def text : Pin → String
  | property _ value => toString value
  | tailPadding rule => rule.name

end Pin

namespace Expectations

def pin? (e : Expectations) : Pinnable → Option String
  | .property p => (e.pinned p).map toString
  | .tailPadding => e.tailPadding.map TailPadding.name

def withPin (e : Expectations) : Pin → Expectations
  | .property p value => e.setPin p (some value)
  | .tailPadding rule => { e with tailPadding := some rule }

theorem pin?_withPin (e : Expectations) (pin : Pin) (x : Pinnable) :
    (e.withPin pin).pin? x = if x = pin.about then some pin.text else e.pin? x := by
  cases pin with
  | property p value =>
    cases x with
    | tailPadding => rfl
    | property q =>
      by_cases hq : q = p
      · simp [hq, withPin, pin?, Pin.about, Pin.text]
      · simp [hq, withPin, pin?, Pin.about, setPin_of_ne hq]
  | tailPadding rule => cases x <;> rfl

end Expectations

namespace Mismatch

def about : Mismatch → Pinnable
  | property p _ _ => .property p
  | tailPadding _ _ => .tailPadding

def repair : Mismatch → Pin
  | property p _ actual => .property p actual
  | tailPadding _ actual => .tailPadding actual

/-- A mismatch as it is reported: the key, the pinned value and the fact. -/
def report (m : Mismatch) : String × String × String := (m.key, m.expected, m.actual)

theorem key_about (m : Mismatch) : m.about.key = m.key := by cases m <;> rfl

theorem about_repair (m : Mismatch) : m.repair.about = m.about := by cases m <;> rfl

theorem text_repair (m : Mismatch) : m.repair.text = m.actual := by cases m <;> rfl

theorem report_injective : Function.Injective report := by
  intro a b h
  simp only [report, Prod.mk.injEq] at h
  rcases h with ⟨hkey, hexpected, hactual⟩
  have habout := Pinnable.key_injective (by rw [a.key_about, b.key_about, hkey] :
    a.about.key = b.about.key)
  cases a with
  | property p expected actual =>
    cases b with
    | tailPadding => cases habout
    | property q =>
      cases habout
      rw [toString_injective hexpected, toString_injective hactual]
  | tailPadding expected actual =>
    cases b with
    | property => cases habout
    | tailPadding =>
      rw [TailPadding.name_injective hexpected, TailPadding.name_injective hactual]

end Mismatch

namespace Profile

def pin? (p : Profile) (x : Pinnable) : Option String := p.expect.bind fun e => e.pin? x

/-! ## The report of a profile -/

def disagreement (p : Profile) (x : Pinnable) : Option (String × String × String) :=
  (p.pin? x).bind fun expected =>
    if x.fact p.descriptor = expected then none else some (x.key, expected, x.fact p.descriptor)

theorem disagreement_eq_some {p : Profile} {x : Pinnable} {line : String × String × String} :
    p.disagreement x = some line ↔ ∃ expected, p.pin? x = some expected ∧
      x.fact p.descriptor ≠ expected ∧ (x.key, expected, x.fact p.descriptor) = line := by
  simp [disagreement, Option.bind_eq_some_iff]

/-- The report goes through all that can be pinned. -/
theorem report_mismatches (p : Profile) :
    p.mismatches.map Mismatch.report = Pinnable.list.filterMap p.disagreement := by
  cases hexpect : p.expect with
  | none =>
    have hnone : ∀ x, p.disagreement x = none := by simp [disagreement, pin?, hexpect]
    rw [mismatches, hexpect, funext hnone]
    simp
  | some e =>
    rw [mismatches_of_expect hexpect, Expectations.entries, Pinnable.list, List.map_append,
      List.filterMap_append, List.filterMap_filterMap, List.map_filterMap, List.filterMap_map]
    -- Facts and tail padding stand apart in both lists.
    congr 1
    · apply List.filterMap_congr
      intro q _
      cases hpin : e.pinned q with
      | none => simp [disagreement, pin?, hexpect, Expectations.pin?, hpin]
      | some truth =>
        have htext : toString (q.eval p.descriptor) = toString truth ↔
            q.eval p.descriptor = truth := ⟨toString_injective, congrArg _⟩
        by_cases heq : q.eval p.descriptor = truth <;>
          simp [disagreement, pin?, hexpect, Expectations.pin?, hpin, Pinnable.fact, htext, heq,
            Mismatch.report, Mismatch.key, Mismatch.expected, Mismatch.actual, Pinnable.key]
    · cases hrule : e.tailPadding with
      | none => simp [disagreement, pin?, hexpect, Expectations.pin?, hrule]
      | some rule =>
        have htext : p.descriptor.tailPadding.name = rule.name ↔
            p.descriptor.tailPadding = rule := ⟨TailPadding.name_injective, congrArg _⟩
        by_cases heq : p.descriptor.tailPadding = rule <;>
          simp [disagreement, pin?, hexpect, Expectations.pin?, hrule, Pinnable.fact, htext, heq,
            Mismatch.report, Mismatch.key, Mismatch.expected, Mismatch.actual, Pinnable.key]

/-- Profiles that disagree with their kinds in the same way have the same mismatches. -/
theorem mismatches_congr {p q : Profile} (h : ∀ x, p.disagreement x = q.disagreement x) :
    p.mismatches = q.mismatches := by
  apply List.map_injective_iff.mpr Mismatch.report_injective
  rw [report_mismatches, report_mismatches, funext h]

theorem mismatches_eq_nil_of_disagreement {p : Profile} (h : ∀ x, p.disagreement x = none) :
    p.mismatches = [] := by
  apply List.map_eq_nil_iff.mp
  rw [report_mismatches, funext h, List.filterMap_none]

theorem mem_report {p : Profile} {key expected actual : String} :
    (key, expected, actual) ∈ p.mismatches.map Mismatch.report ↔
      ∃ x : Pinnable, key = x.key ∧ p.pin? x = some expected ∧ actual = x.fact p.descriptor ∧
        actual ≠ expected := by
  rw [report_mismatches, List.mem_filterMap]
  constructor
  · rintro ⟨x, _, hx⟩
    rcases disagreement_eq_some.mp hx with ⟨_, hpin, hne, hline⟩
    cases hline
    exact ⟨x, rfl, hpin, rfl, hne⟩
  · rintro ⟨x, rfl, hpin, rfl, hne⟩
    exact ⟨x, x.mem_list, disagreement_eq_some.mpr ⟨expected, hpin, hne, rfl⟩⟩

/-- The mismatches come in the order of what can be pinned. -/
theorem keys_sublist (p : Profile) :
    (p.mismatches.map Mismatch.key).Sublist (Pinnable.list.map Pinnable.key) := by
  have hkeys : p.mismatches.map Mismatch.key =
      (Pinnable.list.filter fun x => (p.disagreement x).isSome).map Pinnable.key := by
    have hreport := congrArg (List.map Prod.fst) p.report_mismatches
    rw [List.map_map, List.map_filterMap] at hreport
    rw [← List.filterMap_eq_map (f := Pinnable.key), List.filterMap_filter]
    apply hreport.trans
    apply List.filterMap_congr
    intro x _
    cases hx : p.disagreement x with
    | none => rfl
    | some line =>
      rcases disagreement_eq_some.mp hx with ⟨_, _, _, rfl⟩
      rfl
  rw [hkeys]
  exact List.filter_sublist.map _

/-! ## Another kind -/

def AgreesAt (p : Profile) (x : Pinnable) : Prop :=
  ∀ text, p.pin? x = some text → text = x.fact p.descriptor

theorem disagreement_eq_none {p : Profile} {x : Pinnable} :
    p.disagreement x = none ↔ p.AgreesAt x := by
  simp only [disagreement, AgreesAt, Option.bind_eq_none_iff, ite_eq_left_iff, reduceCtorEq,
    imp_false, Decidable.not_not]
  exact forall₂_congr fun _ _ => eq_comm

theorem agreesAt_of_mismatches_eq_nil {p : Profile} (h : p.mismatches = []) (x : Pinnable) :
    p.AgreesAt x := by
  have hreport := p.report_mismatches
  rw [h, List.map_nil, eq_comm, List.filterMap_eq_nil_iff] at hreport
  exact disagreement_eq_none.mp (hreport x x.mem_list)

/-- With another kind, the pinned facts disagree on which the kinds differ. -/
theorem disagreement_drift {p : Profile} (h : p.mismatches = []) (kind : Kind) (x : Pinnable) :
    { p with abi := kind }.disagreement x =
      if (p.pin? x).isSome ∧ x.fact ⟨kind⟩ ≠ x.fact p.descriptor then
        some (x.key, x.fact p.descriptor, x.fact ⟨kind⟩) else none := by
  have hagrees := agreesAt_of_mismatches_eq_nil h x
  have hsame : { p with abi := kind }.pin? x = p.pin? x := rfl
  rw [disagreement, hsame]
  cases hpin : p.pin? x with
  | none => rfl
  | some text =>
    rw [hagrees text hpin]
    simp only [Option.bind_some, Option.isSome_some, true_and, ite_not]
    rfl

/-! ## Repair -/

/-- Every mismatch repaired: the fact in the place of the pin. -/
def repaired (p : Profile) : Profile :=
  { p with expect := p.expect.map fun e => (p.mismatches.map Mismatch.repair).foldl .withPin e }

/-- A run of pins that agree with the ABI leaves its facts where it pins. -/
theorem pin?_foldl_withPin {abi : Descriptor} (x : Pinnable) :
    ∀ (pins : List Pin) (e : Expectations), (∀ pin ∈ pins, pin.text = pin.about.fact abi) →
      (pins.foldl .withPin e).pin? x =
        if x ∈ pins.map Pin.about then some (x.fact abi) else e.pin? x := by
  intro pins
  induction pins with
  | nil => simp
  | cons pin pins ih =>
    intro e hpins
    rw [List.foldl_cons, ih _ fun other h => hpins other (.tail _ h), e.pin?_withPin,
      hpins pin (.head _)]
    -- A later pin of the same fact sets the same value, since both agree with the ABI.
    by_cases hrest : x ∈ pins.map Pin.about
    · simp [hrest]
    · by_cases hx : x = pin.about <;> simp [hrest, hx]

theorem text_repair_of_mem {p : Profile} {pin : Pin} (h : pin ∈ p.mismatches.map Mismatch.repair) :
    pin.text = pin.about.fact p.descriptor := by
  rcases List.mem_map.mp h with ⟨m, hm, rfl⟩
  rw [m.about_repair, m.text_repair]
  cases mem_mismatches.mp hm <;> rfl

theorem about_repair_map (p : Profile) :
    (p.mismatches.map Mismatch.repair).map Pin.about = p.mismatches.map Mismatch.about := by
  simp [Mismatch.about_repair]

theorem pin?_about_of_mem {p : Profile} {m : Mismatch} (h : m ∈ p.mismatches) :
    p.pin? m.about = some m.expected := by
  rcases mem_report.mp (List.mem_map_of_mem (f := Mismatch.report) h) with ⟨x, hkey, hpin, _, _⟩
  rw [Pinnable.key_injective (m.key_about.trans hkey), hpin]

/-- What no mismatch is about agrees with its pin. -/
theorem agreesAt_of_not_mem {p : Profile} {x : Pinnable}
    (h : x ∉ p.mismatches.map Mismatch.about) : p.AgreesAt x := by
  apply disagreement_eq_none.mp
  cases hx : p.disagreement x with
  | none => rfl
  | some line =>
    have hline : line ∈ p.mismatches.map Mismatch.report := by
      rw [report_mismatches, List.mem_filterMap]
      exact ⟨x, x.mem_list, hx⟩
    rcases List.mem_map.mp hline with ⟨m, hm, hreport⟩
    rcases disagreement_eq_some.mp hx with ⟨_, _, _, rfl⟩
    have habout : m.about = x :=
      Pinnable.key_injective (m.key_about.trans (congrArg Prod.fst hreport))
    exact absurd (List.mem_map.mpr ⟨m, hm, habout⟩) h

/-- Repairing leaves the fact in every pin. -/
theorem pin?_repaired (p : Profile) (x : Pinnable) :
    p.repaired.pin? x = (p.pin? x).map fun _ => x.fact p.descriptor := by
  cases hexpect : p.expect with
  | none => simp [pin?, repaired, hexpect]
  | some e =>
    have hpin : p.pin? x = e.pin? x := by rw [pin?, hexpect, Option.bind_some]
    rw [pin?, repaired, hexpect, Option.map_some, Option.bind_some,
      pin?_foldl_withPin x _ _ fun _ => text_repair_of_mem, about_repair_map, hpin]
    by_cases hx : x ∈ p.mismatches.map Mismatch.about
    · rcases List.mem_map.mp hx with ⟨m, hm, rfl⟩
      rw [if_pos hx, ← hpin, pin?_about_of_mem hm, Option.map_some]
    · have hagrees := agreesAt_of_not_mem hx
      rw [if_neg hx]
      cases htext : e.pin? x with
      | none => rfl
      | some text => rw [hagrees text (hpin.trans htext), Option.map_some]

theorem mismatches_repaired (p : Profile) : p.repaired.mismatches = [] := by
  apply mismatches_eq_nil_of_disagreement
  intro x
  apply disagreement_eq_none.mpr
  intro text htext
  rw [pin?_repaired, Option.map_eq_some_iff] at htext
  rcases htext with ⟨_, _, rfl⟩
  rfl

/-! ## Pins that agree -/

/-- A pin that agrees makes no mismatch in the place of none, or of another that agrees. -/
theorem mismatches_withPin {p : Profile} {pin : Pin}
    (hfact : pin.text = pin.about.fact p.descriptor) (hagrees : p.AgreesAt pin.about) :
    (p.expecting fun e => e.withPin pin).mismatches = p.mismatches := by
  have hempty : ∀ x, (({} : Expectations).pin? x) = none := by
    intro x
    cases x <;> rfl
  apply mismatches_congr
  intro x
  have hpinned : (p.expecting fun e => e.withPin pin).pin? x =
      if x = pin.about then some pin.text else p.pin? x := by
    rw [pin?, expecting, Option.bind_some, Expectations.pin?_withPin]
    cases hexpect : p.expect with
    | none => simp [pin?, hexpect, hempty]
    | some e => simp [pin?, hexpect]
  by_cases hx : x = pin.about
  · rw [hx, disagreement_eq_none.mpr hagrees]
    apply disagreement_eq_none.mpr
    intro text htext
    rw [← hx, hpinned, if_pos hx] at htext
    exact (Option.some.inj htext).symm.trans hfact
  · rw [disagreement, hpinned, if_neg hx]
    rfl

/-! ## The whole -/

/-- The mismatches of a profile are the pins that differ from the facts of its kind, in order and
each once. Pins that agree with one kind disagree with another where the facts of the two differ;
repairing leaves no mismatch and the same keys pinned; and a pin that agrees changes nothing. -/
theorem mismatches_are_the_drift (p : Profile) :
    (p.expect = none → p.mismatches = []) ∧
    (∀ key expected actual, (key, expected, actual) ∈ p.mismatches.map Mismatch.report ↔
      ∃ x : Pinnable, key = x.key ∧ p.pin? x = some expected ∧ actual = x.fact p.descriptor ∧
        actual ≠ expected) ∧
    (p.mismatches.map Mismatch.key).Sublist (Property.list.map Property.key ++ ["tail-padding"]) ∧
    (p.mismatches.map Mismatch.key).Nodup ∧
    (p.mismatches = [] → ∀ kind, { p with abi := kind }.mismatches.map Mismatch.report =
      (Pinnable.list.filter fun x =>
          (p.pin? x).isSome ∧ x.fact ⟨kind⟩ ≠ x.fact ⟨p.abi⟩).map fun x =>
        (x.key, x.fact ⟨p.abi⟩, x.fact ⟨kind⟩)) ∧
    p.repaired.mismatches = [] ∧
    (∀ x, p.repaired.pin? x = (p.pin? x).map fun _ => x.fact p.descriptor) ∧
    (∀ pin : Pin, pin.text = pin.about.fact p.descriptor →
      (p.pin? pin.about = none ∨ p.pin? pin.about = some pin.text) →
      (p.expecting fun e => e.withPin pin).mismatches = p.mismatches) := by
  have hkeys := p.keys_sublist
  refine ⟨?_, fun _ _ _ => mem_report, ?_, hkeys.nodup Pinnable.nodup_keys, ?_,
    p.mismatches_repaired, p.pin?_repaired, ?_⟩
  · intro hexpect
    rw [mismatches, hexpect]
  · rwa [Pinnable.list, List.map_append, List.map_map] at hkeys
  · intro hnone kind
    rw [report_mismatches, ← List.filterMap_eq_map, List.filterMap_filter]
    apply List.filterMap_congr
    intro x _
    simp only [disagreement_drift hnone, decide_eq_true_eq]
    rfl
  · intro pin hfact hpin
    apply mismatches_withPin hfact
    intro text htext
    rcases hpin with hpin | hpin
    · cases hpin.symm.trans htext
    · exact (Option.some.inj (htext.symm.trans hpin)).trans hfact

/-- iOS with three facts pinned, to be moved to Microsoft: two of them differ there. -/
def pinnedOniOS : Profile where
  name := "app"
  abi := .ios
  expect := some ((({} : Expectations).setPin .itaniumFamily (some true)).setPin
    .memberFunctionsAligned (some true) |>.withPin (.tailPadding .unlessPod03))

theorem moved_to_microsoft_has_two_mismatches :
    { pinnedOniOS with abi := .microsoft }.mismatches.map Mismatch.report =
        [("itanium-family", "true", "false"),
          ("tail-padding", "use-tail-padding-unless-pod03", "always-use-tail-padding")] ∧
      (pinnedOniOS.expecting fun e => e.withPin (.property .microsoft false)).mismatches = [] := by
  rcases mismatches_are_the_drift pinnedOniOS with ⟨_, _, _, _, hdrift, _, _, hadded⟩
  have hnone : pinnedOniOS.mismatches = [] := by decide
  constructor
  · rw [hdrift hnone]
    decide
  · rw [hadded (.property .microsoft false) (by decide) (.inl (by decide)), hnone]

end Profile
end AbiFacts

import AbiFacts.Profile.Files
import AbiFacts.Proofs.Toml.RoundTrip

/-! # Texts of new profiles

There is a text for each name that a profile can have and each kind. Read from a file, it is the
profile that describes the kind, in which validation finds nothing wrong.
-/
namespace AbiFacts.Profile

/-- Pins of all facts of a kind agree with the kind. -/
theorem mismatches_describing (name : String) (kind : Kind) :
    (describing name kind).mismatches = [] := by
  have hpin : ∀ pin ∈ (Expectations.pinAll ⟨kind⟩).entries, pin.1.eval ⟨kind⟩ = pin.2 :=
    fun _ hpin => Option.some.inj
      ((Expectations.pinned_pinAll _ _).symm.trans (Expectations.mem_entries.mp hpin))
  refine List.append_eq_nil_iff.mpr ⟨?_, ?_⟩
  · exact List.filterMap_eq_nil_iff.mpr fun pin hmem => if_pos (hpin pin hmem)
  · simp [Expectations.pinAll, Descriptor.snapshot, descriptor, describing]

theorem isEmpty_pinAll (abi : Descriptor) : (Expectations.pinAll abi).isEmpty = false := by
  rw [Expectations.isEmpty, Expectations.pinAll]
  exact Bool.and_false _

theorem issues_describing {name : String} (h : nameProblem? name = none) (kind : Kind) :
    (describing name kind).issues = [] := by
  have hempty : (describing name kind).expect.any Expectations.isEmpty = false :=
    isEmpty_pinAll ⟨kind⟩
  rw [issues, mismatches_describing, hempty, describing, h]
  rfl

theorem template_eq_ok {name text : String} {kind : Kind} :
    template name kind = .ok text ↔
      nameProblem? name = none ∧ text = (describing name kind).toToml := by
  rw [template, checkName]
  cases hname : nameProblem? name with
  | none => simp [Bind.bind, Except.bind, Pure.pure, Except.pure, eq_comm]
  | some problem => simp [Bind.bind, Except.bind]

/-- A written profile is read back from the bytes of a file. -/
theorem ofBytes_toToml (profile : Profile) :
    ofBytes (Text.toBytes profile.toToml) = .ok profile := by
  rw [ofBytes, Text.ofBytes?_toBytes]
  dsimp only
  rw [Toml.profile?_toToml]

/-- A template fails for a name as the check of this name does. -/
theorem template_eq_error {name : String} {kind : Kind} {invalid : InvalidName} :
    template name kind = .error invalid ↔ checkName name = .error invalid := by
  rw [template, checkName]
  cases hname : nameProblem? name with
  | none => simp [Bind.bind, Except.bind, Pure.pure, Except.pure]
  | some problem => simp [Bind.bind, Except.bind]

theorem checkName_eq_ok {name : String} : checkName name = .ok () ↔ nameProblem? name = none := by
  rw [checkName]
  cases nameProblem? name <;> simp

/-- A profile that pins all facts of a kind under this name, and nothing more. -/
structure PinsAllOf (p : Profile) (name : String) (kind : Kind) : Prop where
  name : p.name = name
  abi : p.abi = kind
  description : p.description = some kind.summary
  pinned : ∃ e, p.expect = some e ∧ e.tailPadding = some (Descriptor.tailPadding ⟨kind⟩) ∧
    ∀ property, e.pinned property = some (property.eval ⟨kind⟩)

theorem pinsAllOf_describing (name : String) (kind : Kind) :
    (describing name kind).PinsAllOf name kind :=
  ⟨rfl, rfl, rfl, _, rfl, rfl, Expectations.pinned_pinAll _⟩

/-- There is a template for just the names that pass the check. Each template reads back as the
profile that pins all facts of its kind, which is valid and is written as the template again. -/
theorem templates_read_back_and_validate (name : String) (kind : Kind) :
    ((∃ text, template name kind = .ok text) ↔ checkName name = .ok ()) ∧
    (∀ invalid, template name kind = .error invalid ↔ checkName name = .error invalid) ∧
    ∀ text, template name kind = .ok text →
      ∃ p, Toml.profile? text = .ok p ∧ p.PinsAllOf name kind ∧ p.expect = some (.pinAll ⟨kind⟩) ∧
        p.mismatches = [] ∧ p.issues = [] ∧ p.toToml = text := by
  refine ⟨?_, fun _ => template_eq_error, ?_⟩
  · rw [checkName_eq_ok]
    simp only [template_eq_ok, exists_and_left, exists_eq, and_true]
  · intro text htext
    rcases template_eq_ok.mp htext with ⟨hname, rfl⟩
    refine ⟨describing name kind, Toml.profile?_toToml _, pinsAllOf_describing name kind, rfl,
      mismatches_describing name kind, issues_describing hname kind, rfl⟩

/-- A name may hold quotes of both sorts and a control character. -/
theorem template_of_quotes_reads_back :
    ∃ text, template "it\'s\u0001\"\"\"" .webAssembly = .ok text ∧
      ∃ p, Toml.profile? text = .ok p ∧ p.PinsAllOf "it\'s\u0001\"\"\"" .webAssembly ∧
        p.expect = some (.pinAll ⟨.webAssembly⟩) ∧ p.mismatches = [] ∧ p.issues = [] ∧
        p.toToml = text := by
  have hname : nameProblem? "it\'s\u0001\"\"\"" = none := by decide
  obtain ⟨text, htext⟩ := (templates_read_back_and_validate _ .webAssembly).1.mpr
    (checkName_eq_ok.mpr hname)
  exact ⟨text, htext, (templates_read_back_and_validate _ .webAssembly).2.2 _ htext⟩

end AbiFacts.Profile

import AbiFacts.Proofs.Json.RoundTrip
import AbiFacts.Registers
import Mathlib.Data.Set.Card

/-! # Registers hold values

A register holds the kind that was last stored there. A copy takes the kind that its source holds at
that moment, and from then on the two have nothing to do with each other. So what a register holds
can be traced back through the steps to the one that made the kind (`get_after_iff`), and all that
is asked about a register is answered from this kind alone.
-/
namespace AbiFacts

/-- The facts as they are asked for one by one, each under its property. -/
def Descriptor.queried (abi : Descriptor) : List (Property × Bool) :=
  [(.itaniumFamily, abi.isItaniumFamily), (.microsoft, abi.isMicrosoft),
    (.memberFunctionsAligned, abi.alignsMemberFunctions),
    (.argsDestroyedInCallee, abi.destroysArgsInCallee),
    (.constructorVariants, abi.hasConstructorVariants),
    (.primaryVirtualBases, abi.hasPrimaryVirtualBases), (.keyFunctions, abi.hasKeyFunctions),
    (.inlineKeyFunction, abi.allowsInlineKeyFunction)]

theorem Descriptor.ext_kind {a b : Descriptor} (h : a.kind = b.kind) : a = b := by
  cases a
  cases b
  exact congrArg _ h

namespace Registers

variable {registers : Registers} {register other : String} {abi : Descriptor}

/-! ## Places -/

theorem get_eq_ok : registers.get register = .ok abi ↔ registers.lookup register = some abi := by
  rw [get]
  cases registers.lookup register <;> simp

@[simp] theorem get_put_self : (registers.put register abi).get register = .ok abi := by
  simp [get_eq_ok, put]

theorem lookup_filter_ne (h : other ≠ register) :
    (registers.filter fun entry => entry.1 != register).lookup other = registers.lookup other := by
  induction registers with
  | nil => rfl
  | cons entry registers ih =>
    by_cases hentry : entry.1 = register
    · have hother : (other == entry.1) = false := by simp [hentry, h]
      rw [List.filter_cons_of_neg (by simp [hentry]), ih, List.lookup_cons, hother]
    · rw [List.filter_cons_of_pos (by simp [hentry]), List.lookup_cons, List.lookup_cons, ih]

theorem get_put_of_ne (h : other ≠ register) :
    (registers.put register abi).get other = registers.get other := by
  have hne : (other == register) = false := by simp [h]
  rw [get, get, put, List.lookup_cons, hne, lookup_filter_ne h]

theorem nodup_put (h : (keys registers).Nodup) :
    (keys (registers.put register abi)).Nodup := by
  rw [put, keys_cons, List.nodup_cons]
  constructor
  · intro hmem
    rcases mem_keys.mp hmem with ⟨abi, hmem⟩
    simp at hmem
  · exact h.sublist (List.filter_sublist.map Prod.fst)

/-! ## One step -/

def answer (registers : Registers) (step : Step) : Except Error Answer :=
  Prod.fst <$> registers.step step

/-- The registers after a step. A step that fails leaves them as they are. -/
def stepped (registers : Registers) (step : Step) : Registers :=
  match registers.step step with
  | .ok (_, next) => next
  | .error _ => registers

def after (registers : Registers) (steps : List Step) : Registers := steps.foldl stepped registers

def Step.target? : Step → Option String
  | .default register | .new register _ | .set register _ | .copy _ register => some register
  | .eq _ _ | .query _ | .snapshot _ | .eval _ _ | .json _ | .distinct => none

/-- The kind that a step makes itself. A copy makes none. -/
def Step.makes? : Step → Option Kind
  | .default _ => some ({} : Descriptor).kind
  | .new _ kind | .set _ kind => Kind.parse? kind
  | .copy _ _ | .eq _ _ | .query _ | .snapshot _ | .eval _ _ | .json _ | .distinct => none

/-- What a step does: it stores what it makes or copies, or it changes nothing, because it only asks
or fails. -/
inductive Does (registers : Registers) (step : Step) : Prop where
  | makes {register : String} {kind : Kind} (htarget : step.target? = some register)
      (hmakes : step.makes? = some kind)
      (hstep : registers.step step = .ok (.kind kind, registers.put register ⟨kind⟩))
  | copies {source register : String} {abi : Descriptor} (hcopy : step = .copy source register)
      (hsource : registers.get source = .ok abi)
      (hstep : registers.step step = .ok (.kind abi.kind, registers.put register abi))
  | asks {answer : Answer} (htarget : step.target? = none)
      (hstep : registers.step step = .ok (answer, registers))
  | fails {error : Error} (hmakes : step.makes? = none)
      (hstep : registers.step step = .error error)

theorem does_of_kind {step : Step} {text : String}
    (htarget : step.target? = some register) (hmakes : step.makes? = Kind.parse? text)
    (hstep : registers.step step = registers.step (.new register text)) : Does registers step := by
  cases hparse : Kind.parse? text with
  | some kind =>
    refine .makes htarget (hmakes.trans hparse) (hstep.trans ?_)
    simp only [Registers.step, Kind.ofText, hparse]
    rfl
  | none =>
    have hfails : registers.step (.new register text) = .error (.unknown (.unknownKind text)) := by
      simp only [Registers.step, Kind.ofText, hparse]
      rfl
    exact .fails (hmakes.trans hparse) (hstep.trans hfails)

theorem does (registers : Registers) (step : Step) : Does registers step := by
  cases step with
  | default register => exact .makes rfl rfl rfl
  | new register text => exact does_of_kind rfl rfl rfl
  | set register text => exact does_of_kind rfl rfl rfl
  | copy source register =>
    cases hsource : registers.get source with
    | ok abi => exact .copies rfl hsource (by simp only [Registers.step, hsource]; rfl)
    | error e => exact .fails rfl (by simp only [Registers.step, hsource]; rfl)
  | eq a b =>
    cases ha : registers.get a with
    | error e => exact .fails rfl (by simp only [Registers.step, ha]; rfl)
    | ok x =>
      cases hb : registers.get b with
      | error e => exact .fails rfl (by simp only [Registers.step, ha, hb]; rfl)
      | ok y => exact .asks rfl (by simp only [Registers.step, ha, hb]; rfl)
  | eval register property =>
    cases habi : registers.get register with
    | error e => exact .fails rfl (by simp only [Registers.step, habi]; rfl)
    | ok abi =>
      cases hproperty : Property.ofText property with
      | error e => exact .fails rfl (by simp only [Registers.step, habi, hproperty]; rfl)
      | ok property => exact .asks rfl (by simp only [Registers.step, habi, hproperty]; rfl)
  | query register | snapshot register | json register =>
    cases habi : registers.get register with
    | error e => exact .fails rfl (by simp only [Registers.step, habi]; rfl)
    | ok abi => exact .asks rfl (by simp only [Registers.step, habi]; rfl)
  | distinct => exact .asks rfl rfl

theorem answer_of_step {step : Step} {a : Answer} {next : Registers}
    (h : registers.step step = .ok (a, next)) :
    registers.answer step = .ok a ∧ registers.stepped step = next := by
  rw [answer, stepped, h]
  exact ⟨rfl, rfl⟩

theorem stepped_of_answer {step : Step} {e : Error} (h : registers.answer step = .error e) :
    registers.stepped step = registers := by
  rw [answer] at h
  rw [stepped]
  cases hstep : registers.step step with
  | ok next =>
    rw [hstep] at h
    cases h
  | error e => rfl

/-- Only the register that a step stores into can change. -/
theorem get_stepped {step : Step} (h : step.target? ≠ some register) :
    (registers.stepped step).get register = registers.get register := by
  cases registers.does step with
  | @makes target kind htarget _ hstep =>
    rw [(answer_of_step hstep).2, get_put_of_ne]
    rintro rfl
    exact h htarget
  | @copies source target abi hcopy _ hstep =>
    rw [(answer_of_step hstep).2, get_put_of_ne]
    rintro rfl
    exact h (hcopy ▸ rfl)
  | asks _ hstep => rw [(answer_of_step hstep).2]
  | fails _ hstep => rw [stepped, hstep]

theorem nodup_stepped (h : (keys registers).Nodup) (step : Step) :
    (keys (registers.stepped step)).Nodup := by
  cases registers.does step with
  | makes _ _ hstep | copies _ _ hstep =>
    rw [(answer_of_step hstep).2]
    exact nodup_put h
  | asks _ hstep =>
    rw [(answer_of_step hstep).2]
    exact h
  | fails _ hstep =>
    rw [stepped, hstep]
    exact h

/-! ## Sequences of steps -/

@[simp] theorem after_nil (registers : Registers) : registers.after [] = registers := rfl

@[simp] theorem after_cons (registers : Registers) (step : Step) (steps : List Step) :
    registers.after (step :: steps) = (registers.stepped step).after steps := rfl

theorem after_append (registers : Registers) (first second : List Step) :
    registers.after (first ++ second) = (registers.after first).after second :=
  List.foldl_append

theorem run_cons (registers : Registers) (step : Step) (steps : List Step) :
    registers.run (step :: steps) =
      registers.answer step :: (registers.stepped step).run steps := by
  rw [run, answer, stepped]
  cases registers.step step <;> rfl

theorem run_append (registers : Registers) (first second : List Step) :
    registers.run (first ++ second) =
      registers.run first ++ (registers.after first).run second := by
  induction first generalizing registers with
  | nil => rfl
  | cons step first ih => simp [run_cons, ih]

theorem nodup_after (h : (keys registers).Nodup) (steps : List Step) :
    (keys (registers.after steps)).Nodup := by
  induction steps generalizing registers with
  | nil => exact h
  | cons step steps ih => exact ih (nodup_stepped h step)

/-- None of these steps stores into the register: each has another place to store into, or fails. -/
def LeaveAlone (register : String) (registers : Registers) : List Step → Prop
  | [] => True
  | step :: steps =>
    (step.target? = some register → ∃ e, registers.answer step = .error e) ∧
      LeaveAlone register (registers.stepped step) steps

theorem leaveAlone_of_target {steps : List Step}
    (h : ∀ step ∈ steps, step.target? ≠ some register) :
    LeaveAlone register registers steps := by
  induction steps generalizing registers with
  | nil => trivial
  | cons step steps ih =>
    constructor
    · intro htarget
      exact absurd htarget (h step (by simp))
    · apply ih
      intro step hstep
      exact h step (by simp [hstep])

theorem LeaveAlone.append_singleton {steps : List Step} {step : Step}
    (h : LeaveAlone register registers steps)
    (hstep : step.target? = some register → ∃ e, (registers.after steps).answer step = .error e) :
    LeaveAlone register registers (steps ++ [step]) := by
  induction steps generalizing registers with
  | nil => exact ⟨hstep, trivial⟩
  | cons first steps ih => exact ⟨h.1, ih h.2 hstep⟩

theorem LeaveAlone.get {steps : List Step} (h : LeaveAlone register registers steps) :
    (registers.after steps).get register = registers.get register := by
  induction steps generalizing registers with
  | nil => rfl
  | cons step steps ih =>
    rw [after_cons, ih h.2]
    by_cases htarget : step.target? = some register
    · rcases h.1 htarget with ⟨e, he⟩
      rw [stepped_of_answer he]
    · exact get_stepped htarget

/-! ## Traces -/

/-- A kind that a register holds after these steps, back to the step that made it: the last step
that stored something there made the kind, or copied it from a register that held it then. -/
inductive Traced : List Step → String → Kind → Prop where
  | made {before later : List Step} {step : Step} {register : String} {kind : Kind}
      (htarget : step.target? = some register) (hmakes : step.makes? = some kind)
      (hlater : LeaveAlone register (after [] (before ++ [step])) later) :
      Traced (before ++ step :: later) register kind
  | copied {before later : List Step} {source register : String} {kind : Kind}
      (hsource : Traced before source kind)
      (hlater : LeaveAlone register (after [] (before ++ [.copy source register])) later) :
      Traced (before ++ .copy source register :: later) register kind

theorem Traced.append_singleton {steps : List Step} {step : Step} {kind : Kind}
    (h : Traced steps register kind)
    (hstep : step.target? = some register → ∃ e, (after [] steps).answer step = .error e) :
    Traced (steps ++ [step]) register kind := by
  cases h with
  | @made before later first _ _ htarget hmakes hlater =>
    rw [List.append_assoc, List.cons_append]
    refine .made htarget hmakes (hlater.append_singleton ?_)
    simpa [after_append] using hstep
  | @copied before later source _ _ hsource hlater =>
    rw [List.append_assoc, List.cons_append]
    refine .copied hsource (hlater.append_singleton ?_)
    simpa [after_append] using hstep

theorem after_append_singleton (steps : List Step) (step : Step) :
    registers.after (steps ++ [step]) = (registers.after steps).stepped step := by
  rw [after_append, after_cons, after_nil]

theorem traced_of_get {steps : List Step} (h : (after [] steps).get register = .ok abi) :
    Traced steps register abi.kind := by
  induction steps using List.reverseRecOn generalizing register with
  | nil => cases h
  | append_singleton steps step ih =>
    rw [after_append_singleton] at h
    by_cases hother : step.target? = some register
    · cases (after [] steps).does step with
      | @makes target kind htarget hmakes hstep =>
        obtain rfl : target = register := by simpa [htarget] using hother
        rw [(answer_of_step hstep).2, get_put_self] at h
        cases h
        exact .made htarget hmakes trivial
      | @copies source target abi hcopy hsource hstep =>
        subst hcopy
        obtain rfl : target = register := by simpa [Step.target?] using hother
        rw [(answer_of_step hstep).2, get_put_self] at h
        cases h
        exact .copied (ih hsource) trivial
      | asks htarget hstep => simp [htarget] at hother
      | @fails e _ hstep =>
        rw [stepped, hstep] at h
        refine (ih h).append_singleton fun _ => ⟨e, ?_⟩
        rw [answer, hstep]
        rfl
    · rw [get_stepped hother] at h
      exact (ih h).append_singleton fun htarget => absurd htarget hother

theorem Traced.get {steps : List Step} {kind : Kind} (h : Traced steps register kind) :
    (after [] steps).get register = .ok ⟨kind⟩ := by
  induction h with
  | @made before later step register kind htarget hmakes hlater =>
    rw [← List.singleton_append, ← List.append_assoc, after_append, hlater.get,
      after_append_singleton]
    cases (after [] before).does step with
    | @makes target other hother hmade hstep =>
      obtain rfl : target = register := by simpa [hother] using htarget
      obtain rfl : other = kind := by simpa [hmade] using hmakes
      rw [(answer_of_step hstep).2, get_put_self]
    | copies hcopy => simp [hcopy, Step.makes?] at hmakes
    | asks hasks => simp [hasks] at htarget
    | fails hfails => simp [hfails] at hmakes
  | @copied before later source register kind hsource hlater ih =>
    rw [← List.singleton_append, ← List.append_assoc, after_append, hlater.get,
      after_append_singleton]
    have hstep : (after [] before).step (.copy source register) =
        .ok (.kind kind, (after [] before).put register ⟨kind⟩) := by
      simp only [Registers.step, ih]
      rfl
    rw [(answer_of_step hstep).2, get_put_self]

/-- A register holds exactly the kind that can be traced. -/
theorem get_after_iff {steps : List Step} {kind : Kind} :
    (after [] steps).get register = .ok ⟨kind⟩ ↔ Traced steps register kind :=
  ⟨traced_of_get, Traced.get⟩

/-! ## Answers -/

theorem nodup_eraseDups {α : Type} [DecidableEq α] (items : List α) : items.eraseDups.Nodup := by
  match items with
  | [] => simp
  | first :: rest =>
    have hrest := nodup_eraseDups (rest.filter fun other => !other == first)
    simp [List.eraseDups_cons, List.mem_eraseDups, hrest]
termination_by items.length
decreasing_by simp [List.length_filter_le]

/-- Different descriptors are counted by their kinds. -/
theorem length_eraseDups_eq_ncard (h : (keys registers).Nodup) :
    (registers.map (·.2)).eraseDups.length =
      {kind | ∃ register, registers.get register = .ok ⟨kind⟩}.ncard := by
  have hnodup : ((registers.map (·.2)).eraseDups.map Descriptor.kind).Nodup :=
    (nodup_eraseDups _).map fun _ _ => Descriptor.ext_kind
  have hset : {kind | ∃ register, registers.get register = .ok ⟨kind⟩} =
      ((registers.map (·.2)).eraseDups.map Descriptor.kind).toFinset := by
    ext kind
    simp only [get_eq_ok, lookup_eq_some h, Set.mem_ofPred_eq, List.coe_toFinset, List.mem_map,
      List.mem_eraseDups]
    constructor
    · rintro ⟨register, hmem⟩
      exact ⟨⟨kind⟩, ⟨_, hmem, rfl⟩, rfl⟩
    · rintro ⟨_, ⟨entry, hmem, rfl⟩, rfl⟩
      exact ⟨entry.1, hmem⟩
  rw [hset, Set.ncard_coe_finset, List.toFinset_card_of_nodup hnodup, List.length_map]

theorem kind?_compact (kind : Kind) :
    Json.kind? (Json.compact (.string kind.name)) = .ok kind := by
  have hstring : Json.isIntegral (.string kind.name) := trivial
  have hread : (Json.Scan.ofJson (.string kind.name)).choice = .ok kind :=
    Decode.named_eq_ok.mpr rfl
  exact (Json.decode_write hstring hread).1

theorem compact_name_inj {a b : Kind} :
    Json.compact (.string a.name) = Json.compact (.string b.name) ↔ a = b := by
  constructor
  · intro h
    have hb := kind?_compact b
    rw [← h, kind?_compact] at hb
    exact Except.ok.inj hb
  · rintro rfl
    rfl

theorem snapshot_inj {a b : Descriptor} : a.snapshot = b.snapshot ↔ a = b := by
  constructor
  · intro h
    exact Descriptor.ext_kind (congrArg Snapshot.kind h)
  · rintro rfl
    rfl

theorem mem_queried {property : Property} {value : Bool} :
    (property, value) ∈ abi.queried ↔ property.eval abi = value := by
  rw [show abi.queried = abi.snapshot.entries from rfl, Snapshot.entries, List.mem_map]
  constructor
  · rintro ⟨_, _, ⟨⟩⟩
    exact (abi.value_snapshot property).symm
  · rintro rfl
    exact ⟨property, Named.mem_all property, congrArg _ (abi.value_snapshot property)⟩

/-- All answers about a register are those for this kind. The facts in its snapshot and the values
of its properties are what the queries say one by one. -/
structure AnswersAs (registers : Registers) (register : String) (kind : Kind) : Prop where
  query : registers.answer (.query register) = .ok (.query ⟨kind⟩)
  snapshot : ∃ s, registers.answer (.snapshot register) = .ok (.snapshot s) ∧ s.kind = kind ∧
    s.entries = (Descriptor.mk kind).queried ∧ s.tailPadding = (Descriptor.mk kind).tailPadding
  eval : ∀ (property : Property) value,
    registers.answer (.eval register property.key) = .ok (.truth value) ↔
      (property, value) ∈ (Descriptor.mk kind).queried
  json : registers.answer (.json register) = .ok (.text (Json.compact (.string kind.name)))
  copy : ∀ target, registers.answer (.copy register target) = .ok (.kind kind)

theorem answer_snapshot (h : registers.get register = .ok abi) :
    registers.answer (.snapshot register) = .ok (.snapshot abi.snapshot) := by
  simp only [answer, step, h]
  rfl

theorem answer_eval (h : registers.get register = .ok abi) (property : Property) :
    registers.answer (.eval register property.key) = .ok (.truth (property.eval abi)) := by
  have hproperty : Property.ofText property.key = .ok property := by
    rw [Property.ofText, show property.key = Named.name property from rfl, Named.find?_name]
  simp only [answer, step, h, hproperty]
  rfl

theorem answer_json (h : registers.get register = .ok abi) :
    registers.answer (.json register) = .ok (.text (Json.compact (.string abi.kind.name))) := by
  simp only [answer, step, h]
  rfl

theorem answer_eq {a b : String} {x y : Descriptor} (ha : registers.get a = .ok x)
    (hb : registers.get b = .ok y) :
    registers.answer (.eq a b) = .ok (.truth (x = y)) := by
  simp only [answer, step, ha, hb]
  rfl

theorem answersAs {kind : Kind} (h : registers.get register = .ok ⟨kind⟩) :
    AnswersAs registers register kind := by
  refine ⟨?_, ⟨_, answer_snapshot h, rfl, rfl, rfl⟩, ?_, answer_json h, ?_⟩
  · simp only [answer, step, h]
    rfl
  · intro property value
    simp [answer_eval h, mem_queried]
  · intro target
    simp only [answer, step, h]
    rfl

/-- Two registers are equal, have the same JSON text and have the same snapshot, each exactly if
they hold the same kind. -/
structure ComparesAs (registers : Registers) (a b : String) (x y : Kind) : Prop where
  eq : registers.answer (.eq a b) = .ok (.truth (x = y))
  json : registers.answer (.json a) = registers.answer (.json b) ↔ x = y
  snapshot : registers.answer (.snapshot a) = registers.answer (.snapshot b) ↔ x = y

theorem comparesAs {a b : String} {x y : Kind} (ha : registers.get a = .ok ⟨x⟩)
    (hb : registers.get b = .ok ⟨y⟩) : ComparesAs registers a b x y := by
  constructor
  · simp [answer_eq ha hb]
  · simp [answer_json ha, answer_json hb, compact_name_inj]
  · simp [answer_snapshot ha, answer_snapshot hb, snapshot_inj]

/-! ## Runs -/

/-- How the registers are after these steps, which began with nothing held. -/
structure HoldsValues (steps : List Step) : Prop where
  /-- A run answers each step from the registers that the steps before it leave. -/
  answers : ∀ step later, run [] (steps ++ step :: later) =
    run [] steps ++ (after [] steps).answer step :: run (after [] (steps ++ [step])) later
  failure : ∀ step e, (after [] steps).answer step = .error e →
    after [] (steps ++ [step]) = after [] steps
  /-- What is held is what was stored last. -/
  held : ∀ register kind, (after [] steps).get register = .ok ⟨kind⟩ ↔ Traced steps register kind
  /-- Only steps that store into a register change it. -/
  others : ∀ register later, (∀ step ∈ later, step.target? ≠ some register) →
    (after [] (steps ++ later)).get register = (after [] steps).get register
  /-- A copy keeps its kind whatever becomes of its source. -/
  copies : ∀ source register kind later, Traced steps source kind →
    (∀ step ∈ later, step.target? ≠ some register) →
    Traced (steps ++ .copy source register :: later) register kind
  asked : ∀ register kind, Traced steps register kind →
    AnswersAs (after [] steps) register kind
  compared : ∀ a b x y, Traced steps a x → Traced steps b y →
    ComparesAs (after [] steps) a b x y
  counted : (after [] steps).answer .distinct =
    .ok (.count {kind | ∃ register, Traced steps register kind}.ncard)

/-- Registers hold independent values, and whatever is asked about one depends on the kind alone
that was last stored there. -/
theorem registers_hold_values (steps : List Step) : HoldsValues steps where
  answers step later := by rw [run_append, run_cons, after_append_singleton]
  failure step e h := by rw [after_append_singleton, stepped_of_answer h]
  held register kind := get_after_iff
  others register later h := by rw [after_append, (leaveAlone_of_target h).get]
  copies source register kind later hsource h := .copied hsource (leaveAlone_of_target h)
  asked register kind h := answersAs h.get
  compared a b x y ha hb := comparesAs ha.get hb.get
  counted := by
    have hcount : (after [] steps).answer .distinct =
        .ok (.count ((after [] steps).map (·.2)).eraseDups.length) := rfl
    have hnodup : (keys (after [] steps)).Nodup := nodup_after (by simp) steps
    simp only [hcount, length_eraseDups_eq_ncard hnodup, get_after_iff]

/-- A copy keeps the kind that its source held, though the source is set to another kind later. -/
theorem copy_outlives_its_source :
    Traced [.new "a" "ios", .copy "a" "b", .set "a" "MICROSOFT"] "b" .ios ∧
    Traced [.new "a" "ios", .copy "a" "b", .set "a" "MICROSOFT"] "a" .microsoft ∧
    ComparesAs (after [] [.new "a" "ios", .copy "a" "b", .set "a" "MICROSOFT"]) "a" "b"
      .microsoft .ios := by
  have hios : Kind.parse? "ios" = some .ios := by decide
  have hmicrosoft : Kind.parse? "MICROSOFT" = some .microsoft := by decide
  have hsource : Traced ([] ++ [.new "a" "ios"]) "a" .ios := .made rfl hios trivial
  have hset : Traced ([.new "a" "ios", .copy "a" "b"] ++ [.set "a" "MICROSOFT"]) "a" .microsoft :=
    .made rfl hmicrosoft trivial
  have hcopy := (registers_hold_values [.new "a" "ios"]).copies "a" "b" .ios
    [.set "a" "MICROSOFT"] hsource (by simp [Step.target?])
  exact ⟨hcopy, hset, (registers_hold_values _).compared _ _ _ _ hset hcopy⟩

end Registers
end AbiFacts

import AbiFacts.DocumentNames
import AbiFacts.Json.Written
import AbiFacts.Lookup

/-! # Registers of descriptors

Named places that hold descriptors, changed and asked about one step at a time. A step that fails
changes no register.
-/
namespace AbiFacts

abbrev Registers := List (String × Descriptor)

namespace Registers

/-- A step names kinds and facts by text. -/
inductive Step where
  /-- Store the default descriptor. -/
  | default (register : String)
  /-- Store the descriptor of a kind, also where a kind is converted to its descriptor. -/
  | new (register kind : String)
  | set (register kind : String)
  | copy (source register : String)
  | eq (a b : String)
  | query (register : String)
  | snapshot (register : String)
  | eval (register property : String)
  | json (register : String)
  /-- Count the different descriptors that are held. -/
  | distinct

inductive Answer where
  | kind (kind : Kind)
  | truth (value : Bool)
  | query (abi : Descriptor)
  | snapshot (snapshot : Snapshot)
  | text (text : String)
  | count (n : Nat)

inductive Error where
  | unknown (error : NameError)
  /-- The register holds nothing yet. -/
  | unset (register : String)

def get (registers : Registers) (register : String) : Except Error Descriptor :=
  match registers.lookup register with
  | some abi => .ok abi
  | none => .error (.unset register)

def put (register : String) (abi : Descriptor) (registers : Registers) : Registers :=
  (register, abi) :: registers.filter fun entry => entry.1 != register

private def lookedUp {α : Type} : Except NameError α → Except Error α
  | .ok value => .ok value
  | .error e => .error (.unknown e)

private def store (registers : Registers) (register : String) (abi : Descriptor) :
    Answer × Registers :=
  (.kind abi.kind, registers.put register abi)

def step (registers : Registers) : Step → Except Error (Answer × Registers)
  | .default register => .ok (registers.store register {})
  | .new register kind | .set register kind => do
    return registers.store register ⟨← lookedUp (Kind.ofText kind)⟩
  | .copy source register => do return registers.store register (← registers.get source)
  | .eq a b => do return (.truth ((← registers.get a) = (← registers.get b)), registers)
  | .query register => do return (.query (← registers.get register), registers)
  | .snapshot register => do return (.snapshot (← registers.get register).snapshot, registers)
  | .eval register property => do
    let abi ← registers.get register
    let property ← lookedUp (Property.ofText property)
    return (.truth (property.eval abi), registers)
  | .json register => do
    return (.text (Json.compact (.string (← registers.get register).kind.documentName)), registers)
  | .distinct => .ok (.count (registers.map (·.2)).eraseDups.length, registers)

def run (registers : Registers) : List Step → List (Except Error Answer)
  | [] => []
  | step :: steps =>
    match registers.step step with
    | .ok (answer, registers) => .ok answer :: registers.run steps
    | .error e => .error e :: registers.run steps

end Registers
end AbiFacts

/-! # Log records

What the program does, told in records of three levels. Warnings are always shown; the others ask
for more verbosity.
-/
namespace AbiFacts

inductive Level where
  | warn
  | info
  | debug
  deriving DecidableEq

namespace Level

def name : Level → String
  | warn => "WARN"
  | info => "INFO"
  | debug => "DEBUG"

/-- The verbosity from which on records of the level are shown. -/
def verbosity : Level → Nat
  | warn => 0
  | info => 1
  | debug => 2

end Level

structure LogRecord where
  level : Level
  message : String
  fields : List (String × String) := []
  deriving DecidableEq

def LogRecord.text (record : LogRecord) : String :=
  record.fields.foldl (fun text (key, value) => text ++ " " ++ key ++ "=" ++ value)
    (record.level.name ++ " " ++ record.message)

end AbiFacts

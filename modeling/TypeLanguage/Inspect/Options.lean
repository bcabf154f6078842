/-
This file takes the options out of the arguments. An option may stand anywhere among
them, and a value follows it; what is left keeps its order.
-/

namespace TypeLanguage.Inspect

/-- The values of an option, and the other arguments; nothing if an option stands last. -/
def takeValues? (option : String) : List String → Option (List String × List String)
  | [] => some ([], [])
  | argument :: arguments =>
    if argument = option then
      match arguments with
      | [] => none
      | value :: arguments =>
        (takeValues? option arguments).map fun (values, others) => (value :: values, others)
    else (takeValues? option arguments).map fun (values, others) => (values, argument :: others)

/-- The option that makes the tool report what it passes over. -/
def verboseOption : String := "--verbose"

/-- The option in front of a schema file. -/
def schemaOption : String := "--schema"

/-- The option in front of a configuration file. -/
def configOption : String := "--config"

end TypeLanguage.Inspect

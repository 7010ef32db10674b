import WrapperGen.Target

/-!
# Symbols

The names generated modules define and import. The front end always registers the model name. A
generated module whose class has an override defines a marked symbol, so that the override can take
the plain one.
-/

namespace WrapperGen.Symbol

/-- The name a class is registered under. -/
def model (className : String) : String := className ++ "Model"

/-- The symbol other modules import for a class. -/
def imported : Target → String → String
  | .javascript, c => model c
  | .python, c => c

/-- The symbol a class's generated module defines. -/
def exported (target : Target) (className : String) (overridden : Bool) : String :=
  if overridden then imported target className ++ "Autogen" else imported target className

/-- A letter of the ASCII alphabet, or an underscore. -/
def isInitial (c : Char) : Bool := ('a' ≤ c && c ≤ 'z') || ('A' ≤ c && c ≤ 'Z') || c = '_'

/-- Whether a text is a plain identifier in both target languages. -/
def isIdentifier (name : String) : Bool :=
  match name.toList with
  | [] => false
  | c :: r => isInitial c && r.all fun d => isInitial d || ('0' ≤ d && d ≤ '9')

end WrapperGen.Symbol

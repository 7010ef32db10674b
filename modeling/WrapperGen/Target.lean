/-!
# Target languages

The two languages wrappers are generated for, and what is fixed per language.
-/

namespace WrapperGen

/-- A language wrappers are generated for. -/
inductive Target where
  | javascript
  | python
deriving DecidableEq, Repr, Inhabited

namespace Target

/-- Every target, in the order in which a run serves them. -/
def all : List Target := [javascript, python]

def name : Target → String
  | javascript => "javascript"
  | python => "python"

/-- The literal for an absent value. -/
def nullLiteral : Target → String
  | javascript => "null"
  | python => "None"

/-- The literal for a truth value. -/
def boolLiteral : Target → Bool → String
  | javascript, true => "true"
  | javascript, false => "false"
  | python, true => "True"
  | python, false => "False"

/-- The end of a generated module's file name. -/
def generatedSuffix : Target → String
  | javascript => ".autogen.js"
  | python => "_autogen.py"

/-- The end of any module's file name. -/
def moduleExtension : Target → String
  | javascript => ".js"
  | python => ".py"

end Target
end WrapperGen

import WrapperGen.Inheritance

/-!
# Problems of a class table

The problems of a table are those of its classes, in table order: a class that cannot be resolved, or
else its references that lead nowhere and its constructor arguments that are not properties.
-/

namespace WrapperGen.ClassTable

/-- Whether a reference leads somewhere: to a class, the root, or a path. -/
def leads (t : ClassTable) (reference : String) : Bool := t.knows reference || isBarePath reference

/-- The dependencies of a class that lead nowhere. -/
def dependencyProblems (t : ClassTable) (r : Resolved) : List Error :=
  (r.dependencies.filter (!t.leads ·)).map (.invalidReference r.className)

/-- The classes named by the properties of a class that lead nowhere. -/
def propertyProblems (t : ClassTable) (r : Resolved) : List Error :=
  r.ownProperties.entries.flatMap fun (name, property) =>
    property.references.filterMap fun
      | .named c =>
        if t.leads c then none
        else some (.invalidReference r.className (c ++ " (property " ++ name ++ ")"))
      | .base => none

/-- The constructor arguments of a class that are not properties. -/
def argumentProblems (r : Resolved) : List Error :=
  r.arguments.filterMap fun
    | .property a =>
      if r.allProperties.has a then none else some (.render r.className (.argumentNotProperty a))
    | .parameters => none

def problemsOf (t : ClassTable) (r : Resolved) : List Error :=
  t.dependencyProblems r ++ t.propertyProblems r ++ argumentProblems r

/-- The problems of classes one after another, none resolved twice. -/
def problemsFrom (t : ClassTable) : Memo → List String → List Error
  | _, [] => []
  | memo, name :: rest =>
    match t.resolveWith memo name with
    | (.ok r, memo') => t.problemsOf r ++ t.problemsFrom memo' rest
    | (.error e, memo') => e :: t.problemsFrom memo' rest

def problems (t : ClassTable) : List Error := t.problemsFrom {} t.names

end WrapperGen.ClassTable

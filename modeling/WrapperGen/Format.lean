import WrapperGen.Json.Reader
import WrapperGen.Toml.Reader

/-!
# Formats of class tables

A class table, or a part of one, is a JSON or a TOML text.
-/

namespace WrapperGen

/-- The format of a class table's text. -/
inductive Format where
  | json
  | toml
deriving DecidableEq, Repr, Inhabited

namespace Format

def read? : Format → String → Option Document
  | json => Json.read?
  | toml => Toml.read?

/-- What is left alone in records of the format. -/
def leeway : Format → Leeway
  | json => .fields
  | toml => .items

/-- The format that a file extension stands for. -/
def ofExtension? : String → Option Format
  | "json" => some json
  | "toml" => some toml
  | _ => none

end Format
end WrapperGen

import ResourceSearch.Failure
import ResourceSearch.Toml.Printer
import ResourceSearch.Yaml.Printer

/-!
The formats in which answers are printed.
-/

namespace ResourceSearch

inductive Format where
  | json
  | yaml
  | toml
  deriving DecidableEq, Repr, Inhabited

/-- The text of a value.  Only TOML has values that it cannot say. -/
def Format.render : Format → Json → Except Failure String
  | .json, j => .ok j.pretty
  | .yaml, j => .ok (Yaml.print j)
  | .toml, j =>
    match Toml.print j with
    | .ok text => .ok text
    | .error o => .error (.tomlOutput o.message)

end ResourceSearch

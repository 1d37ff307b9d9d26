import ApiGraph.Config
import ApiGraph.Error
import ApiGraph.Toml.Reader

/-!
# ApiGraph.Toml.Config

Configurations as TOML documents: the truth values `pretty` and `kind_strings` at the top level,
each with its default if it is missing. Other keys do not count.
-/

namespace ApiGraph.Config

/-- A setting of the top-level table, which must be a truth value if it is there. -/
def setting? (entries : Toml.Entries) (key : String) (fallback : Bool) : Option Bool :=
  match entries.lookup key with
  | none => some fallback
  | some (.boolean b) => some b
  | some _ => none

/-- The configuration that a top-level table holds. -/
def ofEntries? (entries : Toml.Entries) : Option Config := do
  let defaults : Config := {}
  let pretty ← setting? entries "pretty" defaults.pretty
  let kindStrings ← setting? entries "kind_strings" defaults.kindStrings
  return { pretty, kindStrings }

/-- Reads a configuration. -/
def parse (text : String) : Except Error Config :=
  match (Toml.parse? text).bind ofEntries? with
  | some config => .ok config
  | none => .error .config

end ApiGraph.Config

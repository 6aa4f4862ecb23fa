namespace GrammarKit

/-- A YAML document. Scalars keep whether they were written without quotes,
    which decides whether they can be read as anything other than text. -/
inductive Yaml where
  | scalar (tag : Option String) (plain : Bool) (text : String)
  | sequence (tag : Option String) (items : List Yaml)
  | mapping (tag : Option String) (entries : List (Yaml × Yaml))
  deriving Inhabited

namespace Yaml

/-- A place where a value is missing. -/
def absent : Yaml := scalar none true ""

def tag : Yaml → Option String
  | scalar tag _ _ => tag
  | sequence tag _ => tag
  | mapping tag _ => tag

def withTag (tag : Option String) : Yaml → Yaml
  | scalar _ plain text => scalar tag plain text
  | sequence _ items => sequence tag items
  | mapping _ entries => mapping tag entries

end Yaml

end GrammarKit

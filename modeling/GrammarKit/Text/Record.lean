import GrammarKit.Text.Quoted

namespace GrammarKit.Text

/-- The notation in which records are shown for inspection, with the names of
    their fields, such as a position with its index, line and column. Lists,
    sets and maps have brackets of their own. -/
def showRecord (name : String) (fields : List (String × String)) : String :=
  let written := fields.map fun (field, value) => field ++ ": " ++ value
  name ++ " \x7b " ++ ", ".intercalate written ++ " \x7d"

def showTuple (parts : List String) : String :=
  "(" ++ ", ".intercalate parts ++ ")"

def showList (items : List String) : String :=
  "[" ++ ", ".intercalate items ++ "]"

def showSet (items : List String) : String :=
  "\x7b" ++ ", ".intercalate items ++ "\x7d"

def showMap (entries : List (String × String)) : String :=
  showSet (entries.map fun (key, value) => key ++ ": " ++ value)

def showOption : Option String → String
  | some shown => "Some(" ++ shown ++ ")"
  | none => "None"

def showBool (b : Bool) : String :=
  if b then "true" else "false"

end GrammarKit.Text

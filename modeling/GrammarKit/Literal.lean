import GrammarKit.Position

namespace GrammarKit.Literal

/-- Writes every doubled `delimiter` once. -/
def collapseDoubled (delimiter : Char) : List Char → List Char
  | [] => []
  | [c] => [c]
  | c :: d :: rest =>
    if c = delimiter && d = delimiter then delimiter :: collapseDoubled delimiter rest
    else c :: collapseDoubled delimiter (d :: rest)

/-- Drops each `escape` and keeps the character after it. An `escape` at the
    very end is kept. -/
def dropEscapes (escape : Char) : List Char → List Char
  | [] => []
  | [c] => [c]
  | c :: d :: rest =>
    if c = escape then d :: dropEscapes escape rest else c :: dropEscapes escape (d :: rest)

/-- The inside of a literal: `delimiter` takes up as many bytes on either side
    as it has itself. There is none when a cut falls inside a character. -/
def body? (delimiter : Char) (literal : List Char) : Option (List Char) := do
  let opened ← dropBytes delimiter.utf8Size literal
  let closed ← dropBytes delimiter.utf8Size opened.reverse
  return closed.reverse

/-- Whether two neighbouring characters both are `delimiter`. -/
def hasDoubled (delimiter : Char) : List Char → Bool
  | c :: d :: rest => (c = delimiter && d = delimiter) || hasDoubled delimiter (d :: rest)
  | _ => false

/-- Unescapes the body of a literal and puts its delimiters around it. A body
    without anything to unescape leaves the literal as it is. -/
def unescapeBody (delimiter escape : Char) (literal body : List Char) : List Char :=
  if escape = delimiter then
    if hasDoubled delimiter body then delimiter :: collapseDoubled delimiter body ++ [delimiter]
    else literal
  else if body.contains escape then delimiter :: dropEscapes escape body ++ [delimiter]
  else literal

/-- Unescapes a whole literal and keeps its delimiters, which are cut off by
    their size without a look at them. An escape character of its own is dropped
    and the one after it kept; when the delimiter escapes itself, two in a row
    stand for one. A text that is too short for two delimiters stays as it
    is. -/
def unescape (delimiter escape : Char) (literal : List Char) : Except Miscut (List Char) :=
  if byteSize literal < 2 * delimiter.utf8Size then .ok literal
  else
    match body? delimiter literal with
    | some body => .ok (unescapeBody delimiter escape literal body)
    | none => .error ⟨String.ofList literal⟩

/-- A text that stands between delimiters is what lies between the cuts. -/
theorem body?_quoted (delimiter : Char) (body : List Char) :
    body? delimiter (delimiter :: body ++ [delimiter]) = some body := by
  have hopened : dropBytes delimiter.utf8Size (delimiter :: body ++ [delimiter]) =
      some (body ++ [delimiter]) :=
    dropBytes_utf8Size delimiter (body ++ [delimiter])
  have hclosed : dropBytes delimiter.utf8Size (body ++ [delimiter]).reverse =
      some body.reverse := by
    rw [List.reverse_append]
    exact dropBytes_utf8Size delimiter body.reverse
  simp only [body?, hopened, hclosed, Option.bind_eq_bind, Option.bind_some, List.reverse_reverse]
  rfl

/-- What stands between delimiters is unescaped, and the delimiters stay. -/
theorem unescape_quoted (delimiter escape : Char) (body : List Char) :
    unescape delimiter escape (delimiter :: body ++ [delimiter]) =
      .ok (unescapeBody delimiter escape (delimiter :: body ++ [delimiter]) body) := by
  have hlong : ¬byteSize (delimiter :: body ++ [delimiter]) < 2 * delimiter.utf8Size := by
    rw [byteSize_append, byteSize_cons, byteSize_cons]
    omega
  rw [unescape, if_neg hlong, body?_quoted]

end GrammarKit.Literal

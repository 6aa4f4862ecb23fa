import GrammarKit.Text.Printable

namespace GrammarKit.Text

private def hexDigits (n : Nat) : String :=
  String.ofList (Nat.toDigits 16 n)

/-- The escape of a character by its number, such as \\u\x7be9\x7d. -/
def codeEscape (c : Char) : String :=
  "\\u\x7b" ++ hexDigits c.toNat ++ "\x7d"

/-- The text of `c` between quotes of the kind `quote`. Backslash, the quote
    itself and the usual control characters have short escapes; whatever would
    not show by itself is written by number. -/
def quotedChar (quote c : Char) : String :=
  if c = '\x00' then "\\0"
  else if c = '\t' then "\\t"
  else if c = '\n' then "\\n"
  else if c = '\r' then "\\r"
  else if c = '\\' || c = quote then String.ofList ['\\', c]
  else if isPrintable c && !isCombining c then c.toString
  else codeEscape c

def quoteChar (c : Char) : String :=
  "'" ++ quotedChar '\'' c ++ "'"

def quoteString (text : String) : String :=
  "\"" ++ String.join (text.toList.map (quotedChar '"')) ++ "\""

/-- The text of `c` in pure ASCII: both quotes and the backslash are escaped,
    and everything that is not a printable ASCII character is written by
    number. -/
def asciiEscape (c : Char) : String :=
  if c = '\t' then "\\t"
  else if c = '\n' then "\\n"
  else if c = '\r' then "\\r"
  else if c = '\\' || c = '\'' || c = '"' then String.ofList ['\\', c]
  else if 32 ≤ c.toNat && c.toNat < 127 then c.toString
  else codeEscape c

end GrammarKit.Text

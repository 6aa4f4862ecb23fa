import GrammarKit.CharRange
import GrammarKit.Pattern
import GrammarKit.Text.Alphanumeric

namespace GrammarKit.Pattern

/-- What letters inside a group mark can switch on and off. -/
private structure Flags where
  ignoreCase : Bool := false
  multiLine : Bool := false
  dotAll : Bool := false
  swapGreed : Bool := false
  spaced : Bool := false

private def Flags.set (flags : Flags) (value : Bool) : Char → Option Flags
  | 'i' => some { flags with ignoreCase := value }
  | 'm' => some { flags with multiLine := value }
  | 's' => some { flags with dotAll := value }
  | 'U' => some { flags with swapGreed := value }
  | 'x' => some { flags with spaced := value }
  | 'u' => if value then some flags else none
  | _ => none

/-- Skips blanks and comments where expressions may be laid out freely. -/
private def skipSpace (spaced comment : Bool) : List Char → List Char
  | [] => []
  | c :: rest =>
    if !spaced then c :: rest
    else if comment then skipSpace spaced (c ≠ '\n') rest
    else if Text.isBlank c then skipSpace spaced false rest
    else if c = '#' then skipSpace spaced true rest
    else c :: rest

private def hexDigit? (c : Char) : Option Nat :=
  if c.isDigit then some (c.toNat - '0'.toNat)
  else if 'a' ≤ c && c ≤ 'f' then some (c.toNat - 'a'.toNat + 10)
  else if 'A' ≤ c && c ≤ 'F' then some (c.toNat - 'A'.toNat + 10)
  else none

private def codeChar? (digits : List Char) : Option Char := do
  let values ← digits.mapM hexDigit?
  let code := values.foldl (fun n digit => n * 16 + digit) 0
  if digits.isEmpty || (0xd800 ≤ code && code < 0xe000) || 0x110000 ≤ code then none
  else return Char.ofNat code

/-- A character by its number: `count` hexadecimal digits, or any number of them in braces. -/
private def hexEscape? (count : Nat) : List Char → Option (Char × List Char)
  | '\x7b' :: rest => do
    let digits := rest.takeWhile (· ≠ '\x7d')
    let c ← codeChar? digits
    match rest.drop digits.length with
    | '\x7d' :: rest => return (c, rest)
    | _ => none
  | text => do
    let digits := text.take count
    if digits.length < count then none
    else return (← codeChar? digits, text.drop count)

/-- What stands after a backslash. -/
private inductive Escape where
  | char (c : Char)
  | set (chars : CharSet)
  | assertion (assertion : Assertion)

private def isEscapable (c : Char) : Bool :=
  c.toNat < 128 && !c.isAlphanum

private def readEscape? : List Char → Option (Escape × List Char)
  | [] => none
  | c :: rest =>
    match c with
    | 'd' => some (.set .digit, rest)
    | 'D' => some (.set (.complement .digit), rest)
    | 's' => some (.set .blank, rest)
    | 'S' => some (.set (.complement .blank), rest)
    | 'w' => some (.set .word, rest)
    | 'W' => some (.set (.complement .word), rest)
    | 'a' => some (.char '\x07', rest)
    | 'f' => some (.char '\x0c', rest)
    | 't' => some (.char '\t', rest)
    | 'n' => some (.char '\n', rest)
    | 'r' => some (.char '\r', rest)
    | 'v' => some (.char '\x0b', rest)
    | 'A' => some (.assertion .textStart, rest)
    | 'z' => some (.assertion .textEnd, rest)
    | 'b' => some (.assertion .wordBoundary, rest)
    | 'B' => some (.assertion .noWordBoundary, rest)
    | '<' => some (.assertion .wordStart, rest)
    | '>' => some (.assertion .wordEnd, rest)
    | 'x' => (hexEscape? 2 rest).map fun (c, rest) => (.char c, rest)
    | 'u' => (hexEscape? 4 rest).map fun (c, rest) => (.char c, rest)
    | 'U' => (hexEscape? 8 rest).map fun (c, rest) => (.char c, rest)
    | c => if isEscapable c then some (.char c, rest) else none

private def unionAll (sets : List CharSet) : CharSet :=
  sets.foldr .union .empty

private def asciiClass? (name : String) : Option CharSet :=
  let ranges (pairs : List CharRange) : Option CharSet :=
    some (unionAll (pairs.map fun (first, last) => .range first last))
  match name with
  | "alnum" => ranges [('0', '9'), ('A', 'Z'), ('a', 'z')]
  | "alpha" => ranges [('A', 'Z'), ('a', 'z')]
  | "ascii" => ranges [('\x00', '\x7f')]
  | "blank" => ranges [('\t', '\t'), (' ', ' ')]
  | "cntrl" => ranges [('\x00', '\x1f'), ('\x7f', '\x7f')]
  | "digit" => ranges [('0', '9')]
  | "graph" => ranges [('!', '~')]
  | "lower" => ranges [('a', 'z')]
  | "print" => ranges [(' ', '~')]
  | "punct" => ranges [('!', '/'), (':', '@'), ('[', '\x60'), ('\x7b', '~')]
  | "space" => ranges [('\t', '\r'), (' ', ' ')]
  | "upper" => ranges [('A', 'Z')]
  | "word" => ranges [('0', '9'), ('A', 'Z'), ('_', '_'), ('a', 'z')]
  | "xdigit" => ranges [('0', '9'), ('A', 'F'), ('a', 'f')]
  | _ => none

/-- A named class, such as the one of letters, whose opening bracket was read. -/
private def readAsciiClass? : List Char → Option (CharSet × List Char)
  | ':' :: rest => do
    let (negated, rest) := match rest with
      | '^' :: rest => (true, rest)
      | rest => (false, rest)
    let name := rest.takeWhile (· ≠ ':')
    let set ← asciiClass? (String.ofList name)
    match rest.drop name.length with
    | ':' :: ']' :: rest => return (if negated then .complement set else set, rest)
    | _ => none
  | _ => none

/-- One character or class inside brackets. -/
private def readMember? : List Char → Option (Escape × List Char)
  | [] => none
  | '\\' :: rest =>
    match readEscape? rest with
    | some (.assertion _, _) => none
    | escape => escape
  | c :: rest => some (.char c, rest)

private def Escape.asSet? : Escape → Option CharSet
  | char c => some (.single c)
  | set chars => some chars
  | assertion _ => none

/-- A member of a class, or a range of characters. -/
private def readRange? (spaced : Bool) (text : List Char) : Option (CharSet × List Char) := do
  let (first, rest) ← readMember? (skipSpace spaced false text)
  let rest := skipSpace spaced false rest
  let alone := do return (← first.asSet?, rest)
  match rest with
  | '-' :: after =>
    match (skipSpace spaced false after).head? with
    | some ']' => alone
    | some '-' => alone
    | _ =>
      let (last, rest) ← readMember? (skipSpace spaced false after)
      match first, last with
      | .char first, .char last => if first ≤ last then return (.range first last, rest) else none
      | _, _ => none
  | _ => alone

/-- How two parts of a class are combined. -/
private inductive SetOperator where
  | intersection
  | difference
  | symmetricDifference

private def readOperator? : List Char → Option (SetOperator × List Char)
  | '&' :: '&' :: rest => some (.intersection, rest)
  | '-' :: '-' :: rest => some (.difference, rest)
  | '~' :: '~' :: rest => some (.symmetricDifference, rest)
  | _ => none

private def SetOperator.combine (a b : CharSet) : SetOperator → CharSet
  | intersection => .inter a b
  | difference => .inter a (.complement b)
  | symmetricDifference => .union (.inter a (.complement b)) (.inter b (.complement a))

private def Flags.fold (flags : Flags) (set : CharSet) : CharSet :=
  if flags.ignoreCase then .folded set else set

/-- Puts the part read last behind the operator read before it. -/
private def joinParts (flags : Flags) (pending : Option (CharSet × SetOperator))
    (members : List CharSet) :
    CharSet :=
  let part := flags.fold (unionAll members)
  match pending with
  | some (set, operator) => operator.combine set part
  | none => part

/-- The rest of a class after its opening bracket. `members` belong to the part
    being read, and `pending` is what an operator combines with it. -/
private def readClass? (flags : Flags) :
    Nat → Option (CharSet × SetOperator) → List CharSet → List Char →
    Option (CharSet × List Char)
  | 0, _, _, _ => none
  | fuel + 1, pending, members, text =>
    match skipSpace flags.spaced false text with
    | [] => none
    | ']' :: rest => some (joinParts flags pending members, rest)
    | '[' :: rest =>
      match readAsciiClass? rest with
      | some (set, rest) => readClass? flags fuel pending (members ++ [set]) rest
      | none => do
        let (set, rest) ← openClass? flags fuel rest
        readClass? flags fuel pending (members ++ [set]) rest
    | text =>
      match readOperator? text with
      | some (operator, rest) =>
        readClass? flags fuel (some (joinParts flags pending members, operator)) [] rest
      | none => do
        let (set, rest) ← readRange? flags.spaced text
        readClass? flags fuel pending (members ++ [set]) rest
where
  /-- A class after its opening bracket: a negation, and dashes or a closing
      bracket in front, which stand for themselves. -/
  openClass? (flags : Flags) : Nat → List Char → Option (CharSet × List Char)
    | 0, _ => none
    | fuel + 1, text => do
      let text := skipSpace flags.spaced false text
      let (negated, text) := match text with
        | '^' :: rest => (true, skipSpace flags.spaced false rest)
        | text => (false, text)
      let dashes := text.takeWhile (· = '-')
      let text := text.drop dashes.length
      let (members, text) := match text with
        | ']' :: rest => if dashes.isEmpty then ([CharSet.single ']'], rest)
            else ([CharSet.single '-'], text)
        | text => (if dashes.isEmpty then [] else [CharSet.single '-'], text)
      let (set, rest) ← readClass? flags fuel none members text
      return (if negated then .complement set else set, rest)

private def Flags.dot (flags : Flags) : CharSet :=
  if flags.dotAll then .any else .complement (.single '\n')

/-- A run of digits as a bound of a repetition, with blanks around it. -/
private def readBound? (text : List Char) : Option (Nat × List Char) :=
  let text := text.dropWhile Text.isBlank
  let digits := text.takeWhile Char.isDigit
  let value := digits.foldl (fun value c => value * 10 + (c.toNat - '0'.toNat)) 0
  if digits.isEmpty || 0x100000000 ≤ value then none
  else some (value, (text.drop digits.length).dropWhile Text.isBlank)

/-- The bounds of a repetition after its opening brace. -/
private def readBounds? (spaced : Bool) (text : List Char) :
    Option ((Nat × Option Nat) × List Char) := do
  let (least, rest) ← readBound? text
  match rest with
  | '\x7d' :: rest => return ((least, some least), rest)
  | ',' :: rest =>
    match skipSpace spaced false rest with
    | '\x7d' :: rest => return ((least, none), rest)
    | rest =>
      let (most, rest) ← readBound? rest
      match rest with
      | '\x7d' :: rest => if least ≤ most then return ((least, some most), rest) else none
      | _ => none
  | _ => none

/-- A repetition mark and its bounds. -/
private def readRepetition? (spaced : Bool) :
    List Char → Option (Option ((Nat × Option Nat) × List Char))
  | '*' :: rest => some (some ((0, none), rest))
  | '+' :: rest => some (some ((1, none), rest))
  | '?' :: rest => some (some ((0, some 1), rest))
  | '\x7b' :: rest => (readBounds? spaced rest).map some
  | _ => some none

/-- All repetition marks after an expression. -/
private def readRepetitions? (flags : Flags) :
    Nat → Pattern → List Char → Option (Pattern × List Char)
  | 0, _, _ => none
  | fuel + 1, body, text => do
    match ← readRepetition? flags.spaced (skipSpace flags.spaced false text) with
    | none => return (body, text)
    | some ((least, most), rest) =>
      let (lazy_, rest) := match rest with
        | '?' :: rest => (true, rest)
        | rest => (false, rest)
      readRepetitions? flags fuel (.rounds body least most (lazy_ == flags.swapGreed)) rest

private def isNameStart (c : Char) : Bool :=
  c = '_' || c.isAlpha || (128 ≤ c.toNat && Text.isAlphanumeric c)

private def isNameChar (c : Char) : Bool :=
  isNameStart c || c.isDigit || c = '.' || c = '[' || c = ']'

/-- The name of a group up to its closing mark; a name may be given once. -/
private def readName? (names : List (List Char)) (text : List Char) :
    Option (List Char × List Char) :=
  let name := text.takeWhile (· ≠ '>')
  match name, text.drop name.length with
  | first :: more, '>' :: rest =>
    if isNameStart first && more.all isNameChar && !names.contains name then some (name, rest)
    else none
  | _, _ => none

/-- Flags after a question mark, up to the colon or parenthesis that ends them.
    Each letter may occur once, and a dash needs one after it. -/
private def readFlags? (flags : Flags) (letters : List Char) (value fresh : Bool) :
    List Char → Option (Flags × Bool × List Char)
  | [] => none
  | c :: rest =>
    if c = ':' then if fresh && !value then none else some (flags, true, rest)
    else if c = ')' then if fresh then none else some (flags, false, rest)
    else if c = '-' then if value then readFlags? flags letters false true rest else none
    else if letters.contains c then none
    else do
      let flags ← flags.set value c
      readFlags? flags (c :: letters) value false rest

/-- The state of reading: what is in force, and the group names used so far. -/
private structure Context where
  flags : Flags := {}
  names : List (List Char) := []

mutual

/-- Alternatives up to a closing parenthesis or the end. -/
private def readAlternatives? : Nat → Context → List Char → Option (Pattern × Context × List Char)
  | 0, _, _ => none
  | fuel + 1, context, text => do
    let (first, context, rest) ← readSequence? fuel context .empty text
    match rest with
    | '|' :: rest =>
      let (others, context, rest) ← readAlternatives? fuel context rest
      return (.alt first others, context, rest)
    | _ => return (first, context, rest)

/-- Expressions in a row, after the ones read already. -/
private def readSequence? :
    Nat → Context → Pattern → List Char → Option (Pattern × Context × List Char)
  | 0, _, _, _ => none
  | fuel + 1, context, read, text => do
    let flags := context.flags
    let continue_ (atom : Pattern) (context : Context) (rest : List Char) :
        Option (Pattern × Context × List Char) := do
      let (repeated, rest) ← readRepetitions? flags (rest.length + 1) atom rest
      readSequence? fuel context (.seq read repeated) rest
    match skipSpace flags.spaced false text with
    | [] => return (read, context, [])
    | c :: rest =>
      if c = '|' || c = ')' then return (read, context, c :: rest)
      else if c = '(' then
        match rest with
        | '?' :: rest =>
          let named := match rest with
            | 'P' :: '<' :: rest => some rest
            | '<' :: rest =>
              if rest.head? == some '=' || rest.head? == some '!' then none else some rest
            | _ => none
          match named with
          | some rest =>
            let (name, rest) ← readName? context.names rest
            let (body, inner, rest) ←
              readGroup? fuel { context with names := name :: context.names } rest
            continue_ body { context with names := inner.names } rest
          | none =>
            let (flags, isGroup, rest) ← readFlags? flags [] true true rest
            if isGroup then
              let (body, inner, rest) ← readGroup? fuel { context with flags } rest
              continue_ body { context with names := inner.names } rest
            else if startsRepetition (skipSpace flags.spaced false rest) then none
            else readSequence? fuel { context with flags } read rest
        | rest =>
          let (body, inner, rest) ← readGroup? fuel context rest
          continue_ body { context with names := inner.names } rest
      else if c = '[' then
        let (set, rest) ← readClass?.openClass? flags (2 * rest.length + 2) rest
        continue_ (.char set) context rest
      else if c = '*' || c = '+' || c = '?' || c = '\x7b' then none
      else if c = '\\' then
        match ← readEscape? rest with
        | (.char c, rest) => continue_ (.char (flags.fold (.single c))) context rest
        | (.set set, rest) => continue_ (.char set) context rest
        | (.assertion assertion, rest) => continue_ (.assert assertion) context rest
      else if c = '.' then continue_ (.char flags.dot) context rest
      else if c = '^' then
        continue_ (.assert (if flags.multiLine then .lineStart else .textStart)) context rest
      else if c = '$' then
        continue_ (.assert (if flags.multiLine then .lineEnd else .textEnd)) context rest
      else continue_ (.char (flags.fold (.single c))) context rest
where
  startsRepetition : List Char → Bool
    | c :: _ => c = '*' || c = '+' || c = '?' || c = '\x7b'
    | [] => false

/-- The alternatives of a group and its closing parenthesis. -/
private def readGroup? : Nat → Context → List Char → Option (Pattern × Context × List Char)
  | 0, _, _ => none
  | fuel + 1, context, text => do
    let (body, context, rest) ← readAlternatives? fuel context text
    match rest with
    | ')' :: rest => return (body, context, rest)
    | _ => none

end

/-- Reads a whole text as a regular expression. Whatever is not one gives
    `none`: parentheses and brackets that do not pair up, repetitions of
    nothing, empty or inverted bounds and ranges, unknown escapes, and
    look-around, back references and properties, which have no meaning here. No
    more than three calls nest for each character, and one for the end. -/
def read? (text : List Char) : Option Pattern := do
  let (pattern, _, rest) ← readAlternatives? (4 * text.length + 4) {} text
  if rest.isEmpty then return pattern else none

/-- Reads a regular expression to look for it in texts. -/
def compile? (text : List Char) : Option Finder :=
  (read? text).map find

end GrammarKit.Pattern

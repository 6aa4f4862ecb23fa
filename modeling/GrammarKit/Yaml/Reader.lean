import GrammarKit.Yaml

namespace GrammarKit.Yaml

/-- The unread part of a text and the column it starts in. -/
private structure Cursor where
  rest : List Char
  column : Nat

private def isBlankOrEnd : List Char → Bool
  | [] => true
  | c :: _ => c = ' ' || c = '\t' || c = '\n' || c = '\r'

private def isFlowIndicator (c : Char) : Bool :=
  [',', '[', ']', '\x7b', '\x7d'].contains c

/-- Skips blanks, comments and line ends. Outside of flow collections a tab
    cannot indent a line. -/
private def skipGap (flow fresh comment : Bool) : List Char → Nat → Cursor
  | [], column => ⟨[], column⟩
  | c :: rest, column =>
    if c = '\n' || c = '\r' then skipGap flow true false rest 0
    else if comment then skipGap flow fresh true rest (column + 1)
    else if c = ' ' || (c = '\t' && (flow || !fresh)) then
      skipGap flow fresh false rest (column + 1)
    else if c = '#' then skipGap flow fresh true rest (column + 1)
    else ⟨c :: rest, column⟩

private def Cursor.next (flow : Bool) (cursor : Cursor) : Cursor :=
  skipGap flow (cursor.column == 0) false cursor.rest cursor.column

private def Cursor.skipSpaces (cursor : Cursor) : Cursor :=
  let blanks := cursor.rest.takeWhile fun c => c = ' ' || c = '\t'
  ⟨cursor.rest.drop blanks.length, cursor.column + blanks.length⟩

private def Cursor.skip (cursor : Cursor) (count : Nat) : Cursor :=
  ⟨cursor.rest.drop count, cursor.column + count⟩

/-- Whether a line of three dashes or dots starts here. -/
private def Cursor.atMarker (cursor : Cursor) : Bool :=
  cursor.column == 0 &&
    (["---", "..."].any fun marker =>
      marker.toList.isPrefixOf cursor.rest && isBlankOrEnd (cursor.rest.drop 3))

private def startsEntry : List Char → Bool
  | '-' :: rest => isBlankOrEnd rest
  | _ => false

private def startsValue (flow : Bool) : List Char → Bool
  | ':' :: rest => isBlankOrEnd rest || (flow && (rest.head?.map isFlowIndicator).getD false)
  | _ => false

/-- The rest of the line that belongs to a plain scalar, in reverse. -/
private def plainLine (flow spaced : Bool) (read : List Char) : List Char → Nat → List Char × Cursor
  | [], column => (read, ⟨[], column⟩)
  | c :: rest, column =>
    if c = '\n' || c = '\r' || (c = '#' && spaced) || startsValue flow (c :: rest) ||
        (flow && isFlowIndicator c) then
      (read, ⟨c :: rest, column⟩)
    else plainLine flow (c = ' ' || c = '\t') (c :: read) rest (column + 1)

private def trimmed (reversed : List Char) : List Char :=
  (reversed.dropWhile fun c => c = ' ' || c = '\t').reverse

private def canStartPlain (flow : Bool) : List Char → Bool
  | [] => false
  | c :: rest =>
    if c = '-' || c = '?' || c = ':' then
      !isBlankOrEnd rest && !(flow && (rest.head?.map isFlowIndicator).getD false)
    else !([',', '[', ']', '\x7b', '\x7d', '#', '&', '*', '!', '|', '>', '\'', '"',
      '%', '@', '\x60', '\n', '\t'].contains c)

/-- Line ends in front of the next text, the text, and its column. -/
private def lineEnds : Nat → List Char → Nat → Nat × Cursor
  | count, [], column => (count, ⟨[], column⟩)
  | count, c :: rest, column =>
    if c = '\n' then lineEnds (count + 1) rest 0
    else if c = '\r' then lineEnds count rest column
    else if c = ' ' || c = '\t' then lineEnds count rest (column + 1)
    else (count, ⟨c :: rest, column⟩)

/-- What a run of line ends inside a scalar stands for. -/
private def folded (count : Nat) : List Char :=
  if count ≤ 1 then [' '] else List.replicate (count - 1) '\n'

/-- Goes on with a plain scalar on the following lines, as long as they are indented enough. -/
private def plainLines (flow : Bool) (indent : Nat) :
    Nat → List Char → Cursor → Option (List Char × Cursor)
  | 0, _, _ => none
  | fuel + 1, read, cursor =>
    match cursor.rest with
    | c :: _ =>
      if c = '\n' || c = '\r' then
        let (count, line) := lineEnds 0 cursor.rest cursor.column
        let stops := line.rest.isEmpty || line.column < indent || line.rest.head? == some '#' ||
          line.atMarker || (flow && (line.rest.head?.map isFlowIndicator).getD false) ||
          startsValue flow line.rest
        if stops then some (read, cursor)
        else
          let (reversed, after) := plainLine flow false [] line.rest line.column
          if !flow && startsValue false after.rest then none
          else plainLines flow indent fuel (read ++ folded count ++ trimmed reversed) after
      else some (read, cursor)
    | [] => some (read, cursor)

private def shortEscape? : Char → Option Char
  | '0' => some '\x00'
  | 'a' => some '\x07'
  | 'b' => some '\x08'
  | 't' => some '\t'
  | '\t' => some '\t'
  | 'n' => some '\n'
  | 'v' => some '\x0b'
  | 'f' => some '\x0c'
  | 'r' => some '\r'
  | 'e' => some '\x1b'
  | ' ' => some ' '
  | '"' => some '"'
  | '/' => some '/'
  | '\\' => some '\\'
  | 'N' => some '\u0085'
  | '_' => some '\u00a0'
  | 'L' => some '\u2028'
  | 'P' => some '\u2029'
  | _ => none

private def codeLength? : Char → Option Nat
  | 'x' => some 2
  | 'u' => some 4
  | 'U' => some 8
  | _ => none

private def hexDigit? (c : Char) : Option Nat :=
  if c.isDigit then some (c.toNat - '0'.toNat)
  else if 'a' ≤ c && c ≤ 'f' then some (c.toNat - 'a'.toNat + 10)
  else if 'A' ≤ c && c ≤ 'F' then some (c.toNat - 'A'.toNat + 10)
  else none

private def codeChar? (digits : List Char) : Option Char := do
  let values ← digits.mapM hexDigit?
  let code := values.foldl (fun n digit => n * 16 + digit) 0
  if code < 0xd800 || (0xe000 ≤ code && code < 0x110000) then return Char.ofNat code else none

/-- The text of a quoted scalar up to its closing quote, in reverse. Line ends
    are folded together with the blanks around them. -/
private def quotedText (double : Bool) : Nat → List Char → Cursor → Option (List Char × Cursor)
  | 0, _, _ => none
  | fuel + 1, read, ⟨text, column⟩ =>
    match text with
    | [] => none
    | c :: rest =>
      if c = '\n' || c = '\r' then
        let (count, line) := lineEnds 0 text column
        if line.atMarker then none
        else quotedText double fuel ((folded count).reverse ++ (trimmed read).reverse) line
      else if double then
        if c = '"' then some (read, ⟨rest, column + 1⟩)
        else if c = '\\' then
          match rest with
          | [] => none
          | letter :: rest =>
            if letter = '\n' then
              let (_, line) := lineEnds 0 rest 0
              quotedText double fuel read line
            else
              match codeLength? letter with
              | some count => do
                let digits := rest.take count
                if digits.length < count then none
                else
                  let c ← codeChar? digits
                  quotedText double fuel (c :: read) ⟨rest.drop count, column + count + 2⟩
              | none => do
                let c ← shortEscape? letter
                quotedText double fuel (c :: read) ⟨rest, column + 2⟩
        else quotedText double fuel (c :: read) ⟨rest, column + 1⟩
      else if c = '\'' then
        match rest with
        | '\'' :: rest => quotedText double fuel ('\'' :: read) ⟨rest, column + 2⟩
        | _ => some (read, ⟨rest, column + 1⟩)
      else quotedText double fuel (c :: read) ⟨rest, column + 1⟩

private def quoted? (cursor : Cursor) : Option (Yaml × Cursor) :=
  let fuel := cursor.rest.length + 1
  let closed := match cursor.rest with
    | '"' :: rest => quotedText true fuel [] ⟨rest, cursor.column + 1⟩
    | '\'' :: rest => quotedText false fuel [] ⟨rest, cursor.column + 1⟩
    | _ => none
  closed.map fun (reversed, cursor) => (scalar none false (String.ofList reversed.reverse), cursor)

/-- The tag that starts here, without its first mark. The short form of the
    common tags is spelled out. -/
private def readTag (flow : Bool) (text : List Char) : String × Nat :=
  let name := text.takeWhile fun c => !isBlankOrEnd [c] && !(flow && isFlowIndicator c)
  let inner := match name with
    | '!' :: '!' :: rest => "tag:yaml.org,2002:" ++ String.ofList rest
    | '!' :: rest => String.ofList rest
    | rest => String.ofList rest
  (inner, name.length)

/-- How a block scalar ends: with one line end, with none, or with all of them. -/
private inductive Chomping where
  | clip
  | strip
  | keep

private def readHeader : List Char → Option (Chomping × Option Nat)
  | [] => some (.clip, none)
  | c :: rest => do
    let (chomping, indent) ← readHeader rest
    if c = '-' then return (.strip, indent)
    else if c = '+' then return (.keep, indent)
    else if '1' ≤ c && c ≤ '9' then return (chomping, some (c.toNat - '0'.toNat))
    else none

/-- The lines of a block scalar that are indented by at least `indent`, and what
    follows them. -/
private def blockLines (indent : Nat) : Nat → List Char → List (List Char) × List Char
  | 0, text => ([], text)
  | fuel + 1, text =>
    let line := text.takeWhile (· ≠ '\n')
    let spaces := (line.takeWhile (· = ' ')).length
    if text.isEmpty || (spaces < indent && spaces < line.length) then ([], text)
    else
      let (lines, after) := blockLines indent fuel (text.drop (line.length + 1))
      (line.drop indent :: lines, after)

/-- Joins neighbouring lines by a blank; empty lines and lines with further
    indentation keep their line ends. -/
private def joinFolded : List (List Char) → List Char
  | [] => []
  | [line] => line
  | line :: next :: rest =>
    let more := joinFolded (next :: rest)
    if line.isEmpty then '\n' :: more
    else if next.isEmpty then line ++ more
    else if line.head? == some ' ' || next.head? == some ' ' then line ++ '\n' :: more
    else line ++ ' ' :: more

private def joinLines : List (List Char) → List Char
  | [] => []
  | [line] => line
  | line :: rest => line ++ '\n' :: joinLines rest

/-- A literal or folded block scalar below a node whose children are indented by
    `indent` or more. -/
private def blockScalar? (indent : Nat) (cursor : Cursor) : Option (Yaml × Cursor) := do
  let mark ← cursor.rest.head?
  let header := cursor.rest.tail.takeWhile fun c => c ≠ ' ' && c ≠ '\n' && c ≠ '\r'
  let (chomping, given) ← readHeader header
  let text := (cursor.rest.dropWhile (· ≠ '\n')).tail
  let firstLine := (text.dropWhile (· = '\n')).takeWhile (· ≠ '\n')
  let found := (firstLine.takeWhile (· = ' ')).length
  let depth := max indent (match given with
    | some extra => indent - 1 + extra
    | none => found)
  let (lines, after) := blockLines depth (text.length + 1) text
  let kept := (lines.reverse.dropWhile List.isEmpty).reverse
  let body := if mark = '>' then joinFolded kept else joinLines kept
  let ending := match chomping with
    | .clip => if kept.isEmpty then [] else ['\n']
    | .strip => []
    | .keep => List.replicate (lines.length - kept.length + (if kept.isEmpty then 0 else 1)) '\n'
  return (scalar none false (String.ofList (body ++ ending)), ⟨after, 0⟩)

mutual

/-- A node inside a flow collection. -/
private def flowNode? : Nat → Cursor → Option (Yaml × Cursor)
  | 0, _ => none
  | fuel + 1, cursor =>
    let cursor := cursor.next true
    match cursor.rest with
    | '[' :: _ => (flowItems? fuel (cursor.skip 1)).map fun (items, cursor) =>
      (sequence none items, cursor)
    | '\x7b' :: _ =>
      (flowEntries? fuel (cursor.skip 1)).map fun (entries, cursor) =>
        (mapping none entries, cursor)
    | '"' :: _ => quoted? cursor
    | '\'' :: _ => quoted? cursor
    | '!' :: _ =>
      let (tag, length) := readTag true cursor.rest
      let after := (cursor.skip length).next true
      match after.rest with
      | c :: _ =>
        if c = ',' || c = ']' || c = '\x7d' then some (absent.withTag (some tag), after)
        else (flowNode? fuel after).map fun (node, cursor) => (node.withTag (some tag), cursor)
      | [] => none
    | text =>
      if canStartPlain true text then do
        let (reversed, after) := plainLine true false [] text cursor.column
        let (read, after) ← plainLines true 0 (text.length + 1) (trimmed reversed) after
        return (scalar none true (String.ofList read), after)
      else none

/-- The value after a key inside a flow collection, which may be missing. -/
private def flowValue? : Nat → Cursor → Option (Yaml × Cursor)
  | 0, _ => none
  | fuel + 1, cursor =>
    let cursor := cursor.next true
    match cursor.rest with
    | ',' :: _ => some (absent, cursor)
    | ']' :: _ => some (absent, cursor)
    | '\x7d' :: _ => some (absent, cursor)
    | _ => flowNode? fuel cursor

private def flowItems? : Nat → Cursor → Option (List Yaml × Cursor)
  | 0, _ => none
  | fuel + 1, cursor => do
    let cursor := cursor.next true
    match cursor.rest with
    | ']' :: _ => return ([], cursor.skip 1)
    | _ =>
      let (item, cursor) ← flowNode? fuel cursor
      let cursor := cursor.next true
      let (item, cursor) ← match cursor.rest with
        | ':' :: _ =>
          (flowValue? fuel (cursor.skip 1)).map fun (value, cursor) =>
            (mapping none [(item, value)], cursor)
        | _ => some (item, cursor)
      let cursor := cursor.next true
      match cursor.rest with
      | ',' :: _ => (flowItems? fuel (cursor.skip 1)).map fun (items, cursor) =>
        (item :: items, cursor)
      | ']' :: _ => return ([item], cursor.skip 1)
      | _ => none

private def flowEntries? : Nat → Cursor → Option (List (Yaml × Yaml) × Cursor)
  | 0, _ => none
  | fuel + 1, cursor => do
    let cursor := cursor.next true
    match cursor.rest with
    | '\x7d' :: _ => return ([], cursor.skip 1)
    | _ =>
      let (key, cursor) ← flowNode? fuel cursor
      let cursor := cursor.next true
      let (value, cursor) ← match cursor.rest with
        | ':' :: _ => flowValue? fuel (cursor.skip 1)
        | _ => some (absent, cursor)
      let cursor := cursor.next true
      match cursor.rest with
      | ',' :: _ =>
        (flowEntries? fuel (cursor.skip 1)).map fun (entries, cursor) =>
          ((key, value) :: entries, cursor)
      | '\x7d' :: _ => return ([(key, value)], cursor.skip 1)
      | _ => none

end

/-- A scalar on one line that is followed by a colon, and the place after the colon. -/
private def blockKey? (cursor : Cursor) : Option (Yaml × Cursor) := do
  let (key, after) ←
    if cursor.rest.head? == some '"' || cursor.rest.head? == some '\'' then quoted? cursor
    else if canStartPlain false cursor.rest then
      let (reversed, after) := plainLine false false [] cursor.rest cursor.column
      some (scalar none true (String.ofList (trimmed reversed)), after)
    else none
  let after := after.skipSpaces
  if startsValue false after.rest then return (key, after.skip 1) else none

mutual

/-- A node whose text has to start in column `indent` or later. `compact` tells
    whether a collection may start on the current line, and `dashes` whether a
    sequence may start one column before. -/
private def blockNode? (indent : Nat) (compact dashes : Bool) :
    Nat → Cursor → Option (Yaml × Cursor)
  | 0, _ => none
  | fuel + 1, cursor =>
    let next := cursor.next false
    let sameLine := cursor.skipSpaces.rest.length == next.rest.length && cursor.column ≤ next.column
    let open_ := compact || !sameLine
    if next.rest.isEmpty || next.atMarker then some (absent, next)
    else if dashes && !sameLine && next.column + 1 == indent && startsEntry next.rest then
      (blockItems? next.column fuel next).map fun (items, cursor) => (sequence none items, cursor)
    else if next.column < indent then some (absent, next)
    else if startsEntry next.rest then
      if open_ then
        (blockItems? next.column fuel next).map fun (items, cursor) => (sequence none items, cursor)
      else none
    else
      match next.rest with
      | '!' :: _ =>
        let (tag, length) := readTag false next.rest
        (blockNode? indent false dashes fuel (next.skip length)).map fun (node, cursor) =>
          (node.withTag (some tag), cursor)
      | '[' :: _ => flowNode? (2 * next.rest.length + 2) next
      | '\x7b' :: _ => flowNode? (2 * next.rest.length + 2) next
      | '|' :: _ => blockScalar? indent next
      | '>' :: _ => blockScalar? indent next
      | text =>
        match blockKey? next with
        | some (key, after) =>
          if open_ then
            (blockEntries? next.column key fuel after).map fun (entries, cursor) =>
              (mapping none entries, cursor)
          else none
        | none =>
          if text.head? == some '"' || text.head? == some '\'' then quoted? next
          else if canStartPlain false text then do
            let (reversed, after) := plainLine false false [] text next.column
            let (read, after) ← plainLines false indent (text.length + 1) (trimmed reversed) after
            return (scalar none true (String.ofList read), after)
          else none

/-- The entries of a mapping in `column`, from the value of `key` on. -/
private def blockEntries? (column : Nat) (key : Yaml) :
    Nat → Cursor → Option (List (Yaml × Yaml) × Cursor)
  | 0, _ => none
  | fuel + 1, cursor => do
    let (value, cursor) ← blockNode? (column + 1) false true fuel cursor
    let next := cursor.next false
    if next.rest.isEmpty || next.atMarker || next.column < column then return ([(key, value)], next)
    else if column < next.column then none
    else
      let (nextKey, after) ← blockKey? next
      let (entries, cursor) ← blockEntries? column nextKey fuel after
      return ((key, value) :: entries, cursor)

/-- The items of a sequence whose dashes stand in `column`. -/
private def blockItems? (column : Nat) : Nat → Cursor → Option (List Yaml × Cursor)
  | 0, _ => none
  | fuel + 1, cursor => do
    let (item, cursor) ← blockNode? (column + 1) true false fuel (cursor.skip 1)
    let next := cursor.next false
    if !next.atMarker && next.column == column && startsEntry next.rest then
      let (items, cursor) ← blockItems? column fuel next
      return (item :: items, cursor)
    else if next.rest.isEmpty || next.column ≤ column then return ([item], next)
    else none

end

/-- Whether nothing but blanks and comments follows a document, or its end marker. -/
private def endsDocument (cursor : Cursor) : Bool :=
  let next := cursor.next false
  next.rest.isEmpty ||
    ("...".toList.isPrefixOf next.rest && next.atMarker && ((next.skip 3).next false).rest.isEmpty)

/-- Reads a text that holds one document, or none: block and flow collections,
    plain, quoted and block scalars, tags and comments. Anchors, aliases,
    directives and explicit keys are refused. Each call that nests consumes a
    character or follows one that did, which bounds their depth. -/
def read? (text : String) : Option Yaml := do
  let chars := text.toList
  let first : Cursor := (Cursor.mk chars 0).next false
  let start := if first.atMarker && "---".toList.isPrefixOf first.rest then first.skip 3 else first
  let (node, cursor) ← blockNode? 0 true false (4 * chars.length + 4) start
  if endsDocument cursor then return node else none

end GrammarKit.Yaml

import Retarget.Json.Parser
import Retarget.Toml.Scalar

/-!
# Reading TOML texts

A document is a sequence of lines: blank, a comment, a key with its value, or a header. Main
definition: `Toml.parse?`.
-/

namespace Retarget.Toml

/-! ## Blanks and comments -/

/-- The blanks within a line. -/
def isBlank (c : Char) : Bool := c = ' ' || c = '\t'

/-- The characters of comments and texts: all but control characters other than the tab. -/
def isTextChar (c : Char) : Bool := c = '\t' || (32 ≤ c.toNat && c.toNat ≠ 127)

/-- Skips blanks within a line. -/
def blanks : Scanner Unit := do
  let _ ← Scanner.takeWhile isBlank

/-- Reads the end of a line. -/
def newline : Scanner Unit := do
  let _ ← Scanner.accept '\r'
  Scanner.char '\n'

/-- Reads the end of a line or of the document. -/
def lineEnd : Scanner Unit := Scanner.atEnd <|> newline

/-- Reads a comment up to the end of its line. -/
def comment : Scanner Unit := do
  Scanner.char '#'
  let _ ← Scanner.takeWhile isTextChar

/-- Reads blanks, an optional comment and the end of the line. -/
def trailing : Scanner Unit := do
  blanks
  if (← Scanner.peek?) = some '#' then comment
  lineEnd

/-- One step over the blanks, comments and line ends between the items of an array. -/
def gapStep (_ : Unit) : Scanner (Unit ⊕ Unit) := do
  match (← Scanner.peek?) with
  | some '#' => comment; return .inl ()
  | some '\n' | some '\r' => newline; return .inl ()
  | some ' ' | some '\t' => blanks; return .inl ()
  | _ => return .inr ()

/-- Skips what may stand between the items of an array. -/
def gap : Scanner Unit := do
  -- A step that goes on reads a character, so the fuel lasts; likewise for the loops below.
  Scanner.loop gapStep ((← Scanner.remaining) + 1) ()

/-! ## Texts -/

/-- Reads a code point of `count` hexadecimal digits. -/
def codePoint (count : Nat) : Scanner Char := do
  let n ← Json.hexDigits count 0
  if n.isValidChar then return Char.ofNat n else failure

/-- Reads what follows a backslash. -/
def escaped : Scanner Char := do
  match (← Scanner.next) with
  | 'b' => return Char.ofNat 8
  | 't' => return '\t'
  | 'n' => return '\n'
  | 'f' => return Char.ofNat 12
  | 'r' => return '\r'
  | '"' => return '"'
  | '\\' => return '\\'
  | 'u' => codePoint 4
  | 'U' => codePoint 8
  | _ => failure

/-- A text that is complete, or its characters so far in reverse. -/
abbrev TextStep := List Char ⊕ String

/-- One step of a text on one line; without escapes a backslash stands for itself. -/
def lineStep (delimiter : Char) (escapes : Bool) (text : List Char) : Scanner TextStep := do
  let c ← Scanner.next
  if c = delimiter then return .inr (String.ofList text.reverse)
  else if escapes && c = '\\' then return .inl ((← escaped) :: text)
  else if isTextChar c then return .inl (c :: text)
  else failure

/-- Skips all blanks and line ends. -/
def skipLines : Scanner Unit := do
  Scanner.loop (fun _ => do
    match (← Scanner.peek?) with
    | some ' ' | some '\t' => blanks; return .inl ()
    | some '\n' | some '\r' => newline; return .inl ()
    | _ => return .inr ()) ((← Scanner.remaining) + 1) ()

/-- Reads a backslash at the end of a line, which joins it with the next text. -/
def lineJoin : Scanner Unit := do
  Scanner.char '\\'
  blanks
  newline
  skipLines

/-- Reads a run of delimiters inside a text over several lines: one or two stand for themselves,
    and the last three of three to five end the text. -/
def delimiterRun (delimiter : Char) (text : List Char) : Scanner TextStep := do
  let run := (← Scanner.takeWhile (· = delimiter)).length
  if run < 3 then return .inl (List.replicate run delimiter ++ text)
  else if run ≤ 5 then
    return .inr (String.ofList (List.replicate (run - 3) delimiter ++ text).reverse)
  else failure

/-- One step of a text over several lines, in which every line end counts as a line feed. -/
def blockStep (delimiter : Char) (escapes : Bool) (text : List Char) : Scanner TextStep := do
  match (← Scanner.peek?) with
  | none => failure
  | some c =>
    if c = delimiter then delimiterRun delimiter text
    else if c = '\n' || c = '\r' then do
      newline
      return .inl ('\n' :: text)
    else if escapes && c = '\\' then
      -- It joins lines if only blanks follow on its line, and otherwise begins an escape.
      (do lineJoin; return .inl text) <|>
      (do let _ ← Scanner.next; return .inl ((← escaped) :: text))
    else do
      let c ← Scanner.satisfy isTextChar
      return .inl (c :: text)

/-- Reads a text on one line. -/
def lineText (delimiter : Char) : Scanner String := do
  Scanner.char delimiter
  Scanner.loop (lineStep delimiter (delimiter = '"')) ((← Scanner.remaining) + 1) []

/-- Reads a text over several lines. A line end right after the opening does not count. -/
def blockText (delimiter : Char) : Scanner String := do
  Scanner.literal [delimiter, delimiter, delimiter]
  newline <|> pure ()
  Scanner.loop (blockStep delimiter (delimiter = '"')) ((← Scanner.remaining) + 1) []

/-- Reads a text in any style, with the bytes it takes. -/
def text (delimiter : Char) : Scanner Node := do
  let start ← Scanner.offset
  let rest := (← get).rest
  -- Two delimiters without a third are a whole text, the empty one.
  let s ← if [delimiter, delimiter, delimiter].isPrefixOf rest then blockText delimiter
    else lineText delimiter
  return .text s ⟨start, ← Scanner.offset⟩

/-! ## Keys -/

/-- The characters of a key without quotes. -/
def isKeyChar (c : Char) : Bool := c.isAlphanum || c = '_' || c = '-'

/-- Reads one segment of a key. -/
def simpleKey : Scanner String := do
  match (← Scanner.peek?) with
  | some '"' => lineText '"'
  | some '\'' => lineText '\''
  | _ => return String.ofList (← Scanner.takeWhile1 isKeyChar)

/-- The number of levels that values and keys stay below. -/
def depthLimit : Nat := 80

/-- One step over the segments of a key, which are in reverse. -/
def keyStep (segments : List String) : Scanner (List String ⊕ List String) := do
  blanks
  let segment ← simpleKey
  blanks
  if (← Scanner.accept '.') then return .inl (segment :: segments)
  else return .inr (segment :: segments)

/-- Reads a dotted key: the path to its table and the key in it. -/
def key : Scanner (List String × String) := do
  match (← Scanner.loop keyStep ((← Scanner.remaining) + 1) []) with
  | [] => failure
  -- The segments are in reverse, so the key itself comes first.
  | last :: path =>
    if path.length + 1 < depthLimit then return (path.reverse, last) else failure

/-! ## Values -/

/-- The characters of the words that stand for numbers, dates and truth values. -/
def isWordChar (c : Char) : Bool :=
  c.isAlphanum || c = '_' || c = '-' || c = '+' || c = '.' || c = ':'

/-- Reads a word; a date may be followed by a blank and a time. -/
def word : Scanner Node := do
  let first ← Scanner.takeWhile1 isWordChar
  let whole ←
    -- A blank that no time follows is left to what comes after the value.
    if isDate first then
      (do
        Scanner.char ' '
        let second ← Scanner.takeWhile1 isWordChar
        return first ++ ' ' :: second) <|> pure first
    else pure first
  match scalar? whole with
  | some v => return v
  | none => failure

/-- Reads the items of an array up to its end, each by `item`. -/
def itemStep (item : Scanner Node) (items : List Node) : Scanner (List Node ⊕ List Node) := do
  gap
  -- The end is also allowed after a comma.
  if (← Scanner.accept ']') then return .inr items.reverse
  let v ← item
  gap
  if (← Scanner.accept ',') then return .inl (v :: items)
  Scanner.char ']'
  return .inr (v :: items).reverse

/-- Reads one entry of an inline table after the entries so far, the value by `item`. -/
def entryStep (item : Scanner Node) (es : Entries) : Scanner (Entries ⊕ Entries) := do
  let (path, last) ← key
  Scanner.char '='
  blanks
  let v ← item
  blanks
  match es.put path last v with
  | none => failure
  | some es =>
    if (← Scanner.accept ',') then return .inl es
    Scanner.char '\x7d'
    return .inr es

/-- Reads a value that holds no others. -/
def simpleValue : Scanner Node := do
  match (← Scanner.peek?) with
  | some '"' => text '"'
  | some '\'' => text '\''
  | _ => word

/-- Reads a value in which `levels` more levels may be nested. -/
def value : (levels : Nat) → Scanner Node
  | 0 => simpleValue
  | levels + 1 => do
    if (← Scanner.accept '[') then
      return .array (← Scanner.loop (itemStep (value levels)) ((← Scanner.remaining) + 1) [])
    else if (← Scanner.accept '\x7b') then
      blanks
      if (← Scanner.accept '\x7d') then return .table .inlined []
      return .table .inlined
        (← Scanner.loop (entryStep (value levels)) ((← Scanner.remaining) + 1) [])
    else simpleValue

/-! ## Lines -/

/-- What has been read of a document: its entries and the path of the last header. -/
structure Draft where
  entries : Entries := []
  current : List String := []

/-- Goes on with the changed entries, if the change is allowed. -/
def Draft.update (current : List String) : Option Entries → Scanner Draft
  | some entries => return ⟨entries, current⟩
  | none => failure

/-- Reads a header. -/
def header (d : Draft) : Scanner Draft := do
  Scanner.char '['
  if (← Scanner.accept '[') then
    let (path, last) ← key
    Scanner.literal [']', ']']
    trailing
    Draft.update (path ++ [last]) (d.entries.append path last)
  else
    let (path, last) ← key
    Scanner.char ']'
    trailing
    Draft.update (path ++ [last]) (d.entries.declare path last)

/-- Reads a key with its value. -/
def assignment (d : Draft) : Scanner Draft := do
  let (path, last) ← key
  Scanner.char '='
  blanks
  let v ← value (depthLimit - 1)
  trailing
  Draft.update d.current (d.entries.putUnder d.current path last v)

/-- Reads one line. -/
def lineOf (d : Draft) : Scanner (Draft ⊕ Entries) := do
  blanks
  match (← Scanner.peek?) with
  | none => return .inr d.entries
  | some '#' => comment; lineEnd; return .inl d
  | some '\n' | some '\r' => newline; return .inl d
  | some '[' => return .inl (← header d)
  | _ => return .inl (← assignment d)

/-- Reads a document after an optional byte order mark. -/
def document : Scanner Entries := do
  let _ ← Scanner.accept (Char.ofNat 0xfeff)
  Scanner.loop lineOf ((← Scanner.remaining) + 1) {}

/-- The entries of the document that a text spells. -/
def parse? (s : String) : Option Entries := Scanner.runAll document s

end Retarget.Toml

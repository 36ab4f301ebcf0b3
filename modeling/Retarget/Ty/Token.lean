import Retarget.Text.Span

/-!
# Tokens of type texts

A type text is made of dotted names and the marks `<`, `>`, `,` and `?`, with blanks between
them. The scanner reads one character at a time and is always in one of three modes: between
tokens, inside a name, or after a dot that still needs a segment.

Main definitions:

* `Token.scan`     the located tokens of a text, or the first character that starts none
* `SyntaxError`    what can be wrong with a type text, with the place of the fault
-/

namespace Retarget

/-- A lexical unit of a type text. -/
inductive Token where
  /-- A dotted name, such as `Models.Item`. -/
  | ident (text : String)
  | lt
  | gt
  | comma
  | question
deriving DecidableEq, Repr, Inhabited

/-- What a token is called in a message. -/
inductive Token.Kind where
  | ident
  | lt
  | gt
  | comma
  | question
deriving DecidableEq, Repr, Inhabited

namespace Token

/-- The kind of a token, which forgets the text of a name. -/
def kind : Token → Kind
  | .ident _ => .ident
  | .lt => .lt
  | .gt => .gt
  | .comma => .comma
  | .question => .question

/-- How a kind of token is written in a message. -/
def Kind.render : Kind → String
  | .ident => "identifier"
  | .lt => "'<'"
  | .gt => "'>'"
  | .comma => "','"
  | .question => "'?'"

end Token

/-- The ways in which a type text can be malformed. -/
inductive SyntaxError.Cause where
  /-- No token starts with this character. -/
  | unexpectedCharacter (c : Char)
  /-- Another token, or the end of the text when `found` is absent, stands where `wanted` should. -/
  | expected (wanted : Token.Kind) (found : Option Token.Kind)
  /-- A complete type is followed by a further token. -/
  | trailing (found : Token.Kind)
  /-- A second `?` follows the first. -/
  | nestedNullable
deriving DecidableEq, Repr, Inhabited

/-- A fault in a type text and the bytes it covers. -/
structure SyntaxError where
  cause : SyntaxError.Cause
  span : Span
deriving DecidableEq, Repr, Inhabited

namespace SyntaxError

/-- The wording of a fault. -/
def Cause.describe : Cause → String
  | .unexpectedCharacter c => "unexpected character '" ++ String.singleton c ++ "'"
  | .expected wanted none => "expected " ++ wanted.render ++ ", found end of input"
  | .expected wanted (some found) => "expected " ++ wanted.render ++ ", found " ++ found.render
  | .trailing found => "unexpected " ++ found.render ++ " after type"
  | .nestedNullable => "nested nullable is not allowed"

/-- The full message of a syntax error. -/
def message (e : SyntaxError) : String :=
  "type syntax error: " ++ e.cause.describe

end SyntaxError

namespace Token

/-- The blanks that may stand between tokens. -/
def isBlank (c : Char) : Bool :=
  c = ' ' || c = '\t' || c = '\r' || c = '\n'

/-- The characters that can start a segment of a name. -/
def isNameStart (c : Char) : Bool :=
  c.isAlpha || c = '_'

/-- The characters that can continue a segment of a name. -/
def isNameChar (c : Char) : Bool :=
  c.isAlphanum || c = '_'

/-- The token that a single mark stands for. -/
def ofMark? : Char → Option Token
  | '<' => some .lt
  | '>' => some .gt
  | ',' => some .comma
  | '?' => some .question
  | _ => none

/-- What the scanner has read since the last complete token. Names are kept in reverse. -/
inductive Mode where
  /-- Nothing but blanks. -/
  | between
  /-- A name that began at `start`. -/
  | inName (start : Nat) (text : List Char)
  /-- A name followed by a dot that stands at `dot`. -/
  | afterDot (start : Nat) (text : List Char) (dot : Nat)

/-- The token for a finished name, which ends at `stop`. -/
def nameToken (start : Nat) (text : List Char) (stop : Nat) : Located Token :=
  ⟨.ident (String.ofList text.reverse), ⟨start, stop⟩⟩

/-- The fault of a character that starts no token. -/
def strayCharacter (c : Char) (pos : Nat) : SyntaxError :=
  ⟨.unexpectedCharacter c, ⟨pos, pos + c.utf8Size⟩⟩

/-- Reads a character that cannot continue a name: a blank, a mark or the start of a name. -/
def start (pos : Nat) (c : Char) : Except SyntaxError (List (Located Token) × Mode) :=
  if isBlank c then .ok ([], .between)
  else if isNameStart c then .ok ([], .inName pos [c])
  else
    match ofMark? c with
    | some t => .ok ([⟨t, ⟨pos, pos + c.utf8Size⟩⟩], .between)
    | none => .error (strayCharacter c pos)

/-- Reads one character at byte offset `pos`: the tokens that it completes and the next mode.
    A dot belongs to a name only if a segment follows it. -/
def step (mode : Mode) (pos : Nat) (c : Char) : Except SyntaxError (List (Located Token) × Mode) :=
  match mode with
  | .between => start pos c
  | .inName first text =>
    if isNameChar c then .ok ([], .inName first (c :: text))
    else if c = '.' then .ok ([], .afterDot first text pos)
    else
      match start pos c with
      | .ok (tokens, next) => .ok (nameToken first text pos :: tokens, next)
      | .error e => .error e
  | .afterDot first text dot =>
    if isNameStart c then .ok ([], .inName first (c :: '.' :: text))
    -- The name before the dot is fine by itself; the dot is what stands alone.
    else .error (strayCharacter '.' dot)

/-- The tokens that the end of the text completes. -/
def finish (mode : Mode) (pos : Nat) : Except SyntaxError (List (Located Token)) :=
  match mode with
  | .between => .ok []
  | .inName first text => .ok [nameToken first text pos]
  | .afterDot _ _ dot => .error (strayCharacter '.' dot)

/-- Scans the rest of a text from a given mode and byte offset. -/
def scanFrom (mode : Mode) (pos : Nat) : List Char → Except SyntaxError (List (Located Token))
  | [] => finish mode pos
  | c :: cs =>
    match step mode pos c with
    | .error e => .error e
    | .ok (tokens, next) =>
      match scanFrom next (pos + c.utf8Size) cs with
      | .error e => .error e
      | .ok rest => .ok (tokens ++ rest)

/-- The tokens of a text, in order. -/
def scan (text : List Char) : Except SyntaxError (List (Located Token)) :=
  scanFrom .between 0 text

end Token

end Retarget

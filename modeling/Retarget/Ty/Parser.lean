import Retarget.Ty.Basic
import Retarget.Ty.Token

/-!
# Reading type texts

The grammar is

    type ::= base | base '?'
    base ::= name | name '<' type (',' type)* '>'

where `?` means `Nullable<_>` and may not be repeated. The reader walks over the tokens once.
Its state is a stack of generic applications that are still open and a focus, which says what
has been read of the innermost type; `advance` takes one token and `complete` the end.

Main definitions:

* `Ty.ofTokens`   the type that a list of located tokens spells
* `Ty.parse`      the type that a text spells
-/

namespace Retarget

namespace Ty

/-- A generic application whose argument list is still open. Arguments are in reverse. -/
structure OpenGeneric where
  definition : String
  args : List Ty

/-- What has been read of the innermost type. -/
inductive Focus where
  /-- Nothing: a name has to come. -/
  | wanted
  /-- A name, which may still turn out to be applied to arguments. -/
  | name (n : String)
  /-- An application, which may still be marked as nullable. -/
  | applied (t : Ty)
  /-- A type with its `?`, which allows no second one. -/
  | marked (t : Ty)

/-- The type that the focus amounts to if it is read no further. -/
def Focus.type? : Focus → Option Ty
  | .wanted => none
  | .name n => some (.named n)
  | .applied t => some t
  | .marked t => some t

/-- The state of the reader between two tokens, innermost application first. -/
structure Progress where
  stack : List OpenGeneric
  focus : Focus

/-- Nothing has been read. -/
def Progress.start : Progress := ⟨[], .wanted⟩

/-- Reads a token after a complete type: it separates or closes arguments. -/
def Progress.afterType (stack : List OpenGeneric) (t : Ty) (tok : Token) :
    Except SyntaxError.Cause Progress :=
  match stack with
  | [] => .error (.trailing tok.kind)
  | g :: outer =>
    match tok with
    | .comma => .ok ⟨{ g with args := t :: g.args } :: outer, .wanted⟩
    | .gt => .ok ⟨outer, .applied (.generic g.definition (t :: g.args).reverse)⟩
    | _ => .error (.expected .gt (some tok.kind))

/-- Reads one token. -/
def Progress.advance (p : Progress) (tok : Token) : Except SyntaxError.Cause Progress :=
  match p.focus, tok with
  | .wanted, .ident n => .ok ⟨p.stack, .name n⟩
  | .wanted, _ => .error (.expected .ident (some tok.kind))
  | .name n, .lt => .ok ⟨⟨n, []⟩ :: p.stack, .wanted⟩
  | .name n, .question => .ok ⟨p.stack, .marked (nullable (.named n))⟩
  | .name n, _ => afterType p.stack (.named n) tok
  | .applied t, .question => .ok ⟨p.stack, .marked (nullable t)⟩
  | .applied t, _ => afterType p.stack t tok
  -- A second mark has a fault of its own, wherever the type stands.
  | .marked _, .question => .error .nestedNullable
  | .marked t, _ => afterType p.stack t tok

/-- The type that has been read when no token is left. -/
def Progress.complete (p : Progress) : Except SyntaxError.Cause Ty :=
  match p.focus.type?, p.stack with
  | none, _ => .error (.expected .ident none)
  | some t, [] => .ok t
  | some _, _ :: _ => .error (.expected .gt none)

/-- Reads the remaining tokens. A fault at a token has its span, one at the end the empty span
    at byte offset `stop`. -/
def Progress.read (stop : Nat) (p : Progress) : List (Located Token) → Except SyntaxError Ty
  | [] =>
    match p.complete with
    | .ok t => .ok t
    | .error cause => .error ⟨cause, ⟨stop, stop⟩⟩
  | tok :: rest =>
    match p.advance tok.value with
    | .ok next => read stop next rest
    | .error cause => .error ⟨cause, tok.span⟩

/-- The type that tokens spell in a text of `stop` bytes. -/
def ofTokens (stop : Nat) (tokens : List (Located Token)) : Except SyntaxError Ty :=
  Progress.start.read stop tokens

/-- The type that a list of characters spells. All of it is scanned before any of it is read. -/
def parseChars (text : List Char) : Except SyntaxError Ty :=
  match Token.scan text with
  | .ok tokens => ofTokens (byteSize text) tokens
  | .error e => .error e

/-- The type that a text spells. -/
def parse (text : String) : Except SyntaxError Ty :=
  parseChars text.toList

end Ty

end Retarget

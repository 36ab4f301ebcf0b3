import Retarget.Catalog.Builtin
import Retarget.Catalog.Json
import Retarget.Substitution
import Retarget.Toml.Parser

/-!
# Manifests

A manifest is a TOML document that declares classes and says which types are replaced by which:

    match_mode = "exact"          # "by_name" when absent

    [[type]]
    name = "Models.ItemFrom"
    properties = [{ name = "Id", type = "long" }]

    [[substitute]]
    from = "Models.ItemFrom"
    to = "Models.ItemTo"

Decoding gives the `Manifest.Raw` form, in which the types of substitutions are still texts with
their places; resolving it declares all classes, wherever they stand, and then reads the types.

Main definitions:

* `Manifest.Raw.ofEntries`   decoding
* `Manifest.Raw.resolve`     resolving
* `Manifest.parse`           both, from a text
-/

namespace Retarget

namespace Manifest

/-- A substitution whose types are still texts. -/
structure RawPair where
  source : Located String
  target : Located String
deriving DecidableEq, Repr

/-- A decoded document. -/
structure Raw where
  mode : MatchMode := .byName
  classes : List ClassDecl := []
  pairs : List RawPair := []

/-- Why a file cannot be read as a text. -/
inductive ReadError where
  | notFound
  | denied
  /-- A part of the path that should be a directory is a file. -/
  | notDirectory
  | directory
  | nameTooLong
  | notUtf8
  | other (reason : String)
deriving DecidableEq, Repr

/-- The failure that an error number of the system stands for. -/
def ReadError.ofCode? : Nat → Option ReadError
  | 2 => some .notFound
  | 13 => some .denied
  | 20 => some .notDirectory
  | 21 => some .directory
  | 36 => some .nameTooLong
  | _ => none

/-- The wording of a failure to read. -/
def ReadError.message : ReadError → String
  | .notFound => "No such file or directory (os error 2)"
  | .denied => "Permission denied (os error 13)"
  | .notDirectory => "Not a directory (os error 20)"
  | .directory => "Is a directory (os error 21)"
  | .nameTooLong => "File name too long (os error 36)"
  | .notUtf8 => "stream did not contain valid UTF-8"
  | .other reason => reason

/-- Why there is no manifest. -/
inductive Error where
  /-- The file cannot be read. -/
  | unreadable (path : String) (error : ReadError)
  /-- The text is not a TOML document. -/
  | malformed
  /-- The document does not have the form of a manifest. -/
  | decode (error : DecodeError)
  /-- The text of a substituted type is malformed; the span is in the manifest. -/
  | typeSyntax (error : SyntaxError)
  /-- A substituted type is not declared. -/
  | unknownType (name : String) (span : Span)
deriving DecidableEq, Repr

/-- The wording of a failure. -/
def Error.message : Error → String
  | .unreadable path e => "failed to read manifest '" ++ path ++ "': " ++ e.message
  | .malformed => "invalid manifest: not a TOML document"
  | .decode e => "invalid manifest: " ++ e.message
  | .typeSyntax e => e.message
  | .unknownType name _ => "unknown type '" ++ name ++ "' in substitution"

/-! ## Decoding -/

/-- Whether a choice that is written as a table has no content. -/
def isVoid : Toml.Node → Bool
  | .array [] => true
  | .table _ [] => true
  | _ => false

/-- The matching mode of a name. -/
def modeNamed (name : String) : Decoded MatchMode :=
  match MatchMode.ofName? name with
  | some mode => .ok mode
  | none => .error (.unknownCase name ["by_name", "exact"])

/-- The matching mode: its name, or a table whose only key is the name. -/
def modeOf : Toml.Node → Decoded MatchMode
  | .text s _ => modeNamed s
  | .table _ [(name, content)] => do
    let mode ← modeNamed name
    if isVoid content then return mode else throw .mismatch
  | _ => .error .mismatch

/-- The items of an array. -/
def itemsOf (v : Toml.Node) : Decoded (List Toml.Node) :=
  match v.items? with
  | some items => .ok items
  | none => .error .mismatch

/-- A text and its place. -/
def textOf : Toml.Node → Decoded (Located String)
  | .text s span => .ok ⟨s, span⟩
  | _ => .error .mismatch

/-- The sides of a substitution that have been read. -/
structure PairDraft where
  source : Option (Located String) := none
  target : Option (Located String) := none

/-- Reads one side. -/
def PairDraft.visit (d : PairDraft) : String × Toml.Node → Decoded PairDraft
  | ("from", v) => do return { d with source := some (← textOf v) }
  | ("to", v) => do return { d with target := some (← textOf v) }
  | (other, _) => .error (.unknownField other ["from", "to"])

/-- A substitution: a table of its two sides, or an array that starts with them. A date is a
    table whose key is neither side. -/
def pairOf : Toml.Node → Decoded RawPair
  | .table _ entries => do
    let d ← entries.foldlM PairDraft.visit {}
    return ⟨← Json.require "from" d.source, ← Json.require "to" d.target⟩
  | .array (source :: target :: _) => do return ⟨← textOf source, ← textOf target⟩
  | .array (source :: _) => do
    -- The side that is there is read first, so its fault goes before the missing side.
    let _ ← textOf source
    throw .mismatch
  | .datetime => .error (.unknownField Toml.dateKey ["from", "to"])
  | _ => .error .mismatch

/-- Reads one entry of the document. -/
def Raw.visit (raw : Raw) : String × Toml.Node → Decoded Raw
  | ("match_mode", v) => do return { raw with mode := ← modeOf v }
  | ("type", v) => do
    let classes ← (← itemsOf v).mapM fun item => ClassDecl.ofJson .ignored item.toJson
    return { raw with classes }
  | ("substitute", v) => do return { raw with pairs := ← (← itemsOf v).mapM pairOf }
  | (other, _) => .error (.unknownField other ["match_mode", "type", "substitute"])

/-- The manifest that the entries of a document describe. They are read in order, and the first
    that cannot be decoded decides the failure. -/
def Raw.ofEntries (entries : Toml.Entries) : Decoded Raw :=
  entries.foldlM Raw.visit {}

end Manifest

/-- Declared classes on top of the built-in ones, and the substitution. -/
structure Manifest where
  catalog : Catalog
  substitution : Substitution

namespace Manifest

/-! ## Resolving -/

/-- The type that a text in the manifest spells, which has to be declared. A fault in the text is
    moved behind the opening quote of the text. -/
def declaredType (cat : Catalog) (text : Located String) : Except Error Ty :=
  match Ty.parse text.value with
  | .error e => .error (.typeSyntax ⟨e.cause, e.span.shift (text.span.start + 1)⟩)
  | .ok t =>
    if cat.contains t then .ok t else .error (.unknownType t.render text.span)

/-- The two types of a substitution. -/
def declaredPair (cat : Catalog) (pair : RawPair) : Except Error (Ty × Ty) := do
  return (← declaredType cat pair.source, ← declaredType cat pair.target)

/-- The built-in classes and those of a manifest. -/
def Raw.catalog (raw : Raw) : Catalog :=
  raw.classes.foldl Catalog.addClass Catalog.builtin

/-- Resolves a decoded manifest: all classes first, then the substitutions in order. -/
def Raw.resolve (raw : Raw) : Except Error Manifest := do
  -- A pair may name classes that are declared behind it.
  let pairs ← raw.pairs.mapM (declaredPair raw.catalog)
  return ⟨raw.catalog, { pairs, mode := raw.mode }⟩

/-- The manifest that a text spells. -/
def parse (text : String) : Except Error Manifest :=
  match Toml.parse? text with
  | none => .error .malformed
  | some entries =>
    match Raw.ofEntries entries with
    | .error e => .error (.decode e)
    | .ok raw => raw.resolve

/-- The manifest in a file, given what reading the file gave. -/
def load (path : String) (content : Except ReadError String) : Except Error Manifest :=
  match content with
  | .error e => .error (.unreadable path e)
  | .ok text => parse text

end Manifest

end Retarget

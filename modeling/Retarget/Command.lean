import Retarget.Expr.Json
import Retarget.Manifest.Check
import Retarget.Pass.Log
import Retarget.Sample

/-!
# Command line

`demo` shows the sample query before and after retargeting, and `check` resolves every member of
every substituted class of a manifest. Reading the arguments and running the command are pure;
what reading the manifest's file gave is an argument.

Main definitions:

* `Command.ofArgs`   the command that arguments ask for
* `Command.run`      exit code and texts
-/

namespace Retarget

/-- What the program is asked to do. -/
inductive Command where
  | help
  | version
  /-- Shows the sample query, as documents or in two passes if asked to. -/
  | demo (json staged : Bool)
  | check (path : String)
deriving DecidableEq, Repr

namespace Command

/-- The result of running the program. -/
structure Outcome where
  code : Nat
  stdout : String
  stderr : String
deriving DecidableEq, Repr

/-! ## Arguments -/

/-- A command with the level of its log. -/
structure Invocation where
  command : Command
  level : LogLevel
deriving DecidableEq, Repr

/-- A level by name in any case of letters, or by number. -/
def level? (s : String) : Option LogLevel :=
  let digits := match s.toList with
    | '+' :: ds => ds
    | ds => ds
  if !digits.isEmpty && digits.all Char.isDigit then
    LogLevel.ofName? (toString (Decimal.digitsValue digits))
  else LogLevel.ofName? s

/-- What can be given to a command, once each. -/
structure Given where
  level : Option LogLevel := none
  json : Bool := false
  staged : Bool := false
  paths : List String := []

/-- The argument of an option, which does not look like an option itself. -/
def optionValue? : List String → Option (String × List String)
  | value :: rest =>
    if value.startsWith "-" && value ≠ "-" then none else some (value, rest)
  | [] => none

/-- Sets the level of the log, unless it is set or unknown. -/
def Given.setLevel (g : Given) (value : String) : Option Given :=
  match g.level, level? value with
  | none, some l => some { g with level := some l }
  | _, _ => none

/-- The value in `--log=value`. -/
def inlineLevel? (arg : String) : Option String :=
  let lead := "--log=".toList
  if lead.isPrefixOf arg.toList then some (String.ofList (arg.toList.drop lead.length)) else none

/-- What reading the arguments of a command gives: help was asked for, or what was given. -/
inductive Read where
  | help
  | done (given : Given)

/-- Reads the arguments after the name of a command; `flags` are the flags it knows and `operands`
    how many operands it takes. Nothing is given for arguments that are refused. -/
def readGiven (flags : List String) (operands : Nat) :
    (fuel : Nat) → (plain : Bool) → List String → Given → Option Read
  | 0, _, _, _ => none
  | _ + 1, _, [], g => some (.done g)
  | fuel + 1, plain, arg :: rest, g =>
    -- All that follows is operands.
    if !plain && arg = "--" then readGiven flags operands fuel true rest g
    else if plain || !arg.startsWith "-" || arg = "-" then
      if g.paths.length < operands && arg ≠ "" then
        readGiven flags operands fuel plain rest { g with paths := g.paths ++ [arg] }
      else none
    else if arg = "--help" || arg.startsWith "-h" then some .help
    else if arg = "--log" then
      match optionValue? rest with
      | none => none
      | some (value, rest) =>
        match g.setLevel value with
        | none => none
        | some g => readGiven flags operands fuel plain rest g
    else
      match inlineLevel? arg with
      | some value =>
        match g.setLevel value with
        | none => none
        | some g => readGiven flags operands fuel plain rest g
      | none =>
        if arg = "--json" && arg ∈ flags && !g.json then
          readGiven flags operands fuel plain rest { g with json := true }
        else if arg = "--staged" && arg ∈ flags && !g.staged then
          readGiven flags operands fuel plain rest { g with staged := true }
        else none

/-- Reads the arguments of a command, whose own level of the log goes before the general one. -/
def readCommand (name : String) (level : LogLevel) (args : List String) : Option Invocation :=
  let fuel := args.length + 1
  match name with
  | "demo" =>
    match readGiven ["--json", "--staged"] 0 fuel false args {} with
    | some .help => some ⟨.help, level⟩
    | some (.done g) => some ⟨.demo g.json g.staged, g.level.getD level⟩
    | none => none
  | "check" =>
    match readGiven [] 1 fuel false args {} with
    | some .help => some ⟨.help, level⟩
    | some (.done g) => g.paths.head?.map fun path => ⟨.check path, g.level.getD level⟩
    | none => none
  | "help" =>
    match args with
    | [] => some ⟨.help, level⟩
    | [topic] => if topic ∈ ["demo", "check", "help"] then some ⟨.help, level⟩ else none
    | _ => none
  | _ => none

/-- Reads the arguments up to the name of a command. -/
def readTop (fuel : Nat) (level : Option LogLevel) (args : List String) : Option Invocation :=
  match fuel, args with
  | 0, _ => none
  | _, [] => none
  | fuel + 1, arg :: rest =>
    let withLevel (value : String) (rest : List String) : Option Invocation :=
      match level, level? value with
      | none, some l => readTop fuel (some l) rest
      | _, _ => none
    if arg = "--version" || arg.startsWith "-V" then some ⟨.version, .warn⟩
    else if arg = "--help" || arg.startsWith "-h" then some ⟨.help, .warn⟩
    else if arg = "--log" then
      match optionValue? rest with
      | some (value, rest) => withLevel value rest
      | none => none
    else
      match inlineLevel? arg with
      | some value => withLevel value rest
      | none => readCommand arg (level.getD .warn) rest

/-- The command that arguments ask for. -/
def ofArgs (args : List String) : Option Invocation :=
  readTop (args.length + 1) none args

/-! ## Running -/

/-- One line for each entry of a log that is not beyond a level. -/
def logText (level : LogLevel) (entries : List LogEntry) : String :=
  String.join ((entries.filter (·.level.rank ≤ level.rank)).map fun e =>
    e.level.render ++ " " ++ e.message
      ++ String.join (e.fields.map fun (k, v) => " " ++ k ++ "=" ++ v) ++ "\n")

/-- Passes over an expression with one substitution each, and their logs. -/
def passes (cat : Catalog) :
    (supply : Nat) → Expr → List Substitution → Except RetargetError Expr × List LogEntry
  | _, e, [] => (.ok e, [])
  | supply, e, s :: rest =>
    let report := Pass.run s cat supply e
    let log := report.log s e
    match report.result with
    | .error err => (.error err, log)
    | .ok e' =>
      match passes cat report.state.supply e' rest with
      | (result, more) => (result, log ++ more)

/-- Shows the sample query before and after. -/
def runDemo (level : LogLevel) (json staged : Bool) : Outcome :=
  let failed (message log : String) : Outcome := ⟨1, "", log ++ "error: " ++ message ++ "\n"⟩
  match Sample.query Sample.catalog 0 with
  | .error e => failed e.message ""
  | .ok (before, supply) =>
    let stages := if staged then [Sample.items, Sample.groups] else [Sample.both]
    match passes Sample.catalog supply before stages with
    | (.error e, log) => failed e.message (logText level log)
    | (.ok after, log) =>
      let text :=
        if json then (Json.obj [("after", after.toJson), ("before", before.toJson)]).pretty
        else "before: " ++ before.render ++ "\nafter:  " ++ after.render
      ⟨0, text ++ "\n", logText level log⟩

/-- The last line of a failed check. -/
def failureLine (path message : String) : String :=
  "error [" ++ path ++ "]: " ++ message ++ "\n"

/-- Checks a manifest, given what reading its file gave. -/
def runCheck (path : String) (content : Except Manifest.ReadError String) : Outcome :=
  match content with
  | .error e => ⟨1, "", failureLine path ("failed to read manifest: " ++ e.message)⟩
  | .ok text =>
    match Manifest.parse text with
    | .error e => ⟨1, "", failureLine path e.message⟩
    | .ok m =>
      let checked := m.check
      let report := String.join (checked.resolutions.map Manifest.Resolution.line)
      let oks := String.join (checked.passed.map Manifest.pairLine)
      match checked.failure with
      | some e => ⟨1, report, oks ++ failureLine path e.message⟩
      | none =>
        let count := toString checked.resolutions.length
        ⟨0, report, oks ++ "check: " ++ count ++ " member(s) resolved\n"⟩

/-- A short account of the commands. -/
def usage : String :=
  "Retarget expression trees from one set of types to another\n\n" ++
  "Usage: exprmap [--log <LEVEL>] demo [--json] [--staged]\n" ++
  "       exprmap [--log <LEVEL>] check <MANIFEST>\n"

/-- Runs the program: `read` gives the content of a file. -/
def run (read : String → Except Manifest.ReadError String) (args : List String) : Outcome :=
  match ofArgs args with
  | none => ⟨2, "", usage⟩
  | some ⟨.help, _⟩ => ⟨0, usage, ""⟩
  | some ⟨.version, _⟩ => ⟨0, "exprmap 0.1.0\n", ""⟩
  | some ⟨.demo json staged, level⟩ => runDemo level json staged
  | some ⟨.check path, _⟩ => runCheck path (read path)

end Command

end Retarget

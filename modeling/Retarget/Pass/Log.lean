import Retarget.Pass.Basic

/-!
# Log of a pass

The history of a pass as entries with a level, a message and named texts. The questions put to
the member override are part of the history but not of the log.
-/

namespace Retarget

/-- How much detail an entry gives, from the least to the most. -/
inductive LogLevel where
  | error
  | warn
  | info
  | debug
  | trace
deriving DecidableEq, Repr, Inhabited

namespace LogLevel

/-- The rank of a level: more detail has a higher one. -/
def rank : LogLevel → Nat
  | .error => 1
  | .warn => 2
  | .info => 3
  | .debug => 4
  | .trace => 5

/-- The name of a level. -/
def render : LogLevel → String
  | .error => "ERROR"
  | .warn => "WARN"
  | .info => "INFO"
  | .debug => "DEBUG"
  | .trace => "TRACE"

/-- The level with a given name in any case of letters, or with a given rank. -/
def ofName? (name : String) : Option LogLevel :=
  [error, warn, info, debug, trace].find? fun l =>
    name.map Char.toUpper = l.render || name = toString l.rank

end LogLevel

/-- An entry of the log. -/
structure LogEntry where
  level : LogLevel
  message : String
  fields : List (String × String)

/-- The entry for an event, if it is logged. -/
def Event.entry? : Event → Option LogEntry
  | .parameterReplaced p target =>
    some ⟨.trace, "parameter replaced",
      [("name", p.label), ("from", p.ty.render), ("to", target.render)]⟩
  | .constantReplaced source target =>
    some ⟨.trace, "constant replaced", [("from", source.render), ("to", target.render)]⟩
  | .methodRebound source target =>
    some ⟨.trace, "rebound generic method", [("from", source.render), ("to", target.render)]⟩
  | .overrideConsulted _ => none
  | .memberOverridden source target =>
    some ⟨.trace, "member override", [("from", source.render), ("to", target.render)]⟩

namespace Pass

/-- The first entry of a pass over `root`. -/
def startEntry (s : Substitution) (root : Expr) : LogEntry :=
  ⟨.debug, "rewrite pass started",
    [("root", root.kind.render), ("substitutions", toString s.pairs.length)]⟩

/-- The last entry of a pass. -/
def Report.endEntry (r : Report) : LogEntry :=
  let memoized := ("memoized", toString r.state.memo.size)
  match r.result with
  | .ok _ => ⟨.debug, "rewrite pass finished", [memoized]⟩
  | .error e => ⟨.debug, "rewrite pass failed", [memoized, ("error", e.message)]⟩

/-- The log of a pass over `root`. -/
def Report.log (r : Report) (s : Substitution) (root : Expr) : List LogEntry :=
  startEntry s root :: (r.state.events.filterMap Event.entry? ++ [r.endEntry])

/-- The values that the constant transformation was applied to. -/
def Report.transformed (r : Report) (s : Substitution) : List Value :=
  if s.constantTransform.isSome then
    r.state.events.filterMap fun
      | .constantReplaced source _ => some source
      | _ => none
  else []

/-- The members that the override was asked about. -/
def Report.consulted (r : Report) : List Member :=
  r.state.events.filterMap fun
    | .overrideConsulted m => some m
    | _ => none

end Pass

end Retarget

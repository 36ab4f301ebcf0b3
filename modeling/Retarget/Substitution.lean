import Retarget.Member
import Retarget.Text.Quoted
import Retarget.Value.Basic

/-!
# Substitutions

A substitution says which types are replaced by which, how a type is matched with the table,
and optionally how constants are transformed and which members are overridden.

Main definitions:

* `Substitution.sameType`   equality of types under the matching mode
* `Substitution.lookup`     the replacement of a type, the earliest matching pair counting
* `Substitution.resolve`    a type with all replacements made
-/

namespace Retarget

/-- How the sources of a table are matched with types. -/
inductive MatchMode where
  /-- By simple names, at every depth. Types of one simple name cannot be told apart. -/
  | byName
  /-- By equality. -/
  | exact
deriving DecidableEq, Repr, Inhabited

namespace MatchMode

/-- The name of a mode in documents. -/
def render : MatchMode → String
  | .byName => "by_name"
  | .exact => "exact"

/-- The mode with a given name. -/
def ofName? : String → Option MatchMode
  | "by_name" => some .byName
  | "exact" => some .exact
  | _ => none

end MatchMode

namespace Ty

mutual

/-- Whether two types have the same simple names throughout. -/
def sameNames : Ty → Ty → Bool
  | .named n, u => simpleName n = u.name && u.args.isEmpty
  | .generic d as, u => simpleName d = u.name && sameNamesList as u.args
  | .param n, u => simpleName n = u.name && u.args.isEmpty

/-- Whether two lists of types have the same length and the same simple names throughout. -/
def sameNamesList : List Ty → List Ty → Bool
  | [], [] => true
  | t :: ts, u :: us => sameNames t u && sameNamesList ts us
  | _, _ => false

end

end Ty

/-- What a pass replaces. -/
structure Substitution where
  /-- Sources and their replacements, in order of precedence. -/
  pairs : List (Ty × Ty) := []
  mode : MatchMode := .byName
  /-- Applied to the value of each constant, when there is one. -/
  constantTransform : Option (Value → Value) := none
  /-- Asked about each member before it is looked up, when there is one. -/
  memberOverride : Option (Member → Option Member) := none
deriving Inhabited

namespace Substitution

/-- The substitution with a further pair, which gives way to the earlier ones. -/
def add (s : Substitution) (source target : Ty) : Substitution :=
  { s with pairs := s.pairs ++ [(source, target)] }

/-- Equality of types under the matching mode. -/
def sameType (s : Substitution) (a b : Ty) : Bool :=
  match s.mode with
  | .byName => a.sameNames b
  | .exact => a = b

/-- The replacement of a type, if a source matches it. -/
def lookup (s : Substitution) (t : Ty) : Option Ty :=
  (s.pairs.find? fun (source, _) => s.sameType source t).map (·.2)

mutual

/-- A type with all replacements made. A replacement stands as it is; only where no source
    matches are the arguments of a type looked at. -/
def resolve (s : Substitution) : Ty → Ty
  | .named n => (s.lookup (.named n)).getD (.named n)
  | .generic d as =>
    match s.lookup (.generic d as) with
    -- Replacements are not replaced again, nor are their arguments.
    | some target => target
    | none => .generic d (resolveAll s as)
  | .param n => (s.lookup (.param n)).getD (.param n)

/-- Each type of a list with all replacements made. -/
def resolveAll (s : Substitution) : List Ty → List Ty
  | [] => []
  | t :: ts => resolve s t :: resolveAll s ts

end

/-- The types of a list are resolved one by one. -/
theorem resolveAll_eq_map (s : Substitution) (ts : List Ty) :
    s.resolveAll ts = ts.map s.resolve := by
  induction ts with
  | nil => rfl
  | cons t ts ih => simp [resolveAll, ih]

/-- The value of a constant after the transformation. -/
def transform (s : Substitution) (v : Value) : Value :=
  match s.constantTransform with
  | some f => f v
  | none => v

/-- The member that overrides another. -/
def override? (s : Substitution) (m : Member) : Option Member :=
  s.memberOverride.bind (· m)

/-! ## Description -/

mutual

/-- A type with its case and quoted names. -/
def describeTy : Ty → String
  | .named n => "Named(" ++ Text.quote n ++ ")"
  | .generic d as => "Generic(" ++ Text.quote d ++ ", [" ++ describeTys as ++ "])"
  | .param n => "Param(" ++ Text.quote n ++ ")"

/-- Types separated by commas. -/
def describeTys : List Ty → String
  | [] => ""
  | [t] => describeTy t
  | t :: ts => describeTy t ++ ", " ++ describeTys ts

end

/-- Pairs separated by commas. -/
def describePairs : List (Ty × Ty) → String
  | [] => ""
  | [(a, b)] => "(" ++ describeTy a ++ ", " ++ describeTy b ++ ")"
  | (a, b) :: rest =>
    "(" ++ describeTy a ++ ", " ++ describeTy b ++ "), " ++ describePairs rest

/-- A full description for people who look for faults; of the functions it tells only whether
    they are set. -/
def describe (s : Substitution) : String :=
  let flag (b : Bool) := if b then "true" else "false"
  let mode := match s.mode with
    | .byName => "ByName"
    | .exact => "Exact"
  "SubstitutionConfig \x7b substitutions: [" ++ describePairs s.pairs ++ "], match_mode: " ++ mode
    ++ ", constant_transform: " ++ flag s.constantTransform.isSome
    ++ ", member_override: " ++ flag s.memberOverride.isSome ++ " \x7d"

end Substitution

end Retarget

import Retarget.Manifest.Basic
import Retarget.Pass.Resolve

/-!
# Checking manifests

A manifest is in order when every member of every substituted class has a member to take its
place. The check goes through the pairs in order and stops at the first member that has none.

Main definition: `Manifest.check`.
-/

namespace Retarget.Manifest

/-- A member of a substituted class and the member that takes its place. -/
structure Resolution where
  member : Member
  target : Member
deriving DecidableEq, Repr

/-- The line that reports a resolution. -/
def Resolution.line (r : Resolution) : String :=
  r.member.render ++ " -> " ++ r.target.render ++ " (" ++ r.member.kind.render ++ ")\n"

/-- The line that reports a pair all of whose members are resolved. -/
def pairLine (pair : Ty × Ty) : String :=
  pair.1.render ++ " -> " ++ pair.2.render ++ ": ok\n"

/-- What a check found, up to its failure if there was one. -/
structure Checked where
  resolutions : List Resolution
  passed : List (Ty × Ty)
  failure : Option RetargetError

/-- The members that the class of a type declares, as seen from the type. -/
def membersOf? (cat : Catalog) (t : Ty) : Option (List Member) :=
  match cat.class? t.fullName with
  | none => none
  | some c => some (c.members.filterMap fun (kind, d) => cat.member? kind t d.name)

/-- Resolves members up to the first that cannot be: those resolved, and the failure if any. -/
def resolveMembers (m : Manifest) : List Member → List Resolution × Option RetargetError
  | [] => ([], none)
  | member :: rest =>
    match m.substitution.resolveMember m.catalog member with
    | .error e => ([], some e)
    | .ok target =>
      match resolveMembers m rest with
      | (done, failure) => (⟨member, target⟩ :: done, failure)

/-- Checks pairs up to the first member that cannot be resolved. A type without a class is passed
    over. -/
def checkPairs (m : Manifest) : List (Ty × Ty) → Checked
  | [] => ⟨[], [], none⟩
  | pair :: rest =>
    match membersOf? m.catalog pair.1 with
    | none => checkPairs m rest
    | some members =>
      match resolveMembers m members with
      | (done, some e) => ⟨done, [], some e⟩
      | (done, none) =>
        let others := checkPairs m rest
        ⟨done ++ others.resolutions, pair :: others.passed, others.failure⟩

/-- Resolves every member of every substituted class of a manifest. -/
def check (m : Manifest) : Checked := checkPairs m m.substitution.pairs

end Retarget.Manifest

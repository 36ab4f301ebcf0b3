import Retarget.Catalog.Builtin
import Retarget.Expr.Build
import Retarget.Substitution

/-!
# A sample query

A query that joins items to their groups, written against one generation of the item and group
classes, and the substitutions that move it to the next generation.
-/

namespace Retarget

namespace Sample

/-- The class of items. -/
def itemClass (name : String) : ClassDecl where
  name := name
  typeParams := []
  properties := [⟨"Id", Ty.long, false⟩, ⟨"GroupId", Ty.nullable Ty.long, false⟩]
  fields := []

/-- The class of groups. -/
def groupClass (name : String) : ClassDecl where
  name := name
  typeParams := []
  properties := [⟨"Id", Ty.long, false⟩, ⟨"ParentId", Ty.nullable Ty.long, false⟩]
  fields := []

/-- The built-in declarations and both generations of the sample classes. -/
def catalog : Catalog :=
  (((Catalog.builtin.addClass (itemClass "ItemFrom")).addClass (itemClass "ItemTo")).addClass
    (groupClass "GroupFrom")).addClass (groupClass "GroupTo")

/-- Moves the items. -/
def items : Substitution := Substitution.add {} (.named "ItemFrom") (.named "ItemTo")

/-- Moves the groups. -/
def groups : Substitution := Substitution.add {} (.named "GroupFrom") (.named "GroupTo")

/-- Moves the items and the groups. -/
def both : Substitution := items.add (.named "GroupFrom") (.named "GroupTo")

/-- A property that the catalog has to know. -/
def property (cat : Catalog) (t : Ty) (name : String) : Build Member :=
  match cat.property? t name with
  | some m => pure m
  | none => throw (.unknownMethod t.render name)

/-- The query

        (x, y) => x.SelectMany(i => y.Where(j => i.GroupId == j.Id)).DistinctBy(g => g.Id)

    over `Query<ItemFrom>` and `Query<GroupFrom>`. -/
def query (cat : Catalog) : Build Expr := do
  let item := Ty.named "ItemFrom"
  let group := Ty.named "GroupFrom"
  let x ← Build.parameter (Ty.query item) (some "x") false
  let y ← Build.parameter (Ty.query group) (some "y") false
  let i ← Build.parameter item (some "i") false
  let j ← Build.parameter group (some "j") false
  let g ← Build.parameter group (some "g") false
  -- The groups of an item: the key on either side is compared as an optional number.
  let groupId ← Build.member (some i) (← property cat item "GroupId")
  let jId ← Build.member (some j) (← property cat group "Id")
  let matching ← Build.binary .equal groupId (← Build.convert jId (Ty.nullable Ty.long))
    false none none
  let predicate ← Build.lambda matching none false [j]
  let filter ← cat.methodRef "Queryable" "Where" [group]
  let groupsOfItem ← Build.call none filter [y, predicate]
  -- The selector has to return a sequence, while its body is a query.
  let selector ← Build.typedLambda (Ty.func [item] (Ty.enumerable group)) groupsOfItem none false [i]
  let flatten ← cat.methodRef "Queryable" "SelectMany" [item, group]
  let allGroups ← Build.call none flatten [x, selector]
  let key ← Build.lambda (← Build.member (some g) (← property cat group "Id")) none false [g]
  let distinct ← cat.methodRef "Queryable" "DistinctBy" [group, Ty.long]
  let body ← Build.call none distinct [allGroups, key]
  Build.lambda body none false [x, y]

end Sample

end Retarget

import Retarget.Proofs.Construction
import Retarget.Proofs.Printing
import Retarget.Value.Json

/-!
# Documents of values and members

A value is written as a document in which types stand as their texts, nested as deep as the value
is. Everything but types and floats is written faithfully, so that a value without floats is read
back exactly if each type in it, at whatever depth, is read back from its text. The same holds of a
member and its two types.

## Key results

- `Json.asTy_render`: which types are read back
- `Value.types`: the types that are written in a value
- `Value.ofJson_toJson`: which values are read back, for values, fields and items at once
- `Member.ofJson_toJson`: which members are read back
- `Json.documents_read_back`: both
-/

namespace Retarget

/-- A type is read back from its document exactly if it is printable and has no parameters. -/
theorem Json.asTy_render {t : Ty} : asTy (.str t.render) = .ok t ↔ t.Printable ∧ t.ParamFree := by
  constructor
  · intro h
    -- Whatever a text spells is printable.
    cases hparse : Ty.parse t.render with
    | ok u =>
      rw [asTy, hparse] at h
      obtain rfl := Except.ok.inj h
      exact Ty.printable_of_parse hparse
    | error e =>
      rw [asTy, hparse] at h
      cases h
  · -- A printable type is parsed from its text, up to its parameters, of which there are none.
    rintro ⟨hprintable, hfree⟩
    rw [asTy, hprintable.parse_render, hfree.demote_eq]

namespace Value

/-! ## Parts of values -/

mutual

/-- The types that are written in a value: those of objects and of the elements of queries, at any
    depth. -/
def types : Value → List Ty
  | .object t fields => t :: fieldTypes fields
  | .query elem items => elem :: itemTypes items
  | _ => []

/-- The types that are written in fields. -/
def fieldTypes : List (String × Value) → List Ty
  | [] => []
  | (_, v) :: rest => types v ++ fieldTypes rest

/-- The types that are written in items. -/
def itemTypes : List Value → List Ty
  | [] => []
  | v :: rest => types v ++ itemTypes rest

end

mutual

/-- Whether no float stands in a value, at any depth. -/
def isFloatFree : Value → Bool
  | .float _ => false
  | .object _ fields => areFieldsFloatFree fields
  | .query _ items => areItemsFloatFree items
  | _ => true

/-- Whether no float stands in fields. -/
def areFieldsFloatFree : List (String × Value) → Bool
  | [] => true
  | (_, v) :: rest => isFloatFree v && areFieldsFloatFree rest

/-- Whether no float stands in items. -/
def areItemsFloatFree : List Value → Bool
  | [] => true
  | v :: rest => isFloatFree v && areItemsFloatFree rest

end

/-! ## Reading what was written -/

theorem Kind.ofJson_render (k : Kind) : Kind.ofJson (.str k.render) = .ok k := by
  cases k <;> rfl

/-- The kind of a document decides how its payload is read. -/
theorem ofJson_tagged (k : Kind) (payload : Json) :
    ofJson (tagged k payload) = ofPayload k payload := by
  simp [tagged, ofJson, ofTagged, Kind.ofJson_render]

/-- Every integer that is written is in the range that is read. -/
theorem intOfJson_toInt (n : Int64) : intOfJson (.integer n.toInt) = .ok n := by
  -- The range that is checked is that of the type itself.
  have hbounds : (Int64.minValue.toInt ≤ n.toInt && n.toInt ≤ Int64.maxValue.toInt) = true := by
    rw [Bool.and_eq_true, decide_eq_true_eq, decide_eq_true_eq]
    exact ⟨n.minValue_le_toInt, n.toInt_le⟩
  rw [intOfJson, if_pos hbounds, Int64.ofInt_toInt]

/-- An object is read from the documents of its fields and of its type. -/
theorem ofPayload_object {docs : List Json} {doc : Json} {t : Ty} {fields : List (String × Value)} :
    ofPayload .object (.obj [("fields", .arr docs), ("ty", doc)]) = .ok (.object t fields) ↔
      ofFieldList docs = .ok fields ∧ doc.asTy = .ok t := by
  cases hfields : ofFieldList docs <;> cases hty : doc.asTy <;>
    simp [ofPayload, ofObject, hfields, hty, and_comm]

/-- A query is read from the documents of its items and of the type of its elements. -/
theorem ofPayload_query {docs : List Json} {doc : Json} {elem : Ty} {items : List Value} :
    ofPayload .query (.obj [("elem", doc), ("items", .arr docs)]) = .ok (.query elem items) ↔
      doc.asTy = .ok elem ∧ ofItemList docs = .ok items := by
  cases hitems : ofItemList docs <;> cases hty : doc.asTy <;>
    simp [ofPayload, ofQuery, hitems, hty]

/-- A field is a pair of its name and the document of its value. -/
theorem ofFieldList_cons {name : String} {j : Json} {docs : List Json} {v : Value}
    {fields : List (String × Value)} :
    ofFieldList (.arr [.str name, j] :: docs) = .ok ((name, v) :: fields) ↔
      ofJson j = .ok v ∧ ofFieldList docs = .ok fields := by
  cases hv : ofJson j <;> cases hfields : ofFieldList docs <;>
    simp [ofFieldList, hv, hfields, Except.map]

/-- Items are read one by one. -/
theorem ofItemList_cons {j : Json} {docs : List Json} {v : Value} {items : List Value} :
    ofItemList (j :: docs) = .ok (v :: items) ↔
      ofJson j = .ok v ∧ ofItemList docs = .ok items := by
  cases hv : ofJson j <;> cases hitems : ofItemList docs <;>
    simp [ofItemList, hv, hitems, Except.map]

/-! ## Round trips -/

mutual

/-- A value without floats is read back exactly if all types in it are. -/
theorem ofJson_toJson : (v : Value) → v.isFloatFree = true →
    (ofJson v.toJson = .ok v ↔ ∀ t ∈ v.types, t.Printable ∧ t.ParamFree)
  | .null, _ => iff_of_true rfl (by simp [types])
  | .bool _, _ => iff_of_true rfl (by simp [types])
  | .int n, _ => by
    rw [toJson, ofJson_tagged, ofPayload, intOfJson_toInt]
    exact iff_of_true rfl (by simp [types])
  | .float _, h => by cases h
  | .str _, _ => iff_of_true rfl (by simp [types])
  | .object t fields, h => by
    -- The fields by the mutual induction, the type by its text; the document has them in
    -- alphabetical order.
    have hfields := ofFieldList_fieldsToJson fields h
    rw [toJson, ofJson_tagged, ofPayload_object, hfields, Json.asTy_render, types,
      List.forall_mem_cons, and_comm]
  | .query elem items, h => by
    have hitems := ofItemList_itemsToJson items h
    rw [toJson, ofJson_tagged, ofPayload_query, hitems, Json.asTy_render, types,
      List.forall_mem_cons]

/-- The fields of a record are read back exactly if all types in their values are. -/
theorem ofFieldList_fieldsToJson : (fields : List (String × Value)) →
    areFieldsFloatFree fields = true →
    (ofFieldList (fieldsToJson fields) = .ok fields ↔
      ∀ t ∈ fieldTypes fields, t.Printable ∧ t.ParamFree)
  | [], _ => by simp [fieldsToJson, ofFieldList, fieldTypes]
  | (name, v) :: rest, h => by
    rw [areFieldsFloatFree, Bool.and_eq_true] at h
    have hv := ofJson_toJson v h.1
    have hrest := ofFieldList_fieldsToJson rest h.2
    rw [fieldsToJson, ofFieldList_cons, hv, hrest, fieldTypes, List.forall_mem_append]

/-- The items of a query are read back exactly if all types in them are. -/
theorem ofItemList_itemsToJson : (items : List Value) → areItemsFloatFree items = true →
    (ofItemList (itemsToJson items) = .ok items ↔
      ∀ t ∈ itemTypes items, t.Printable ∧ t.ParamFree)
  | [], _ => by simp [itemsToJson, ofItemList, itemTypes]
  | v :: rest, h => by
    rw [areItemsFloatFree, Bool.and_eq_true] at h
    have hv := ofJson_toJson v h.1
    have hrest := ofItemList_itemsToJson rest h.2
    rw [itemsToJson, ofItemList_cons, hv, hrest, itemTypes, List.forall_mem_append]

end

end Value

namespace Member

theorem kind_ofJson_render (k : MemberKind) : MemberKind.ofJson (.str k.render) = .ok k := by
  cases k <;> rfl

/-- Reading a member that was written reads its two types and leaves all else as it was. -/
theorem ofJson_toJson_eq (m : Member) :
    ofJson m.toJson = do
      let declaringType ← Json.asTy (.str m.declaringType.render)
      let ty ← Json.asTy (.str m.ty.render)
      return { m with declaringType, ty } := by
  simp only [toJson, ofJson, List.foldlM, Draft.visit, kind_ofJson_render]
  -- Every other entry of the document is read without fail.
  cases Json.asTy (.str m.declaringType.render) with
  | error e => rfl
  | ok t =>
    cases Json.asTy (.str m.ty.render) with
    | error e => rfl
    | ok u => rfl

/-- A member is read back exactly if its declaring type and its own type are. -/
theorem ofJson_toJson (m : Member) :
    ofJson m.toJson = .ok m ↔
      (m.declaringType.Printable ∧ m.declaringType.ParamFree) ∧
        m.ty.Printable ∧ m.ty.ParamFree := by
  rw [← Json.asTy_render, ← Json.asTy_render, ofJson_toJson_eq]
  constructor
  · intro h
    obtain ⟨t, ht, h⟩ := Build.except_bind_eq_ok.mp h
    obtain ⟨u, hu, h⟩ := Build.except_bind_eq_ok.mp h
    -- The member that is read differs from the one written in its two types at most.
    have heq : { m with declaringType := t, ty := u } = m := Except.ok.inj h
    have hdeclaring : t = m.declaringType := congrArg declaringType heq
    have hty : u = m.ty := congrArg Member.ty heq
    exact ⟨hdeclaring ▸ ht, hty ▸ hu⟩
  · rintro ⟨hdeclaring, hty⟩
    rw [hdeclaring, hty]
    rfl

end Member

/-- A value without floats is read back from its document exactly if the types of all objects and
    queries in it are printable and have no parameters, and a member exactly if its declaring type
    and its own type are. -/
theorem Json.documents_read_back :
    (∀ v : Value, v.isFloatFree = true →
      (Value.ofJson v.toJson = .ok v ↔ ∀ t ∈ v.types, t.Printable ∧ t.ParamFree)) ∧
    ∀ m : Member, Member.ofJson m.toJson = .ok m ↔
      (m.declaringType.Printable ∧ m.declaringType.ParamFree) ∧ m.ty.Printable ∧ m.ty.ParamFree :=
  ⟨Value.ofJson_toJson, Member.ofJson_toJson⟩

namespace Sample

/-- Items with their tags. -/
def basket : Value :=
  .query (.named "Models.Item")
    [.object (.named "Models.Item")
      [("Id", .int 7), ("Tags", .query Ty.string [.str "new", .null])]]

/-- A value with a type parameter deep inside. -/
def unbound : Value :=
  .query Ty.object [.object (.named "Box") [("Content", .query (Ty.nullable (.param "T")) [])]]

/-- Items with tags come back from their document; a value with an unbound parameter inside does
    not. -/
theorem basket_reads_back :
    basket.isFloatFree = true ∧ Value.ofJson basket.toJson = .ok basket ∧
      unbound.isFloatFree = true ∧ Value.ofJson unbound.toJson ≠ .ok unbound := by
  refine ⟨rfl, (Json.documents_read_back.1 basket rfl).mpr (by decide), rfl, fun h => ?_⟩
  have htypes := (Json.documents_read_back.1 unbound rfl).mp h
  revert htypes
  decide

end Sample

end Retarget

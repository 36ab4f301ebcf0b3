import Retarget.Proofs.Run

/-!
# Constructions stay within arenas

Whatever is built out of the nodes of an arena is found in an arena that extends it. This is
shown for each checked constructor, for the retyping of arguments and, by induction over the
expression, for a whole pass; so typing, sharing and the use of identities are preserved by all
of them at once.

## Key results

- `Build.call_gains`, `Build.typedLambda_gains`, ...: one statement for each constructor
- `Build.coerce_gains`: retyping an argument
- `Expr.retarget_attains`: a walk
- `Expr.exists_arena_of_run`: a whole pass
-/

namespace Retarget

/-- Some extension of the arena `a` has all nodes `es`, and its next identity is `n`. -/
def Arena.Gains (a : Arena) (n : Nat) (es : List Expr) : Prop :=
  ∃ b : Arena, b.Extends a ∧ b.supply = n ∧ ∀ e ∈ es, e ∈ b.nodes

/-- Nodes that an arena has are gained without an extension. -/
theorem Arena.gains_self {a : Arena} {es : List Expr} (h : ∀ e ∈ es, e ∈ a.nodes) :
    a.Gains a.supply es :=
  ⟨a, .refl a, rfl, h⟩

/-- A well-typed node over nodes of the arena is gained with one identity. -/
theorem Arena.gains_push {a : Arena} {e : Expr} (hid : e.id = a.supply)
    (hparts : ∀ c ∈ e.children, c ∈ a.nodes) (htyped : e.TypingRule) :
    a.Gains (a.supply + 1) [e] :=
  ⟨a.push e hid hparts htyped, a.push_extends e hid hparts htyped, rfl,
    fun _ h => List.mem_singleton.mp h ▸ List.mem_cons_self⟩

/-- What an extension gains, the arena itself gains. -/
theorem Arena.Gains.of_extends {a b : Arena} {n : Nat} {es : List Expr} (hext : b.Extends a)
    (h : b.Gains n es) : a.Gains n es := by
  obtain ⟨c, hcb, hsupply, hmem⟩ := h
  exact ⟨c, hcb.trans hext, hsupply, hmem⟩

/-- Nodes are gained one after the other. -/
theorem Arena.Gains.cons {a b : Arena} {n : Nat} {first : Expr} {rest : List Expr}
    (hext : b.Extends a) (hfirst : first ∈ b.nodes) (h : b.Gains n rest) :
    a.Gains n (first :: rest) := by
  obtain ⟨c, hcb, hsupply, hmem⟩ := h
  refine ⟨c, hcb.trans hext, hsupply, ?_⟩
  intro x hx
  rcases List.mem_cons.mp hx with rfl | hx
  · exact hcb.nodes _ hfirst
  · exact hmem x hx

/-- A reference that is not open has an argument for each type parameter. -/
theorem MethodRef.length_typeArgs {m : MethodRef} (h : m.isOpen = false) :
    m.typeArgs.length = m.definition.typeParams.length := by
  rcases m.arity with hnil | hlen
  · simp only [isOpen, isGeneric, hnil, List.isEmpty_nil, Bool.and_true, Bool.not_eq_false',
      List.isEmpty_iff] at h
    simp [hnil, h]
  · exact hlen

namespace Build

variable {a : Arena} {n : Nat} {e : Expr}

/-- A parameter is a node without parts and without a typing rule. -/
theorem parameter_gains {ty : Ty} {name : Option String} {byRef : Bool}
    (h : parameter ty name byRef a.supply = .ok (e, n)) : a.Gains n [e] := by
  obtain ⟨rfl, rfl⟩ := parameter_eq_ok.mp h
  exact Arena.gains_push rfl (by simp [Expr.children]) trivial

/-- A constant is a node without parts and without a typing rule. -/
theorem constant_gains {v : Value} (h : constant v a.supply = .ok (e, n)) : a.Gains n [e] := by
  obtain ⟨rfl, rfl⟩ := constant_eq_ok.mp h
  exact Arena.gains_push rfl (by simp [Expr.children]) trivial

/-- A default value is a node without parts and without a typing rule. -/
theorem default_gains {ty : Ty} (h : default ty a.supply = .ok (e, n)) : a.Gains n [e] := by
  obtain ⟨rfl, rfl⟩ := default_eq_ok.mp h
  exact Arena.gains_push rfl (by simp [Expr.children]) trivial

/-- What is checked of the access of a member is its typing rule. -/
theorem member_gains {object : Option Expr} {m : Member}
    (hobject : ∀ o, object = some o → o ∈ a.nodes)
    (h : member object m a.supply = .ok (e, n)) : a.Gains n [e] := by
  obtain ⟨hfault, rfl, rfl⟩ := member_eq_ok.mp h
  refine Arena.gains_push rfl ?_ (memberFault?_eq_none.mp hfault)
  intro c hc
  exact hobject c (by simpa [Expr.children] using hc)

/-- A lambda whose delegate type is derived returns the type of its body. -/
theorem lambda_gains {body : Expr} {name : Option String} {tailCall : Bool} {params : List Expr}
    (hbody : body ∈ a.nodes) (hparams : ∀ p ∈ params, p ∈ a.nodes)
    (h : lambda body name tailCall params a.supply = .ok (e, n)) : a.Gains n [e] := by
  obtain ⟨ps, rfl, rfl, rfl⟩ := lambda_eq_ok.mp h
  refine Arena.gains_push rfl ?_ ⟨body.ty, rfl, Ty.assignableTo_refl _⟩
  intro c hc
  rcases List.mem_append.mp hc with hc | hc
  · exact hparams c hc
  · exact List.mem_singleton.mp hc ▸ hbody

/-- A lambda of a given delegate type has been checked against it. -/
theorem typedLambda_gains {delegate : Ty} {body : Expr} {name : Option String} {tailCall : Bool}
    {params : List Expr} (hbody : body ∈ a.nodes) (hparams : ∀ p ∈ params, p ∈ a.nodes)
    (h : typedLambda delegate body name tailCall params a.supply = .ok (e, n)) :
    a.Gains n [e] := by
  obtain ⟨ps, ret, rfl, rfl, hret, rfl, rfl⟩ := typedLambda_eq_ok.mp h
  refine Arena.gains_push rfl ?_ ⟨ret, rfl, hret⟩
  intro c hc
  rcases List.mem_append.mp hc with hc | hc
  · exact hparams c hc
  · exact List.mem_singleton.mp hc ▸ hbody

/-- The type that is derived for a unary node is the one that it has to have. -/
theorem unary_gains {op : UnaryOp} {operand : Expr} {ty : Ty} {method : Option MethodRef}
    (hoperand : operand ∈ a.nodes) (h : unary op operand ty method a.supply = .ok (e, n)) :
    a.Gains n [e] := by
  obtain ⟨t, ht, rfl, rfl⟩ := unary_eq_ok.mp h
  refine Arena.gains_push rfl ?_ (unaryRule_of_unaryType ht)
  intro c hc
  exact List.mem_singleton.mp hc ▸ hoperand

/-- An update of a unary node gives that node, or one built over the new operand. -/
theorem updateUnary_gains {old operand : Expr} (hold : old ∈ a.nodes) (hoperand : operand ∈ a.nodes)
    (h : updateUnary old operand a.supply = .ok (e, n)) : a.Gains n [e] := by
  cases old with
  | unary id op x ty method =>
    rcases updateUnary_eq_ok.mp h with ⟨-, rfl, rfl⟩ | ⟨-, h⟩
    · -- The shortcut makes no check, but the node that comes back was checked when it was built.
      exact Arena.gains_self (by simpa using hold)
    · exact unary_gains hoperand h
  | _ => exact absurd h throw_ne_ok

/-- A binary node has been checked for its conversion and given the type it has to have. -/
theorem binary_gains {op : BinaryOp} {left right : Expr} {lifted : Bool}
    {method : Option MethodRef} {conversion : Option Expr} (hleft : left ∈ a.nodes)
    (hright : right ∈ a.nodes) (hconversion : ∀ c, conversion = some c → c ∈ a.nodes)
    (h : binary op left right lifted method conversion a.supply = .ok (e, n)) : a.Gains n [e] := by
  obtain ⟨hfault, t, ht, rfl, rfl⟩ := binary_eq_ok.mp h
  refine Arena.gains_push rfl ?_ ⟨conversionFault?_eq_none.mp hfault, binaryRule_iff.mpr ht⟩
  intro c hc
  simp only [Expr.children, List.mem_cons, Option.mem_toList] at hc
  rcases hc with rfl | rfl | hc
  · exact hleft
  · exact hright
  · exact hconversion c hc

/-- A conditional node has been checked for its test and its two branches. -/
theorem conditional_gains {test ifTrue ifFalse : Expr} (htest : test ∈ a.nodes)
    (htrue : ifTrue ∈ a.nodes) (hfalse : ifFalse ∈ a.nodes)
    (h : conditional test ifTrue ifFalse a.supply = .ok (e, n)) : a.Gains n [e] := by
  obtain ⟨hbool, hbranches, rfl, rfl⟩ := conditional_eq_ok.mp h
  refine Arena.gains_push rfl ?_ ⟨hbool, hbranches, rfl⟩
  intro c hc
  simp only [Expr.children, List.mem_cons, List.not_mem_nil, or_false] at hc
  rcases hc with rfl | rfl | rfl
  · exact htest
  · exact htrue
  · exact hfalse

/-- An invocation has been checked against the delegate type of its target. -/
theorem invoke_gains {target : Expr} {args : List Expr} (htarget : target ∈ a.nodes)
    (hargs : ∀ x ∈ args, x ∈ a.nodes) (h : invoke target args a.supply = .ok (e, n)) :
    a.Gains n [e] := by
  obtain ⟨types, ret, htype, haccepts, rfl, rfl⟩ := invoke_eq_ok.mp h
  refine Arena.gains_push rfl ?_ ⟨types, htype, haccepts⟩
  intro c hc
  rcases List.mem_cons.mp hc with rfl | hc
  · exact htarget
  · exact hargs c hc

/-! ## Calls -/

/-- An argument that a call takes is in the arena after it, and its type converts. -/
theorem argument_gains {method : MethodRef} {index : Nat} {arg : Expr} {expected : Ty}
    (harg : arg ∈ a.nodes) (h : argument method index arg expected a.supply = .ok (e, n)) :
    a.Gains n [e] ∧ e.ty.assignableTo expected = true := by
  rcases argument_eq_ok.mp h with ⟨hassign, rfl, rfl⟩ | ⟨-, hlambda, rfl, rfl, rfl⟩
  · exact ⟨Arena.gains_self (by simpa using harg), hassign⟩
  · -- The quotation that is put around a lambda is a node of its own.
    refine ⟨Arena.gains_push rfl ?_ ⟨hlambda, rfl⟩, Ty.assignableTo_refl _⟩
    intro c hc
    exact List.mem_singleton.mp hc ▸ harg

/-- Arguments that a call takes are in the arena after it, and their types convert one by one. -/
theorem argumentsFrom_gains {method : MethodRef} {index : Nat} {args es : List Expr}
    {types : List Ty} (hlen : types.length = args.length) (hargs : ∀ x ∈ args, x ∈ a.nodes)
    (h : argumentsFrom method index args types a.supply = .ok (es, n)) :
    a.Gains n es ∧ Expr.Accepts es types := by
  -- From the left, through the arenas that the arguments before have left.
  induction args generalizing a index types es with
  | nil =>
    obtain rfl : types = [] := List.length_eq_zero_iff.mp hlen
    obtain ⟨rfl, rfl⟩ := argumentsFrom_nil_eq_ok.mp h
    exact ⟨Arena.gains_self (by simp), .nil⟩
  | cons arg args ih =>
    cases types with
    | nil => simp at hlen
    | cons t ts =>
      obtain ⟨first, rest, k, hfirst, hrest, rfl⟩ := argumentsFrom_cons_eq_ok.mp h
      obtain ⟨⟨b, hba, rfl, hb⟩, hassign⟩ :=
        argument_gains (hargs arg List.mem_cons_self) hfirst
      -- The other arguments are taken from the arena that the first one has left.
      have hargs' : ∀ x ∈ args, x ∈ b.nodes := fun x hx =>
        hba.nodes x (hargs x (List.mem_cons_of_mem _ hx))
      obtain ⟨hgains, haccepts⟩ := ih (by simpa using hlen) hargs' hrest
      exact ⟨.cons hba (hb _ (List.mem_singleton_self _)) hgains, .cons hassign haccepts⟩

/-- A call has been checked for all that its typing rule asks, over the arguments that it has
    taken. -/
theorem call_gains {receiver : Option Expr} {method : MethodRef} {args : List Expr}
    (hreceiver : ∀ r, receiver = some r → r ∈ a.nodes) (hargs : ∀ x ∈ args, x ∈ a.nodes)
    (h : call receiver method args a.supply = .ok (e, n)) : a.Gains n [e] := by
  obtain ⟨hopen, hfault, hlen, args', k, hargs', rfl, rfl⟩ := call_eq_ok.mp h
  obtain ⟨⟨b, hba, rfl, hb⟩, haccepts⟩ := argumentsFrom_gains hlen hargs hargs'
  obtain ⟨hpresent, hassign⟩ := receiverFault?_eq_none.mp hfault
  -- The call itself goes on top of the arena that has its arguments, quotations included.
  refine .of_extends hba (Arena.gains_push rfl ?_
    ⟨MethodRef.length_typeArgs hopen, hpresent, hassign, haccepts, rfl⟩)
  intro c hc
  rcases List.mem_append.mp hc with hc | hc
  · exact hba.nodes c (hreceiver c (by simpa using hc))
  · exact hb c hc

/-- An update of a call gives that call, or one built over the new parts. -/
theorem updateCall_gains {old : Expr} {receiver : Option Expr} {args : List Expr}
    (hold : old ∈ a.nodes) (hreceiver : ∀ r, receiver = some r → r ∈ a.nodes)
    (hargs : ∀ x ∈ args, x ∈ a.nodes) (h : updateCall old receiver args a.supply = .ok (e, n)) :
    a.Gains n [e] := by
  cases old with
  | call id r method as ty =>
    rcases updateCall_eq_ok.mp h with ⟨-, rfl, rfl⟩ | ⟨-, h⟩
    · -- As for unary nodes, what comes back was there before.
      exact Arena.gains_self (by simpa using hold)
    · exact call_gains hreceiver hargs h
  | _ => exact absurd h throw_ne_ok

/-! ## Retyping -/

/-- Retyping an argument stays within arenas. -/
theorem coerce_gains {need : Ty} {arg : Expr} (harg : arg ∈ a.nodes)
    (h : coerce need arg a.supply = .ok (e, n)) : a.Gains n [e] := by
  -- By induction over the argument: through unary nodes down to the lambda that is retyped.
  induction arg using Expr.childInduction generalizing e n with
  | node arg ih =>
    cases arg with
    | lambda id delegate name tailCall params body =>
      rw [coerce] at h
      split at h
      · obtain ⟨rfl, rfl⟩ := pure_eq_ok.mp h
        exact Arena.gains_self (by simpa using harg)
      · -- The retyped lambda shares its parameters and its body with the old one.
        refine typedLambda_gains ?_ ?_ h
        · exact a.closed _ harg _ (by simp [Expr.children])
        · exact fun p hp => a.closed _ harg p (List.mem_append_left _ hp)
    | unary id op operand ty method =>
      have hoperand : operand ∈ a.nodes := a.closed _ harg _ (by simp [Expr.children])
      obtain ⟨operand', k, hcoerce, hupdate⟩ := coerce_unary_eq_ok.mp h
      obtain ⟨b, hba, rfl, hb⟩ := ih operand (by simp [Expr.children]) hoperand hcoerce
      exact .of_extends hba
        (updateUnary_gains (hba.nodes _ harg) (hb _ (List.mem_singleton_self _)) hupdate)
    | _ =>
      obtain ⟨rfl, rfl⟩ := pure_eq_ok.mp h
      exact Arena.gains_self (by simpa using harg)

/-- Retyping arguments in a row gains the retyped arguments, each in the arena of those before
    it. -/
theorem coerceEach_gains {args es : List Expr} {needs : List Ty} (hargs : ∀ x ∈ args, x ∈ a.nodes)
    (h : coerceEach args needs a.supply = .ok (es, n)) : a.Gains n es := by
  induction args generalizing a needs es with
  | nil =>
    obtain ⟨rfl, rfl⟩ := pure_eq_ok.mp h
    exact Arena.gains_self (by simp)
  | cons arg args ih =>
    cases needs with
    | nil =>
      obtain ⟨rfl, rfl⟩ := pure_eq_ok.mp h
      exact Arena.gains_self (by simp)
    | cons need needs =>
      obtain ⟨first, rest, k, hfirst, hrest, rfl⟩ := coerceEach_cons_eq_ok.mp h
      obtain ⟨b, hba, rfl, hb⟩ := coerce_gains (hargs arg List.mem_cons_self) hfirst
      have hargs' : ∀ x ∈ args, x ∈ b.nodes := fun x hx =>
        hba.nodes x (hargs x (List.mem_cons_of_mem _ hx))
      exact .cons hba (hb _ (List.mem_singleton_self _)) (ih hargs' hrest)

end Build

/-! ## Passes -/

/-- The arena `a` is that of a pass in the state `st`: it has every replacement that the memo
    remembers, and the pass takes its identities from where the arena ends. -/
structure Arena.Tracks (a : Arena) (st : PassState) : Prop where
  supply : a.supply = st.supply
  memo : ∀ entry ∈ st.memo.entries, entry.2 ∈ a.nodes

/-- Before a pass, nothing is remembered. -/
theorem Arena.tracks_start (a : Arena) : a.Tracks ⟨a.supply, .empty, []⟩ :=
  ⟨rfl, by simp [Memo.empty]⟩

/-- Some extension of the arena `a` has all nodes `es` and is that of a pass in the state `st`. -/
def Arena.Attains (a : Arena) (st : PassState) (es : List Expr) : Prop :=
  ∃ b : Arena, b.Extends a ∧ b.Tracks st ∧ ∀ e ∈ es, e ∈ b.nodes

/-- A construction within a pass gives the pass what the arena gains. -/
theorem Arena.Gains.attains {a : Arena} {st : PassState} {n : Nat} {es : List Expr}
    (h : a.Gains n es) (ht : a.Tracks st) (events : List Event) :
    a.Attains ⟨n, st.memo, events⟩ es := by
  obtain ⟨b, hba, hsupply, hb⟩ := h
  exact ⟨b, hba, ⟨hsupply, fun entry hentry => hba.nodes _ (ht.memo entry hentry)⟩, hb⟩

/-- What an extension attains, the arena itself attains. -/
theorem Arena.Attains.of_extends {a b : Arena} {st : PassState} {es : List Expr}
    (hext : b.Extends a) (h : b.Attains st es) : a.Attains st es := by
  obtain ⟨c, hcb, ht, hc⟩ := h
  exact ⟨c, hcb.trans hext, ht, hc⟩

namespace Expr

variable {s : Substitution} {cat : Catalog} {a : Arena} {st st' : PassState} {e' : Expr}

/-- The replacement of a leaf obeys the typing rules. -/
theorem gains_replacement {leaf : Expr} (hleaf : leaf.isLeaf = true) :
    a.Gains (a.supply + 1) [leaf.replacement s a.supply] := by
  obtain ⟨p, rfl⟩ | ⟨id, v, rfl⟩ := isLeaf_iff.mp hleaf
  · exact Arena.gains_push rfl (by simp [children, replacement]) trivial
  · exact Arena.gains_push rfl (by simp [children, replacement]) trivial

/-- The replacement of a leaf is in the arena, be it an old or a new one. -/
theorem leaf_attains {leaf : Expr} (hleaf : leaf.isLeaf = true) (ht : a.Tracks st)
    (hrun : (retarget s cat leaf).Returns st e' st') : a.Attains st' [e'] := by
  rcases (returns_leaf hleaf).mp hrun with ⟨hlookup, rfl⟩ | ⟨hlookup, rfl, rfl⟩
  · -- An old replacement is remembered, so that the arena has it.
    obtain ⟨source, hmem, -⟩ := Memo.mem_of_lookup? hlookup
    exact ⟨a, .refl a, ht, fun e he => List.mem_singleton.mp he ▸ ht.memo _ hmem⟩
  · -- A new replacement is built and recorded in one step.
    rw [← ht.supply]
    obtain ⟨b, hba, hsupply, hb⟩ := gains_replacement (s := s) (a := a) hleaf
    refine ⟨b, hba, ⟨hsupply, fun entry hentry => ?_⟩, hb⟩
    rw [Memo.entries_record_of_lookup?_eq_none _ hlookup] at hentry
    rcases List.mem_append.mp hentry with hentry | hentry
    · exact hba.nodes _ (ht.memo entry hentry)
    · rw [List.mem_singleton.mp hentry]
      exact hb _ (List.mem_singleton_self _)

/-- The walk over `e`, from any arena that has `e`, stays within arenas. -/
def WalkAttains (s : Substitution) (cat : Catalog) (e : Expr) : Prop :=
  ∀ {a : Arena} {st st' : PassState} {e' : Expr}, e ∈ a.nodes → a.Tracks st →
    (retarget s cat e).Returns st e' st' → a.Attains st' [e']

/-- The walk over an optional part stays within arenas if that over the part does. -/
theorem option_attains {o o' : Option Expr} (ih : ∀ e, o = some e → WalkAttains s cat e)
    (ho : ∀ e, o = some e → e ∈ a.nodes) (ht : a.Tracks st)
    (h : (retargetOption s cat o).Returns st o' st') : a.Attains st' o'.toList := by
  cases o with
  | none =>
    obtain ⟨rfl, rfl⟩ := returns_option_none.mp h
    exact ⟨a, .refl a, ht, by simp⟩
  | some e =>
    obtain ⟨e', he, rfl⟩ := returns_option_some.mp h
    exact ih e rfl (ho e rfl) ht he

/-- The walk over parts in a row goes through one arena after the other. -/
theorem list_attains {es es' : List Expr} (ih : ∀ e ∈ es, WalkAttains s cat e)
    (hes : ∀ e ∈ es, e ∈ a.nodes) (ht : a.Tracks st)
    (h : (retargetList s cat es).Returns st es' st') : a.Attains st' es' := by
  induction es generalizing a st es' with
  | nil =>
    obtain ⟨rfl, rfl⟩ := returns_list_nil.mp h
    exact ⟨a, .refl a, ht, by simp⟩
  | cons e es ihs =>
    obtain ⟨first, st₁, rest, hfirst, hrest, rfl⟩ := returns_list_cons.mp h
    obtain ⟨b, hba, htb, hb⟩ :=
      ih e List.mem_cons_self (hes e List.mem_cons_self) ht hfirst
    obtain ⟨c, hcb, htc, hc⟩ :=
      ihs (fun x hx => ih x (List.mem_cons_of_mem _ hx))
        (fun x hx => hba.nodes x (hes x (List.mem_cons_of_mem _ hx))) htb hrest
    -- The last arena has what all the walks have returned.
    refine ⟨c, hcb.trans hba, htc, ?_⟩
    intro x hx
    rcases List.mem_cons.mp hx with rfl | hx
    · exact hcb.nodes _ (hb _ (List.mem_singleton_self _))
    · exact hc x hx

/-- A pass over a call, when those over its parts are known to stay within arenas. -/
theorem call_attains {id : Nat} {receiver : Option Expr} {method : MethodRef} {args : List Expr}
    {ty : Ty} (ih : ∀ c ∈ (call id receiver method args ty).children, WalkAttains s cat c)
    (he : call id receiver method args ty ∈ a.nodes) (ht : a.Tracks st)
    (hrun : (retarget s cat (call id receiver method args ty)).Returns st e' st') :
    a.Attains st' [e'] := by
  obtain ⟨args', st₁, receiver', st₂, hargs, hreceiver, hbuild⟩ := returns_call.mp hrun
  obtain ⟨b, hba, htb, hb⟩ :=
    list_attains (fun x hx => ih x (List.mem_append_right _ hx)) (a.args_mem he) ht hargs
  obtain ⟨c, hcb, htc, hc⟩ :=
    option_attains (fun x hx => ih x (by simp [children, hx]))
      (fun x hx => hba.nodes x (a.receiver_mem he x hx)) htb hreceiver
  have hb' : ∀ x ∈ args', x ∈ c.nodes := fun x hx => hcb.nodes x (hb x hx)
  have hc' : ∀ r, receiver' = some r → r ∈ c.nodes := fun r hr => hc r (by simp [hr])
  refine .of_extends (hcb.trans hba) ?_
  rcases hbuild with ⟨-, args'', k, n, hcoerce, hcall, rfl⟩ | ⟨-, n, hupdate, rfl⟩
  · -- A generic call: retyping adds nodes before the call does.
    rw [← htc.supply] at hcoerce
    obtain ⟨d, hdc, rfl, hd⟩ := Build.coerceEach_gains hb' (Build.coerceAll_eq_ok.mp hcoerce).2
    have hgain := Build.call_gains (fun r hr => hdc.nodes r (hc' r hr)) hd hcall
    exact (hgain.of_extends hdc).attains htc _
  · -- Any other call may come back itself, so it has to be in the last arena, too.
    rw [← htc.supply] at hupdate
    have hself := hcb.nodes _ (hba.nodes _ he)
    exact (Build.updateCall_gains hself hc' hb' hupdate).attains htc _

/-- A pass over a node of an arena ends in an arena that has the node it returns. -/
theorem retarget_attains (s : Substitution) (cat : Catalog) (e : Expr) : WalkAttains s cat e := by
  induction e using childInduction with
  | node e ih =>
    intro a st st' e' he ht hrun
    have hparts : ∀ c ∈ e.children, c ∈ a.nodes := a.closed e he
    -- Each part is walked over in the arena that the parts before it have left; the node is then
    -- built in the last of these arenas.
    cases e with
    | call id receiver method args ty => exact call_attains ih he ht hrun
    | lambda id delegate name tailCall params body =>
      obtain ⟨params', st₁, body', st₂, n, hparams, hbody, hbuild, rfl⟩ := returns_lambda.mp hrun
      have hbodymem : body ∈ (lambda id delegate name tailCall params body).children := by
        simp [children]
      obtain ⟨b, hba, htb, hb⟩ := list_attains (fun x hx => ih x (List.mem_append_left _ hx))
          (fun x hx => hparts x (List.mem_append_left _ hx)) ht hparams
      obtain ⟨c, hcb, htc, hc⟩ :=
        ih body hbodymem (hba.nodes _ (hparts body hbodymem)) htb hbody
      rw [← htc.supply] at hbuild
      have hgain := Build.lambda_gains (hc body' (List.mem_singleton_self _))
        (fun p hp => hcb.nodes p (hb p hp)) hbuild
      exact .of_extends (hcb.trans hba) (hgain.attains htc _)
    | parameter p => exact leaf_attains rfl ht hrun
    | member id object m =>
      obtain ⟨object', st₁, m', n, hobject, -, hbuild, rfl⟩ := returns_memberAccess.mp hrun
      obtain ⟨b, hba, htb, hb⟩ :=
        option_attains (fun x hx => ih x (by simp [children, hx]))
          (fun x hx => hparts x (by simp [children, hx])) ht hobject
      rw [← htb.supply] at hbuild
      have hgain := Build.member_gains (fun o ho => hb o (by simp [ho])) hbuild
      exact .of_extends hba (hgain.attains htb _)
    | constant id v => exact leaf_attains rfl ht hrun
    | unary id op operand ty method =>
      obtain ⟨operand', st₁, n, hoperand, hbuild, rfl⟩ := returns_unary.mp hrun
      obtain ⟨b, hba, htb, hb⟩ :=
        ih operand (by simp [children]) (hparts _ (by simp [children])) ht hoperand
      rw [← htb.supply] at hbuild
      have hgain := Build.unary_gains (hb operand' (List.mem_singleton_self _)) hbuild
      exact .of_extends hba (hgain.attains htb _)
    | binary id op left right lifted method conversion ty =>
      obtain ⟨left', st₁, right', st₂, conversion', st₃, n, hleft, hright, hconversion, hbuild,
        rfl⟩ := returns_binary.mp hrun
      obtain ⟨b, hba, htb, hb⟩ :=
        ih left (by simp [children]) (hparts _ (by simp [children])) ht hleft
      obtain ⟨c, hcb, htc, hc⟩ :=
        ih right (by simp [children]) (hba.nodes _ (hparts _ (by simp [children]))) htb hright
      obtain ⟨d, hdc, htd, hd⟩ :=
        option_attains (fun x hx => ih x (by simp [children, hx]))
          (fun x hx => hcb.nodes _ (hba.nodes _ (hparts x (by simp [children, hx])))) htc
          hconversion
      rw [← htd.supply] at hbuild
      have hgain := Build.binary_gains (hdc.nodes _ (hcb.nodes _ (hb left' (by simp))))
        (hdc.nodes _ (hc right' (by simp))) (fun x hx => hd x (by simp [hx])) hbuild
      exact .of_extends (hdc.trans (hcb.trans hba)) (hgain.attains htd _)
    | conditional id test ifTrue ifFalse ty => exact absurd rfl (supported_of_returns hrun).1
    | invoke id target args ty => exact absurd rfl (supported_of_returns hrun).2.1
    | default id ty => exact absurd rfl (supported_of_returns hrun).2.2

/-- The result of a pass over a node of an arena is a node of another arena, in which the pass has
    used the identities that it took. -/
theorem exists_arena_of_run {e : Expr} (he : e ∈ a.nodes)
    (hrun : Pass.run s cat a.supply e = ⟨.ok e', st⟩) :
    ∃ b : Arena, b.supply = st.supply ∧ e' ∈ b.nodes := by
  obtain ⟨b, -, htracks, hb⟩ :=
    retarget_attains s cat e he a.tracks_start (Pass.run_eq_iff.mp hrun)
  exact ⟨b, htracks.supply, hb e' (List.mem_singleton_self e')⟩

end Expr

end Retarget

import Retarget.Proofs.Retyping
import Retarget.Proofs.Sharing

/-!
# What a result shares with its input

A pass returns a node that it was given only where nothing could change: at a call of a method that
is not generic, all of whose parts are such calls again. These nodes are ground, and wherever one
stands, the result has that very node. Everything else in a result was built by the pass.

Whether a node is kept is decided by identity, three times over: a call is kept if its parts are the
nodes they were, retyping keeps what it does not change, and a leaf is looked up in the memo. So the
statement is carried through the walk as a relation between a node and what stands in its place,
`Expr.Renewal`, and is read off it place by place.

## Key results

- `Expr.Ground`: the nodes that a pass keeps
- `Expr.origin?`: the place of the input that corresponds to a place of the result
- `Expr.Renewal`: a node and what stands in its place after a pass
- `Expr.Renewal.at_place`: the relation holds place by place
- `Build.coerce_renews`, `Expr.sameParts_iff`: retyping and updating keep what they have to
- `Expr.retarget_renews`: what one walk keeps and what it builds
- `Expr.Constructed.sharesGround`: the statement for whole passes
-/

namespace Retarget

namespace Expr

/-! ## Ground nodes -/

/-- A call of a method that is not generic, whose receiver and arguments are such calls. -/
inductive Ground : Expr → Prop where
  | call {id : Nat} {receiver : Option Expr} {method : MethodRef} {args : List Expr} {ty : Ty}
      (hmethod : method.isGeneric = false) (hreceiver : ∀ r, receiver = some r → Ground r)
      (hargs : ∀ x ∈ args, Ground x) : Ground (.call id receiver method args ty)

/-- A ground node is a call of a method that is not generic. -/
theorem Ground.exists_call {e : Expr} (h : e.Ground) :
    ∃ id receiver method args ty,
      e = .call id receiver method args ty ∧ method.isGeneric = false := by
  cases h with
  | call hmethod _ _ => exact ⟨_, _, _, _, _, rfl, hmethod⟩

/-- Only calls are ground. -/
theorem not_ground_of_kind {e : Expr} (h : e.kind ≠ .call) : ¬e.Ground := by
  intro hground
  obtain ⟨_, _, _, _, _, rfl, -⟩ := hground.exists_call
  exact h rfl

/-- The parts of a ground node are ground. -/
theorem Ground.part {e c : Expr} (h : e.Ground) (hc : c ∈ e.children) : c.Ground := by
  cases h with
  | call _ hreceiver hargs =>
    simp only [children, List.mem_append, Option.mem_toList] at hc
    rcases hc with hc | hc
    · exact hreceiver c hc
    · exact hargs c hc

/-- Whether an expression has a node of the same identity. -/
def OccursIn (n e : Expr) : Prop := ∃ x : Expr, x.Within e ∧ x.SameNode n

/-! ## Corresponding places -/

/-- Whether `e'` is a quotation that was put around what stands in the place of a lambda. -/
def added (e e' : Expr) : Bool := e.isLambda && e'.isQuotation

/-- The place of `e` that corresponds to a place of an expression `e'` that stands in its place: the
    same steps, but for those into a quotation that was added. The quotation itself corresponds to
    nothing. -/
def origin? : List Position → Expr → Expr → Option (List Position)
  | [], e, e' => if added e e' then none else some []
  | p :: ps, e, e' =>
    if added e e' then
      if p = .operand then origin? ps e (counterpart e e') else none
    else
      match e.child? p, e'.child? p with
      | some c, some c' => (origin? ps c c').map (p :: ·)
      | _, _ => none

/-- A quotation was added exactly if one stands for a lambda, and the counterpart is what it
    quotes. -/
theorem added_iff {e e' : Expr} :
    added e e' = true ↔ e.isLambda = true ∧
      ∃ id l ty method, e' = .unary id .quote l ty method ∧ counterpart e e' = l := by
  constructor
  · intro h
    obtain ⟨hlambda, hquotation⟩ := Bool.and_eq_true_iff.mp h
    obtain ⟨_, _, _, _, _, _, rfl⟩ := isLambda_iff.mp hlambda
    -- Only a unary node that quotes is a quotation.
    cases e' with
    | unary id op operand ty method =>
      cases op with
      | quote => exact ⟨rfl, id, operand, ty, method, rfl, rfl⟩
      | _ => cases hquotation
    | _ => cases hquotation
  · intro h
    obtain ⟨hlambda, id, l, ty, method, rfl, -⟩ := h
    exact Bool.and_eq_true_iff.mpr ⟨hlambda, rfl⟩

/-- The only part of a unary node is its operand. -/
theorem child?_unary_eq_some {id : Nat} {op : UnaryOp} {operand c : Expr} {ty : Ty}
    {method : Option MethodRef} {p : Position} :
    (Expr.unary id op operand ty method).child? p = some c ↔ p = .operand ∧ operand = c := by
  cases p <;> simp [child?]

/-- Unless a quotation was added, what stands in the place of a node is its counterpart. -/
theorem counterpart_of_added {e e' : Expr} (h : added e e' = false) : counterpart e e' = e' := by
  unfold counterpart
  split
  · cases h
  · rfl

/-- A step into an added quotation leads to where the quotation stands. -/
theorem origin?_operand {e e' : Expr} (hadded : added e e' = true) (ps : List Position) :
    origin? (.operand :: ps) e e' = origin? ps e (counterpart e e') := by
  rw [origin?, if_pos hadded, if_pos rfl]

/-- Any other step is made in both expressions. -/
theorem origin?_cons {e e' c c' : Expr} {p : Position} {ps : List Position}
    (hadded : added e e' = false) (hc : e.child? p = some c) (hc' : e'.child? p = some c') :
    origin? (p :: ps) e e' = (origin? ps c c').map (p :: ·) := by
  rw [origin?, hadded, hc, hc']
  rfl

/-! ## What stands in the place of a node -/

/-- A node and what stands in its place after a pass for which the identities below `bound` were in
    use: a ground node itself; or a node of the same kind that is new, with parts that stand in the
    places of the parts; or, for a lambda, a new quotation around one. -/
inductive Renewal (bound : Nat) : Expr → Expr → Prop where
  | kept {e : Expr} (he : e.Ground) : Renewal bound e e
  | built {e e' : Expr} (he : ¬e.Ground) (hs : e.Supported) (hkind : e'.kind = e.kind)
      (hid : bound ≤ e'.id)
      (hparts : ∀ p, Option.Rel (Renewal bound) (e.child? p) (e'.child? p)) : Renewal bound e e'
  | quoted {e l : Expr} {ty : Ty} {method : Option MethodRef} {id : Nat} (hl : l.isLambda = true)
      (hid : bound ≤ id) (h : Renewal bound e l) :
    Renewal bound e (.unary id .quote l ty method)

namespace Renewal

variable {bound : Nat} {e e' : Expr}

/-- Where a lambda stands, there was one. -/
theorem isLambda_of_isLambda (h : Renewal bound e e') (he' : e'.isLambda = true) :
    e.isLambda = true := by
  -- A new node has the kind of the old one, and a quotation is no lambda.
  cases h with
  | kept _ => exact he'
  | built _ _ hkind _ _ => rw [isLambda_iff_kind, ← hkind]; exact isLambda_iff_kind.mp he'
  | quoted _ _ _ => cases he'

/-- What stands in the place of a node is the node itself if that is ground, and new if not. -/
theorem eq_or_new (h : Renewal bound e e') :
    (e.Ground ∧ e' = e) ∨ (¬e.Ground ∧ bound ≤ e'.id) := by
  cases h with
  | kept he => exact .inl ⟨he, rfl⟩
  | built he _ _ hid _ => exact .inr ⟨he, hid⟩
  | quoted hl hid h =>
    -- A quotation stands for a lambda, which is not ground.
    have hkind := isLambda_iff_kind.mp (h.isLambda_of_isLambda hl)
    exact .inr ⟨not_ground_of_kind (by rw [hkind]; decide), hid⟩

/-- In the place of a ground node stands that very node. -/
theorem eq_of_ground (h : Renewal bound e e') (he : e.Ground) : e' = e := by
  rcases h.eq_or_new with ⟨-, heq⟩ | ⟨hground, -⟩
  · exact heq
  · exact absurd he hground

/-- Only ground nodes are not new. -/
theorem eq_of_lt (h : Renewal bound e e') (hlt : e'.id < bound) : e.Ground ∧ e' = e := by
  rcases h.eq_or_new with hkept | ⟨-, hid⟩
  · exact hkept
  · omega

/-- Unless a quotation was added, parts stand in the places of parts. -/
theorem child (h : Renewal bound e e') (hadded : added e e' = false) (p : Position) :
    Option.Rel (Renewal bound) (e.child? p) (e'.child? p) := by
  cases h with
  | kept he =>
    -- A kept node has its own parts, which are ground as well.
    cases hc : e.child? p with
    | none => exact .none
    | some c => exact .some (.kept (he.part (mem_children_of_child? hc)))
  | built _ _ _ _ hparts => exact hparts p
  | quoted hl _ h =>
    rw [added, h.isLambda_of_isLambda hl] at hadded
    cases hadded

/-- A quotation that was added is new, and is around a lambda. -/
theorem of_added (h : Renewal bound e e') (hadded : added e e' = true) :
    ∃ id l ty method, e' = .unary id .quote l ty method ∧ l.isLambda = true ∧ bound ≤ id ∧
      Renewal bound e l ∧ counterpart e e' = l := by
  obtain ⟨hlambda, id, l, ty, method, rfl, hl⟩ := added_iff.mp hadded
  cases h with
  | kept he => cases hlambda
  | built _ _ hkind _ _ =>
    rw [isLambda_iff_kind.mp hlambda] at hkind
    cases hkind
  | quoted hlambda' hid h => exact ⟨id, l, ty, method, rfl, hlambda', hid, h, hl⟩

/-! ## Place by place -/

/-- Nothing was added around a lambda that stands in the place of a lambda. -/
theorem added_of_isLambda {l : Expr} (hl : l.isLambda = true) : added e l = false := by
  obtain ⟨_, _, _, _, _, _, rfl⟩ := isLambda_iff.mp hl
  simp [added, isQuotation]

/-- Walking along a path does not depend on whether a quotation was added at its start. -/
theorem follow?_of_counterpart {l : Expr} (h : counterpart e e' = l) (hl : l.isLambda = true)
    (path : List Position) : follow? path e e' = follow? path e l := by
  have hself : counterpart e l = l := counterpart_of_added (added_of_isLambda hl)
  cases path with
  | nil => rw [follow?, follow?, h, hself]
  | cons p ps => rw [follow?, follow?, h, hself]

/-- Every place of what stands in the place of an expression corresponds to a place of that, and
    what is there stands in the place of what was there; or else there is a quotation that was
    added. -/
theorem at_place (h : Renewal bound e e') {path' : List Position} {n' : Expr}
    (hn' : e'.descend? path' = some n') :
    (∃ path n, origin? path' e e' = some path ∧ e.descend? path = some n ∧
        follow? path e e' = some n' ∧ Renewal bound n n') ∨
      (origin? path' e e' = none ∧ ∃ id l ty method, n' = .unary id .quote l ty method ∧
        l.isLambda = true ∧ bound ≤ id) := by
  -- By induction over the place in the result, along which the place in the input is followed.
  induction path' generalizing e e' with
  | nil =>
    obtain rfl := Option.some.inj hn'
    cases hadded : added e e' with
    | true =>
      obtain ⟨id, l, ty, method, heq, hl, hid, -⟩ := h.of_added hadded
      exact .inr ⟨by rw [origin?, if_pos hadded], id, l, ty, method, heq, hl, hid⟩
    | false =>
      have hself : follow? [] e e' = some e' := by rw [follow?, counterpart_of_added hadded]
      exact .inl ⟨[], e, by rw [origin?, hadded]; rfl, rfl, hself, h⟩
  | cons p ps ih =>
    obtain ⟨c', hc', hrest⟩ := descend?_cons.mp hn'
    cases hadded : added e e' with
    | true =>
      -- The only step from an added quotation leads to the lambda inside it.
      obtain ⟨id, l, ty, method, rfl, hl, -, hinner, hcounterpart⟩ := h.of_added hadded
      obtain ⟨rfl, rfl⟩ := child?_unary_eq_some.mp hc'
      rw [origin?_operand hadded, hcounterpart]
      rcases ih hinner hrest with ⟨path, n, hpath, hn, hfollow, hrenewal⟩ | hnone
      · refine .inl ⟨path, n, hpath, hn, ?_, hrenewal⟩
        rw [follow?_of_counterpart hcounterpart hl, hfollow]
      · exact .inr hnone
    | false =>
      -- No quotation here: the same step is made on both sides.
      have hparts := h.child hadded p
      rw [hc'] at hparts
      obtain ⟨c, hc, hpart⟩ := Option.exists_of_rel_some hparts
      rw [origin?_cons hadded hc hc']
      rcases ih hpart hrest with ⟨path, n, hpath, hn, hfollow, hrenewal⟩ | ⟨hnone, hquotation⟩
      · refine .inl ⟨p :: path, n, by rw [hpath]; rfl, descend?_cons.mpr ⟨c, hc, hn⟩, ?_, hrenewal⟩
        rw [follow?, counterpart_of_added hadded, hc, hc', ← hfollow]
      · exact .inr ⟨by rw [hnone]; rfl, hquotation⟩

/-- What corresponds to a node stands in its place, with no quotation around it. -/
theorem counterpart_renewal (h : Renewal bound e e') :
    Renewal bound e (counterpart e e') ∧ added e (counterpart e e') = false := by
  cases hadded : added e e' with
  | true =>
    -- The counterpart is what was quoted.
    obtain ⟨id, l, ty, method, rfl, hl, -, hinner, hcounterpart⟩ := h.of_added hadded
    rw [hcounterpart]
    exact ⟨hinner, added_of_isLambda hl⟩
  | false =>
    rw [counterpart_of_added hadded]
    exact ⟨h, hadded⟩

/-- A place inside an added quotation is one step further down. -/
theorem exists_place_of_counterpart (h : Renewal bound e e') {path path' : List Position}
    {n' : Expr} (hn' : (counterpart e e').descend? path' = some n')
    (horigin : origin? path' e (counterpart e e') = some path) :
    ∃ path' n', e'.descend? path' = some n' ∧ origin? path' e e' = some path := by
  cases hadded : added e e' with
  | true =>
    obtain ⟨id, l, ty, method, rfl, -, -, -, hcounterpart⟩ := h.of_added hadded
    refine ⟨.operand :: path', n', descend?_cons.mpr ⟨l, rfl, by rwa [← hcounterpart]⟩, ?_⟩
    rw [origin?_operand hadded, horigin]
  | false =>
    rw [counterpart_of_added hadded] at hn' horigin
    exact ⟨path', n', hn', horigin⟩

/-- What stands in the place of a node can be handled by a pass. -/
theorem supported (h : Renewal bound e e') : e'.Supported := by
  cases h with
  | kept he =>
    obtain ⟨_, _, _, _, _, rfl, -⟩ := he.exists_call
    simp [Supported, kind]
  | built _ hs hkind _ _ =>
    unfold Supported at hs ⊢
    rwa [hkind]
  | quoted _ _ _ => simp [Supported, kind]

/-- Every part of what stands in the place of a node stands in some place itself. -/
theorem exists_part (h : Renewal bound e e') {p : Position} {c' : Expr}
    (hc' : e'.child? p = some c') : ∃ c, Renewal bound c c' := by
  cases hadded : added e e' with
  | true =>
    obtain ⟨id, l, ty, method, rfl, -, -, hinner, -⟩ := h.of_added hadded
    obtain ⟨-, rfl⟩ := child?_unary_eq_some.mp hc'
    exact ⟨e, hinner⟩
  | false =>
    have hparts := h.child hadded p
    rw [hc'] at hparts
    obtain ⟨c, -, hpart⟩ := Option.exists_of_rel_some hparts
    exact ⟨c, hpart⟩

/-- What is reachable stands at the end of a path. -/
theorem exists_path (h : Renewal bound e e') {n' : Expr} (hn' : n'.Within e') :
    ∃ path', e'.descend? path' = some n' := by
  -- Along the path of parts, each of which stands in some place, so that it has a position.
  induction hn' generalizing e with
  | self => exact ⟨[], rfl⟩
  | part hc' _ ih =>
    obtain ⟨p, hp⟩ := exists_child?_of_mem_children h.supported hc'
    obtain ⟨c, hpart⟩ := h.exists_part hp
    obtain ⟨ps, hps⟩ := ih hpart
    exact ⟨p :: ps, descend?_cons.mpr ⟨_, hp, hps⟩⟩

/-- Every place of an expression has a corresponding one in what stands in its place. -/
theorem exists_place (h : Renewal bound e e') {path : List Position} {n : Expr}
    (hn : e.descend? path = some n) :
    ∃ path' n', e'.descend? path' = some n' ∧ origin? path' e e' = some path := by
  -- By induction over the place in the input; an added quotation is one step more in the result.
  induction path generalizing e e' with
  | nil =>
    have horigin : origin? [] e (counterpart e e') = some [] := by
      rw [origin?, h.counterpart_renewal.2]
      rfl
    exact h.exists_place_of_counterpart rfl horigin
  | cons p ps ih =>
    obtain ⟨c, hc, hrest⟩ := descend?_cons.mp hn
    obtain ⟨hrenewal, hadded⟩ := h.counterpart_renewal
    have hparts := hrenewal.child hadded p
    rw [hc] at hparts
    obtain ⟨c', hc', hpart⟩ := Option.exists_of_some_rel hparts
    obtain ⟨path', n', hn', horigin⟩ := ih hpart hrest
    have hplace : origin? (p :: path') e (counterpart e e') = some (p :: ps) := by
      rw [origin?_cons hadded hc hc', horigin]
      rfl
    exact h.exists_place_of_counterpart (descend?_cons.mpr ⟨c', hc', hn'⟩) hplace

end Renewal

end Expr

/-! ## Building over renewed parts -/

namespace Build

open Retarget.Expr (Renewal)

variable {bound n n' : Nat} {e e' e'' : Expr}

/-- What retyping makes of a lambda is a lambda. -/
theorem isLambda_of_coerce {need : Ty} (he : e.isLambda = true)
    (h : coerce need e n = .ok (e', n')) : e'.isLambda = true := by
  obtain ⟨id, delegate, name, tailCall, params, body, rfl⟩ := Expr.isLambda_iff.mp he
  rcases coerce_lambda_eq_ok.mp h with ⟨-, rfl, -⟩ | ⟨-, _, -, -, rfl, -⟩
  · rfl
  · rfl

/-- Retyping keeps what stands in the place of an argument, or builds it anew over its parts. -/
theorem coerce_renews {need : Ty} (h : Renewal bound e e') (hn : bound ≤ n)
    (hcoerce : coerce need e' n = .ok (e'', n')) : Renewal bound e e'' := by
  -- By induction over what is retyped: lambdas and the operands of unary nodes change, all else is
  -- kept.
  induction e' using Expr.childInduction generalizing e e'' n' with
  | node e' ih =>
    cases e' with
    | lambda id delegate name tailCall params body =>
      rcases coerce_lambda_eq_ok.mp hcoerce with ⟨-, rfl, -⟩ | ⟨-, _, -, -, rfl, -⟩
      · exact h
      · -- A lambda of another delegate type is new and has the parts of the old one.
        cases h with
        | kept he => exact absurd he (Expr.not_ground_of_kind (by simp [Expr.kind]))
        | built he hs hkind _ hparts =>
          exact .built he hs hkind hn fun p => by
            have hpart := hparts p
            cases p <;> exact hpart
    | unary id op operand ty method =>
      obtain ⟨operand', k, hinner, hupdate⟩ := coerce_unary_eq_ok.mp hcoerce
      have hk := coerce_le hinner
      have hih : ∀ c, Renewal bound c operand → Renewal bound c operand' := fun c hc =>
        ih operand (by simp [Expr.children]) hc hinner
      rcases updateUnary_eq_ok.mp hupdate with ⟨-, rfl, -⟩ | ⟨-, hunary⟩
      · exact h
      · obtain ⟨t, -, rfl, -⟩ := unary_eq_ok.mp hunary
        have hnew : bound ≤ k := by omega
        cases h with
        | kept he => exact absurd he (Expr.not_ground_of_kind (by simp [Expr.kind]))
        | built he hs hkind _ hparts =>
          refine .built he hs hkind hnew fun p => ?_
          have hpart := hparts p
          cases p with
          | operand =>
            obtain ⟨c, hc, hrenewal⟩ := Option.exists_of_rel_some hpart
            rw [hc]
            exact .some (hih c hrenewal)
          | _ => exact hpart
        -- It was an added quotation, which is built anew as one.
        | quoted hl _ hinner' => exact .quoted (isLambda_of_coerce hl hinner) hnew (hih e hinner')
    | _ =>
      obtain ⟨rfl, -⟩ := pure_eq_ok.mp hcoerce
      exact h

/-- Retyping arguments in a row keeps each of them in its place. -/
theorem coerceEach_renews {es es' es'' : List Expr} {needs : List Ty}
    (hlen : es'.length = needs.length) (h : List.Forall₂ (Renewal bound) es es')
    (hn : bound ≤ n) (hcoerce : coerceEach es' needs n = .ok (es'', n')) :
    List.Forall₂ (Renewal bound) es es'' := by
  induction h generalizing needs es'' n with
  | nil =>
    obtain ⟨rfl, -⟩ := pure_eq_ok.mp hcoerce
    exact .nil
  | cons h _ ih =>
    cases needs with
    | nil => simp at hlen
    | cons need needs =>
      obtain ⟨first, rest, k, hfirst, hrest, rfl⟩ := coerceEach_cons_eq_ok.mp hcoerce
      have hk := coerce_le hfirst
      exact .cons (coerce_renews h hn hfirst) (ih (by simpa using hlen) (by omega) hrest)

/-- A call puts new quotations around its arguments, and nothing else. -/
theorem argumentsFrom_renews {method : MethodRef} {index : Nat} {es es' es'' : List Expr}
    {types : List Ty} (hlen : types.length = es'.length)
    (h : List.Forall₂ (Renewal bound) es es') (hn : bound ≤ n)
    (hargs : argumentsFrom method index es' types n = .ok (es'', n')) :
    List.Forall₂ (Renewal bound) es es'' := by
  induction h generalizing types es'' n index with
  | nil =>
    obtain ⟨rfl, -⟩ := argumentsFrom_nil_eq_ok.mp hargs
    exact .nil
  | cons h _ ih =>
    cases types with
    | nil => simp at hlen
    | cons t ts =>
      obtain ⟨first, rest, k, hfirst, hrest, rfl⟩ := argumentsFrom_cons_eq_ok.mp hargs
      have hlen' := Nat.succ.inj hlen
      -- The argument is taken as it is, or as a lambda in a new quotation.
      rcases argument_eq_ok.mp hfirst with ⟨-, rfl, rfl⟩ | ⟨-, hlambda, -, rfl, rfl⟩
      · exact .cons h (ih hlen' hn hrest)
      · exact .cons (.quoted hlambda hn h) (ih hlen' (by omega) hrest)

end Build

namespace Expr

/-! ## The walk -/

variable {s : Substitution} {cat : Catalog} {a : Arena} {st st' : PassState}

/-- Every successful walk over `e` returns what stands in its place. -/
def WalkRenews (s : Substitution) (cat : Catalog) (a : Arena) (e : Expr) : Prop :=
  ∀ {st st' : PassState} {e' : Expr}, e ∈ a.nodes → st.Faithful s a →
    (retarget s cat e).Returns st e' st' → Renewal a.supply e e'

/-- What a walk makes of an optional part stands in its place. -/
theorem option_renews {o o' : Option Expr} (ih : ∀ e, o = some e → WalkRenews s cat a e)
    (ho : ∀ e, o = some e → e ∈ a.nodes) (hf : st.Faithful s a)
    (hrun : (retargetOption s cat o).Returns st o' st') :
    Option.Rel (Renewal a.supply) o o' := by
  cases o with
  | none =>
    obtain ⟨rfl, rfl⟩ := returns_option_none.mp hrun
    exact .none
  | some e =>
    obtain ⟨e', he, rfl⟩ := returns_option_some.mp hrun
    exact .some (ih e rfl (ho e rfl) hf he)

/-- What a walk makes of parts in a row stands in their places, each handed on a memo that is
    faithful still. -/
theorem list_renews {es es' : List Expr} (ih : ∀ e ∈ es, WalkRenews s cat a e)
    (hes : ∀ e ∈ es, e ∈ a.nodes) (hf : st.Faithful s a)
    (hrun : (retargetList s cat es).Returns st es' st') :
    List.Forall₂ (Renewal a.supply) es es' := by
  induction es generalizing st es' with
  | nil =>
    obtain ⟨rfl, rfl⟩ := returns_list_nil.mp hrun
    exact .nil
  | cons e es ihs =>
    obtain ⟨first, st₁, rest, hfirst, hrest, rfl⟩ := returns_list_cons.mp hrun
    have he := hes e List.mem_cons_self
    have hf₁ := (retarget_follows s cat a e he hf hfirst).visits.faithful
    exact .cons (ih e List.mem_cons_self he hf hfirst)
      (ihs (fun x hx => ih x (List.mem_cons_of_mem _ hx))
        (fun x hx => hes x (List.mem_cons_of_mem _ hx)) hf₁ hrest)

/-- A node of the arena stands in its own place exactly if it is ground. -/
theorem Renewal.sameNode_iff {e e' : Expr} (h : Renewal a.supply e e') (he : e ∈ a.nodes) :
    e.SameNode e' ↔ e.Ground := by
  constructor
  · intro hid
    -- The identities of the arena were in use before the pass, so the node is not new.
    have hbound := a.bounded e he
    rw [show e.id = e'.id from hid] at hbound
    exact (h.eq_of_lt hbound).1
  · intro hground
    rw [h.eq_of_ground hground]
    rfl

/-- An optional part is the node that it was exactly if it is ground. -/
theorem sameOption_iff {o o' : Option Expr} (ho : ∀ e, o = some e → e ∈ a.nodes)
    (h : Option.Rel (Renewal a.supply) o o') :
    Build.sameOption o o' = true ↔ ∀ e, o = some e → e.Ground := by
  cases h with
  | none => simp [Build.sameOption]
  | some h => simp [Build.sameOption, h.sameNode_iff (ho _ rfl)]

/-- Parts in a row are the nodes that they were exactly if all are ground. -/
theorem sameList_iff {es es' : List Expr} (hes : ∀ e ∈ es, e ∈ a.nodes)
    (h : List.Forall₂ (Renewal a.supply) es es') :
    Build.sameList es es' = true ↔ ∀ e ∈ es, e.Ground := by
  induction h with
  | nil => simp [Build.sameList]
  | cons h _ ih =>
    have hfirst := h.sameNode_iff (hes _ List.mem_cons_self)
    have hrest := ih fun x hx => hes x (List.mem_cons_of_mem _ hx)
    simp [Build.sameList, hfirst, hrest]

/-- A call of a method that is not generic is kept by an update exactly if it is ground. -/
theorem sameParts_iff {id : Nat} {receiver receiver' : Option Expr} {method : MethodRef}
    {args args' : List Expr} {ty : Ty} (he : call id receiver method args ty ∈ a.nodes)
    (hmethod : method.isGeneric = false)
    (hreceiver : Option.Rel (Renewal a.supply) receiver receiver')
    (hargs : List.Forall₂ (Renewal a.supply) args args') :
    (Build.sameOption receiver receiver' && Build.sameList args args') = true ↔
      (call id receiver method args ty).Ground := by
  rw [Bool.and_eq_true, sameOption_iff (a.receiver_mem he) hreceiver,
    sameList_iff (a.args_mem he) hargs]
  constructor
  · intro h
    exact .call hmethod h.1 h.2
  · intro h
    cases h with
    | call _ hreceiver hargs => exact ⟨hreceiver, hargs⟩

theorem child?_of_isLeaf {e : Expr} (h : e.isLeaf = true) (p : Position) : e.child? p = none := by
  obtain ⟨q, rfl⟩ | ⟨id, v, rfl⟩ := isLeaf_iff.mp h <;> cases p <;> rfl

/-- A leaf is replaced by a new one, now or when it was first seen. -/
theorem leaf_renews {e e' : Expr} (hleaf : e.isLeaf = true) (he : e ∈ a.nodes)
    (hf : st.Faithful s a) (hrun : (retarget s cat e).Returns st e' st') :
    Renewal a.supply e e' := by
  obtain ⟨hvisits, hmaps⟩ := Visits.leaf hleaf he hf hrun
  have hf' := hvisits.faithful
  -- The memo replaces a leaf by one of its kind.
  have hkind : e'.kind = e.kind := by
    rw [hf'.eq_replacement he hmaps, kind_replacement]
  have hleaf' : e'.isLeaf = true := by
    rw [isLeaf_iff_kind, hkind]
    exact isLeaf_iff_kind.mp hleaf
  have hcall : e.kind ≠ .call := by
    rcases isLeaf_iff_kind.mp hleaf with h | h <;> rw [h] <;> decide
  have hnew : a.supply ≤ e'.id := (hf'.targets _ (hf'.mem_of_maps he hmaps)).2.1
  refine .built (not_ground_of_kind hcall) (supported_of_returns hrun) hkind hnew fun p => ?_
  rw [child?_of_isLeaf hleaf, child?_of_isLeaf hleaf']
  exact .none

/-- What a call builds over renewed parts is new. -/
theorem call_built {id n n' : Nat} {receiver receiver' : Option Expr} {method method' : MethodRef}
    {args args' : List Expr} {ty : Ty} {e' : Expr}
    (hground : ¬(call id receiver method args ty).Ground)
    (hreceiver : Option.Rel (Renewal a.supply) receiver receiver')
    (hargs : List.Forall₂ (Renewal a.supply) args args') (hn : a.supply ≤ n)
    (h : Build.call receiver' method' args' n = .ok (e', n')) :
    Renewal a.supply (call id receiver method args ty) e' := by
  obtain ⟨-, -, hlen, args'', k, hargs', rfl, -⟩ := Build.call_eq_ok.mp h
  have hk := Build.argumentsFrom_le hargs'
  have hid : a.supply ≤ k := Nat.le_trans hn hk
  have hsupported : (call id receiver method args ty).Supported := by simp [Supported, kind]
  exact .built hground hsupported rfl hid
    (rel_child?_call hreceiver (Build.argumentsFrom_renews hlen hargs hn hargs'))

/-- What a walk makes of a call stands in its place: the call itself if it is ground, and one that
    is new otherwise. -/
theorem call_renews {id : Nat} {receiver : Option Expr} {method : MethodRef} {args : List Expr}
    {ty : Ty} {e' : Expr} (ih : ∀ c ∈ (call id receiver method args ty).children,
      WalkRenews s cat a c)
    (he : call id receiver method args ty ∈ a.nodes) (hf : st.Faithful s a)
    (hrun : (retarget s cat (call id receiver method args ty)).Returns st e' st') :
    Renewal a.supply (call id receiver method args ty) e' := by
  obtain ⟨args', st₁, receiver', st₂, hargs, hreceiver, hbuild⟩ := returns_call.mp hrun
  have hf₁ := (retargetList_follows (a.args_mem he) hf hargs).visits.faithful
  have hf₂ := (retargetOption_follows (a.receiver_mem he) hf₁ hreceiver).visits.faithful
  have hargs' := list_renews (fun x hx => ih x (List.mem_append_right _ hx)) (a.args_mem he) hf
    hargs
  have hreceiver' := option_renews (fun x hx => ih x (by simp [children, hx]))
    (a.receiver_mem he) hf₁ hreceiver
  have hsupply := hf₂.supply
  rcases hbuild with ⟨hgeneric, args'', k, n, hcoerce, hcall, -⟩ | ⟨hgeneric, n, hupdate, -⟩
  · -- A call of a generic method is always built anew.
    have hground : ¬(call id receiver method args ty).Ground := by
      intro h
      cases h with
      | call hmethod _ _ =>
        rw [hmethod] at hgeneric
        cases hgeneric
    obtain ⟨hlen, hcoerce⟩ := Build.coerceAll_eq_ok.mp hcoerce
    have hk := Build.coerceEach_le hcoerce
    exact call_built hground hreceiver' (Build.coerceEach_renews hlen hargs' hsupply hcoerce)
      (by omega) hcall
  · -- Any other call is updated, and so kept exactly if all its parts are.
    have hsame := sameParts_iff he hgeneric hreceiver' hargs'
    rcases Build.updateCall_eq_ok.mp hupdate with ⟨hkept, rfl, -⟩ | ⟨hchanged, hcall⟩
    · exact .kept (hsame.mp hkept)
    · have hground : ¬(call id receiver method args ty).Ground := by
        intro h
        rw [hsame.mpr h] at hchanged
        cases hchanged
      exact call_built hground hreceiver' hargs' hsupply hcall

/-! All other nodes are built anew, each over what stands in the places of its parts. -/

/-- A lambda is new, over what stands in the places of its parameters and its body. -/
theorem lambda_renews {id : Nat} {delegate : Ty} {name : Option String} {tailCall : Bool}
    {params : List Parameter} {body e' : Expr}
    (ih : ∀ c ∈ (lambda id delegate name tailCall params body).children, WalkRenews s cat a c)
    (he : lambda id delegate name tailCall params body ∈ a.nodes) (hf : st.Faithful s a)
    (hrun : (retarget s cat (lambda id delegate name tailCall params body)).Returns st e' st') :
    Renewal a.supply (lambda id delegate name tailCall params body) e' := by
  have hparts := a.closed _ he
  obtain ⟨params', st₁, body', st₂, n, hparams, hbody, hbuild, -⟩ := returns_lambda.mp hrun
  obtain ⟨ps, rfl, rfl, -⟩ := Build.lambda_eq_ok.mp hbuild
  have hbodymem : body ∈ (lambda id delegate name tailCall params body).children := by
    simp [children]
  have hparamsmem : ∀ x ∈ params.map Expr.parameter, x ∈ a.nodes := fun x hx =>
    hparts x (List.mem_append_left _ hx)
  have hf₁ := (retargetList_follows hparamsmem hf hparams).visits.faithful
  have hf₂ := (retarget_follows s cat a body (hparts body hbodymem) hf₁ hbody).visits.faithful
  have hparams' := list_renews (fun x hx => ih x (List.mem_append_left _ hx)) hparamsmem hf hparams
  rw [List.forall₂_map_left_iff, List.forall₂_map_right_iff] at hparams'
  have hbody' := ih body hbodymem (hparts body hbodymem) hf₁ hbody
  have hkind : (lambda id delegate name tailCall params body).kind ≠ .call := by simp [kind]
  exact .built (not_ground_of_kind hkind) (supported_of_returns hrun) rfl hf₂.supply
    (rel_child?_lambda hparams' hbody')

/-- The access of a member is new, through what stands in the place of its object. -/
theorem member_renews {id : Nat} {object : Option Expr} {m : Member} {e' : Expr}
    (ih : ∀ c ∈ (member id object m).children, WalkRenews s cat a c)
    (he : member id object m ∈ a.nodes) (hf : st.Faithful s a)
    (hrun : (retarget s cat (member id object m)).Returns st e' st') :
    Renewal a.supply (member id object m) e' := by
  obtain ⟨object', st₁, m', n, hobject, -, hbuild, -⟩ := returns_memberAccess.mp hrun
  obtain ⟨-, rfl, -⟩ := Build.member_eq_ok.mp hbuild
  have hmem : ∀ o, object = some o → o ∈ a.nodes := fun o ho =>
    a.closed _ he o (by simp [children, ho])
  have hf₁ := (retargetOption_follows hmem hf hobject).visits.faithful
  have hobject' := option_renews (fun o ho => ih o (by simp [children, ho])) hmem hf hobject
  have hkind : (member id object m).kind ≠ .call := by simp [kind]
  exact .built (not_ground_of_kind hkind) (supported_of_returns hrun) rfl hf₁.supply
    (rel_child?_member hobject')

/-- A unary node is new, over what stands in the place of its operand. -/
theorem unary_renews {id : Nat} {op : UnaryOp} {operand : Expr} {ty : Ty}
    {method : Option MethodRef} {e' : Expr}
    (ih : ∀ c ∈ (unary id op operand ty method).children, WalkRenews s cat a c)
    (he : unary id op operand ty method ∈ a.nodes) (hf : st.Faithful s a)
    (hrun : (retarget s cat (unary id op operand ty method)).Returns st e' st') :
    Renewal a.supply (unary id op operand ty method) e' := by
  obtain ⟨operand', st₁, n, hoperand, hbuild, -⟩ := returns_unary.mp hrun
  obtain ⟨t, -, rfl, -⟩ := Build.unary_eq_ok.mp hbuild
  have hchild : operand ∈ (unary id op operand ty method).children := by simp [children]
  have hmem := a.closed _ he operand hchild
  have hf₁ := (retarget_follows s cat a operand hmem hf hoperand).visits.faithful
  have hoperand' := ih operand hchild hmem hf hoperand
  have hkind : (unary id op operand ty method).kind ≠ .call := by simp [kind]
  exact .built (not_ground_of_kind hkind) (supported_of_returns hrun) rfl hf₁.supply
    (rel_child?_unary hoperand')

/-- A binary node is new, over what stands in the places of its operands and its conversion. -/
theorem binary_renews {id : Nat} {op : BinaryOp} {left right : Expr} {lifted : Bool}
    {method : Option MethodRef} {conversion : Option Expr} {ty : Ty} {e' : Expr}
    (ih : ∀ c ∈ (binary id op left right lifted method conversion ty).children,
      WalkRenews s cat a c)
    (he : binary id op left right lifted method conversion ty ∈ a.nodes) (hf : st.Faithful s a)
    (hrun : (retarget s cat (binary id op left right lifted method conversion ty)).Returns st e'
      st') :
    Renewal a.supply (binary id op left right lifted method conversion ty) e' := by
  have hparts := a.closed _ he
  obtain ⟨left', st₁, right', st₂, conversion', st₃, n, hleft, hright, hconversion, hbuild, -⟩ :=
    returns_binary.mp hrun
  obtain ⟨-, t, -, rfl, -⟩ := Build.binary_eq_ok.mp hbuild
  have hleftmem : left ∈ (binary id op left right lifted method conversion ty).children := by
    simp [children]
  have hrightmem : right ∈ (binary id op left right lifted method conversion ty).children := by
    simp [children]
  have hconversionmem : ∀ c, conversion = some c → c ∈ a.nodes := fun c hc =>
    hparts c (by simp [children, hc])
  have hf₁ := (retarget_follows s cat a left (hparts left hleftmem) hf hleft).visits.faithful
  have hf₂ := (retarget_follows s cat a right (hparts right hrightmem) hf₁ hright).visits.faithful
  have hf₃ := (retargetOption_follows hconversionmem hf₂ hconversion).visits.faithful
  have hleft' := ih left hleftmem (hparts left hleftmem) hf hleft
  have hright' := ih right hrightmem (hparts right hrightmem) hf₁ hright
  have hconversion' := option_renews (fun c hc => ih c (by simp [children, hc])) hconversionmem
    hf₂ hconversion
  have hkind : (binary id op left right lifted method conversion ty).kind ≠ .call := by
    simp [kind]
  exact .built (not_ground_of_kind hkind) (supported_of_returns hrun) rfl hf₃.supply
    (rel_child?_binary hleft' hright' hconversion')

/-- Every successful walk returns what stands in the place of its expression. -/
theorem retarget_renews (s : Substitution) (cat : Catalog) (a : Arena) (e : Expr) :
    WalkRenews s cat a e := by
  -- By induction over parts, one lemma for each kind of node.
  induction e using childInduction with
  | node e ih =>
    intro st st' e' he hf hrun
    cases e with
    | call id receiver method args ty => exact call_renews ih he hf hrun
    | lambda id delegate name tailCall params body => exact lambda_renews ih he hf hrun
    | parameter p => exact leaf_renews rfl he hf hrun
    | member id object m => exact member_renews ih he hf hrun
    | constant id v => exact leaf_renews rfl he hf hrun
    | unary id op operand ty method => exact unary_renews ih he hf hrun
    | binary id op left right lifted method conversion ty => exact binary_renews ih he hf hrun
    -- No walk over the other kinds succeeds.
    | conditional id test ifTrue ifFalse ty => exact absurd rfl (supported_of_returns hrun).1
    | invoke id target args ty => exact absurd rfl (supported_of_returns hrun).2.1
    | default id ty => exact absurd rfl (supported_of_returns hrun).2.2

/-! ## Whole passes -/

/-- What a pass that made `e'` of `e` kept of `e`, place by place. -/
structure SharesGround (e e' : Expr) : Prop where
  /-- Where a place of the result corresponds to one of the input, there is a node of the input
      exactly if that place of the input has a ground node, and then it is that very node. -/
  corresponding : ∀ path' path n', e'.descend? path' = some n' → origin? path' e e' = some path →
    ∃ n, e.descend? path = some n ∧ follow? path e e' = some n' ∧
      (n'.OccursIn e ↔ n.Ground) ∧ (n.Ground → n' = n)
  /-- Where it corresponds to none, there is a quotation of a lambda, which is new. -/
  added : ∀ path' n', e'.descend? path' = some n' → origin? path' e e' = none →
    ∃ id l ty method, n' = .unary id .quote l ty method ∧ l.isLambda = true ∧ ¬n'.OccursIn e
  /-- Every place of the input has a corresponding one. -/
  reached : ∀ path n, e.descend? path = some n →
    ∃ path' n', e'.descend? path' = some n' ∧ origin? path' e e' = some path
  /-- All that input and result have in common are calls of methods that are not generic. -/
  common : ∀ n : Expr, n.Within e → n.OccursIn e' → n.Ground ∧
    ∃ id receiver method args ty,
      n = .call id receiver method args ty ∧ method.isGeneric = false

/-- A node that is new does not occur in an expression of the arena. -/
theorem not_occursIn_of_le {e n : Expr} (he : e ∈ a.nodes) (hn : a.supply ≤ n.id) :
    ¬n.OccursIn e := by
  intro h
  obtain ⟨x, hx, hsame⟩ := h
  have hbound := a.bounded x (a.mem_of_within hx he)
  rw [show x.id = n.id from hsame] at hbound
  omega

/-- What stands in a place occurs in the expression exactly if it is ground there. -/
theorem Renewal.occursIn_iff {e n n' : Expr} (h : Renewal a.supply n n') (he : e ∈ a.nodes)
    (hn : n.Within e) : n'.OccursIn e ↔ n.Ground := by
  -- It is the ground node itself, or a new one, which no expression of the arena has.
  rcases h.eq_or_new with ⟨hground, rfl⟩ | ⟨hground, hnew⟩
  · exact iff_of_true ⟨n', hn, rfl⟩ hground
  · exact iff_of_false (not_occursIn_of_le he hnew) hground

/-- A node that occurs in what stands in the place of an expression as well is ground. -/
theorem Renewal.ground_of_common {e e' n : Expr} (h : Renewal a.supply e e') (he : e ∈ a.nodes)
    (hn : n.Within e) (hcommon : n.OccursIn e') : n.Ground := by
  obtain ⟨x, hx, hsame⟩ := hcommon
  have hmem := a.mem_of_within hn he
  have hbound := a.bounded n hmem
  rw [← show x.id = n.id from hsame] at hbound
  obtain ⟨path', hpath'⟩ := h.exists_path hx
  rcases h.at_place hpath' with ⟨path, m, -, hm, -, hrenewal⟩ | ⟨-, id, l, ty, method, rfl, -, hid⟩
  · -- The node found there is the one in the corresponding place, hence `n`.
    obtain ⟨hground, rfl⟩ := hrenewal.eq_of_lt hbound
    have hx := a.mem_of_within (within_of_descend? hm) he
    rwa [← a.coherent x hx n hmem hsame]
  · have hid' : id < a.supply := hbound
    omega

/-- A pass returns the ground nodes of its input where they are, and builds all other nodes. -/
theorem Constructed.sharesGround {supply : Nat} {e e' : Expr} (h : e.Constructed supply)
    (hrun : (Pass.run s cat supply e).result = .ok e') : SharesGround e e' := by
  obtain ⟨a, rfl, he⟩ := h.exists_arena
  have hrenewal : Renewal a.supply e e' :=
    retarget_renews s cat a e he (.start s a) (Pass.returns_of_result hrun)
  exact {
    corresponding := by
      intro path' path n' hn' horigin
      rcases hrenewal.at_place hn' with ⟨path₁, n, hpath, hn, hfollow, hpart⟩ | ⟨hnone, -⟩
      · obtain rfl := Option.some.inj (hpath.symm.trans horigin)
        exact ⟨n, hn, hfollow, hpart.occursIn_iff he (within_of_descend? hn), hpart.eq_of_ground⟩
      · rw [hnone] at horigin
        cases horigin
    added := by
      intro path' n' hn' horigin
      rcases hrenewal.at_place hn' with ⟨path₁, n, hpath, -⟩ | ⟨-, id, l, ty, method, rfl, hl, hid⟩
      · rw [hpath] at horigin
        cases horigin
      · exact ⟨id, l, ty, method, rfl, hl, not_occursIn_of_le he hid⟩
    reached := fun path n hn => hrenewal.exists_place hn
    common := by
      intro n hn hcommon
      have hground := hrenewal.ground_of_common he hn hcommon
      exact ⟨hground, hground.exists_call⟩ }

end Expr

namespace Sample

/-! ### A query with a ground part

The query `x.Select(i => i.Id == Clock.Now().Ticks())`, with the calls of the clock numbered from
3 on; all other nodes are numbered from the three given identities on. -/

/-- A static method that is not generic, so that its call is ground. -/
def now : MethodRef :=
  .ofDef ⟨.named "Clock", "Now", [], [], .named "Time", true⟩

/-- An instance method, called on what the clock shows. -/
def ticks : MethodRef :=
  .ofDef ⟨.named "Time", "Ticks", [], [], Ty.long, false⟩

/-- The present time in ticks, which depends on no item. -/
def present : Expr :=
  .call 4 (some (.call 3 none now [] (.named "Time"))) ticks [] Ty.long

/-- The comparison of the identifier of an item with the present time. -/
def currency (item : Ty) (first middle : Nat) : Expr :=
  .binary middle .equal (identifier item first) present false none none Ty.bool

/-- The lambda of the query, from items to objects. -/
def currentSelector (item : Ty) (first middle outer : Nat) : Expr :=
  .lambda outer (Ty.func [item] Ty.object) none false [element item first]
    (currency item first middle)

/-- The query, with its lambda in a quotation. -/
def currentItems (item : Ty) (first middle outer : Nat) : Expr :=
  .call (outer + 2) none (select item)
    [source item first,
      .unary (outer + 1) .quote (currentSelector item first middle outer)
        (Ty.expression (Ty.func [item] Ty.object)) none]
    (Ty.query Ty.object)

/-- The query is built node by node, the lambda retyped and quoted as an argument. -/
theorem currentItems_built : ∃ nodes, Built 9 (currentItems itemFrom 0 5 6 :: nodes) := by
  have hnow : Built 4 (.call 3 none now [] (.named "Time") :: _) :=
    .extend (.call none now []) identifier_built (by simp [Operation.operands]) rfl
  have hpresent : Built 5 (present :: _) :=
    .extend (.call (some (.call 3 none now [] (.named "Time"))) ticks []) hnow
      (by simp [Operation.operands]) rfl
  have hcurrency : Built 6 (currency itemFrom 0 5 :: _) :=
    .extend (.binary .equal (identifier itemFrom 0) present false none none) hpresent
      (by simp [Operation.operands]) rfl
  have hselector : Built 7 (currentSelector itemFrom 0 5 6 :: _) :=
    .extend (.typedLambda (Ty.func [itemFrom] Ty.object) (currency itemFrom 0 5) none false
      [.parameter (element itemFrom 0)]) hcurrency (by simp [Operation.operands]) rfl
  exact ⟨_, .extend (.call none (select itemFrom)
    [source itemFrom 0, currentSelector itemFrom 0 5 6]) hselector
    (by simp [Operation.operands]) rfl⟩

/-- The clock is read in the new query by the very calls of the old one, and the rest is new. -/
theorem currentItems_sharesGround :
    (Pass.run items catalog 9 (currentItems itemFrom 0 5 6)).result =
        .ok (currentItems itemTo 9 12 15) ∧
      (currentItems itemTo 9 12 15).descend? [.arg 1, .operand, .body, .right] = some present ∧
      Expr.SharesGround (currentItems itemFrom 0 5 6) (currentItems itemTo 9 12 15) := by
  obtain ⟨nodes, hbuilt⟩ := currentItems_built
  have hrun : (Pass.run items catalog 9 (currentItems itemFrom 0 5 6)).result =
      .ok (currentItems itemTo 9 12 15) := rfl
  exact ⟨hrun, rfl, Expr.Constructed.sharesGround (hbuilt.constructed List.mem_cons_self) hrun⟩

end Sample

end Retarget

import Retarget.Proofs.Unfolding

/-!
# The memo is transparent

A pass over a graph gives the tree that the recursion over trees gives, and fails as that recursion
does. How a leaf comes by its replacement does not matter, which may be a remembered one or a new
one: what is remembered was made as it would be made again. The statement is therefore about
`Expr.walk`, which leaves open how leaves are replaced. A pass is such a walk, in which each leaf is
replaced once; in another one, nothing is remembered.

## Key results

- `Expr.retarget_eq_walk`: a pass as a walk that remembers its leaves
- `Expr.walk_unfolds`: every walk that renews its leaves does what the recursion over trees does
- `Expr.map_tree_result`: the statement for whole passes
- `Expr.Constructed.sameOutcome`: neither sharing nor the memo can be seen in the outcome of a pass
-/

namespace Retarget

/-! ## Replacing leaves -/

namespace Pass

/-- Replaces a leaf by a new one, whether it was replaced before or not. -/
def renew (s : Substitution) : Expr → Pass Expr
  | .parameter p => do
    let target := s.resolve p.ty
    let replacement ← build (Build.parameter target p.name p.byRef)
    emit (.parameterReplaced p target)
    return replacement
  | .constant _ v => do
    let target := s.transform v
    let replacement ← build (Build.constant target)
    emit (.constantReplaced v target)
    return replacement
  | e => return e

/-- Replaces a leaf unless its replacement is remembered. -/
def renewOnce (s : Substitution) (e : Expr) : Pass Expr := once e (renew s e)

/-- Renewing a leaf gives its replacement under the next identity, and tells of it. -/
theorem returns_renew {s : Substitution} {e : Expr} {st : PassState} (hleaf : e.isLeaf = true) :
    (renew s e).Returns st (e.replacement s st.supply)
      ⟨st.supply + 1, st.memo, st.events ++ e.replacementEvents s⟩ := by
  obtain ⟨p, rfl⟩ | ⟨id, v, rfl⟩ := Expr.isLeaf_iff.mp hleaf <;> rfl

end Pass

namespace Expr

open Pass (Realizes)

mutual

/-- The walk of a pass, with the replacement of leaves left open. -/
def walk (leaf : Expr → Pass Expr) (s : Substitution) (cat : Catalog) : Expr → Pass Expr
  | .call id receiver method args ty => do
    let args' ← walkList leaf s cat args
    let receiver' ← walkOption leaf s cat receiver
    if method.isGeneric then
      let method' ← Pass.method s method
      let args'' ← Pass.build (Build.coerceAll method'.name args' method'.parameterTypes)
      Pass.build (Build.call receiver' method' args'')
    else Pass.build (Build.updateCall (.call id receiver method args ty) receiver' args')
  | .lambda _ _ name tailCall params body => do
    let params' ← params.mapM fun p => leaf (.parameter p)
    let body' ← walk leaf s cat body
    Pass.build (Build.lambda body' name tailCall params')
  | .parameter p => leaf (.parameter p)
  | .member _ object m => do
    let object' ← walkOption leaf s cat object
    let m' ← Pass.member s cat m
    Pass.build (Build.member object' m')
  | .constant id v => leaf (.constant id v)
  | .unary _ op operand ty method => do
    let operand' ← walk leaf s cat operand
    let method' ← Pass.overload s method
    let ty' := if op = .quote then ty else s.resolve ty
    Pass.build (Build.unary op operand' ty' method')
  | .binary _ op left right lifted method conversion _ => do
    let left' ← walk leaf s cat left
    let right' ← walk leaf s cat right
    let conversion' ← walkOption leaf s cat conversion
    let method' ← Pass.overload s method
    Pass.build (Build.binary op left' right' lifted method' conversion')
  | .conditional .. => throw (.unsupportedKind .conditional)
  | .invoke .. => throw (.unsupportedKind .invoke)
  | .default .. => throw (.unsupportedKind .default)

/-- The walk over an optional part. -/
def walkOption (leaf : Expr → Pass Expr) (s : Substitution) (cat : Catalog) :
    Option Expr → Pass (Option Expr)
  | none => return none
  | some e => return some (← walk leaf s cat e)

/-- The walk over parts from the left. -/
def walkList (leaf : Expr → Pass Expr) (s : Substitution) (cat : Catalog) :
    List Expr → Pass (List Expr)
  | [] => return []
  | e :: es => do
    let first ← walk leaf s cat e
    return first :: (← walkList leaf s cat es)

end

variable {s : Substitution} {cat : Catalog} {a : Arena} {st st' : PassState} {done : List Expr}
  {leaf : Expr → Pass Expr}

/-- The pass over parts in a row is a walk if that over each of them is. -/
private theorem retargetList_eq_walkList {es : List Expr}
    (h : ∀ e ∈ es, retarget s cat e = walk (Pass.renewOnce s) s cat e) :
    retargetList s cat es = walkList (Pass.renewOnce s) s cat es := by
  induction es with
  | nil => rfl
  | cons e es ih =>
    rw [retargetList, walkList, h e List.mem_cons_self,
      ih fun x hx => h x (List.mem_cons_of_mem _ hx)]

/-- The pass over an optional part is a walk if that over the part is. -/
private theorem retargetOption_eq_walkOption {o : Option Expr}
    (h : ∀ e, o = some e → retarget s cat e = walk (Pass.renewOnce s) s cat e) :
    retargetOption s cat o = walkOption (Pass.renewOnce s) s cat o := by
  cases o with
  | none => rfl
  | some e => rw [retargetOption, walkOption, h e rfl]

/-- A pass is the walk in which leaves are replaced once. -/
theorem retarget_eq_walk (s : Substitution) (cat : Catalog) (e : Expr) :
    retarget s cat e = walk (Pass.renewOnce s) s cat e := by
  -- By induction over parts: the two recursions differ at the leaves only, and there by a name.
  induction e using childInduction with
  | node e ih =>
    cases e with
    | call id receiver method args ty =>
      rw [retarget, walk, retargetList_eq_walkList fun x hx => ih x (by simp [children, hx]),
        retargetOption_eq_walkOption fun r hr => ih r (by simp [children, hr])]
    | lambda id delegate name tailCall params body =>
      rw [retarget, walk, ih body (by simp [children])]
      rfl
    | parameter p => rfl
    | member id object m =>
      rw [retarget, walk, retargetOption_eq_walkOption fun o ho => ih o (by simp [children, ho])]
    | constant id v => rfl
    | unary id op operand ty method => rw [retarget, walk, ih operand (by simp [children])]
    | binary id op left right lifted method conversion ty =>
      rw [retarget, walk, ih left (by simp [children]), ih right (by simp [children]),
        retargetOption_eq_walkOption fun c hc => ih c (by simp [children, hc])]
    | conditional id test ifTrue ifFalse ty => rfl
    | invoke id target args ty => rfl
    | default id ty => rfl

/-- To replace the parameters of a lambda is to walk over them as nodes. -/
theorem mapM_leaf (leaf : Expr → Pass Expr) (s : Substitution) (cat : Catalog)
    (params : List Parameter) :
    (params.mapM fun p => leaf (.parameter p)) = walkList leaf s cat (params.map .parameter) := by
  induction params with
  | nil => rfl
  | cons p ps ih => rw [List.mapM_cons, ih]; rfl

/-! ## Walks over an arena -/

/-- A walk over an expression of the arena `a` that has returned `done` so far: what it has built
    lies in an extension of the arena, and what is remembered for leaves of the arena are new nodes
    that replace them. -/
structure Underway (s : Substitution) (a : Arena) (done : List Expr) (st : PassState) : Prop where
  attains : a.Attains st done
  memo : ∀ entry ∈ st.memo.entries, entry.1 ∈ a.nodes ∧
    entry.2.tree = entry.1.replacement s 0 ∧ a.supply ≤ entry.2.id

namespace Underway

/-- Before a walk nothing is returned and nothing remembered. -/
theorem start (s : Substitution) (a : Arena) : Underway s a [] ⟨a.supply, .empty, []⟩ :=
  ⟨⟨a, .refl a, a.tracks_start, by simp⟩, by simp [Memo.empty]⟩

/-- A walk only takes identities that the arena has left. -/
theorem supply_le (hu : Underway s a done st) : a.supply ≤ st.supply := by
  obtain ⟨b, hba, htb, -⟩ := hu.attains
  have hle := hba.supply
  have heq := htb.supply
  omega

/-- The order of what was returned does not matter, nor does all of it have to be kept. -/
theorem mono {done' : List Expr} (hu : Underway s a done st) (h : done' ⊆ done) :
    Underway s a done' st := by
  obtain ⟨⟨b, hba, htb, hb⟩, hmemo⟩ := hu
  exact ⟨⟨b, hba, htb, fun e he => hb e (h he)⟩, hmemo⟩

/-- The history does not matter. -/
theorem tell (hu : Underway s a done st) (events : List Event) :
    Underway s a done { st with events } := by
  obtain ⟨⟨b, hba, htb, hb⟩, hmemo⟩ := hu
  exact ⟨⟨b, hba, ⟨htb.supply, htb.memo⟩, hb⟩, hmemo⟩

/-- What is built out of nodes of the walk are nodes of the walk. -/
theorem gain {n : Nat} (hu : Underway s a done st) (new : List Expr) (events : List Event)
    (h : ∀ b : Arena, b.Extends a → b.supply = st.supply → (∀ e ∈ done, e ∈ b.nodes) →
      b.Gains n new) :
    Underway s a (new ++ done) ⟨n, st.memo, events⟩ := by
  obtain ⟨⟨b, hba, htb, hb⟩, hmemo⟩ := hu
  -- Built in the arena of the walk, which thereby is extended once more.
  obtain ⟨c, hcb, htc, hc⟩ := (h b hba htb.supply hb).attains htb events
  refine ⟨⟨c, hcb.trans hba, htc, fun e he => ?_⟩, hmemo⟩
  rcases List.mem_append.mp he with he | he
  · exact hc e he
  · exact hcb.nodes e (hb e he)

/-- A replacement that is remembered has to be a new node made as it has to be. -/
theorem record {e e' : Expr} (hu : Underway s a (e' :: done) st)
    (hlookup : st.memo.lookup? e = none) (he : e ∈ a.nodes) (htree : e'.tree = e.replacement s 0)
    (hnew : a.supply ≤ e'.id) :
    Underway s a (e' :: done) { st with memo := st.memo.record e e' } := by
  obtain ⟨⟨b, hba, htb, hb⟩, hmemo⟩ := hu
  have hentries := Memo.entries_record_of_lookup?_eq_none e' hlookup
  -- The new entry is behind those that were there, and its replacement has just been returned.
  refine ⟨⟨b, hba, ⟨htb.supply, fun entry hentry => ?_⟩, hb⟩, fun entry hentry => ?_⟩
  · rw [hentries] at hentry
    rcases List.mem_append.mp hentry with hentry | hentry
    · exact htb.memo entry hentry
    · rw [List.mem_singleton.mp hentry]
      exact hb e' List.mem_cons_self
  · rw [hentries] at hentry
    rcases List.mem_append.mp hentry with hentry | hentry
    · exact hmemo entry hentry
    · rw [List.mem_singleton.mp hentry]
      exact ⟨he, htree, hnew⟩

end Underway

/-- Leaves of the arena are replaced by new nodes that are made as they have to be. -/
def Renews (leaf : Expr → Pass Expr) (s : Substitution) (a : Arena) : Prop :=
  ∀ {e : Expr} {st : PassState} {done : List Expr}, e ∈ a.nodes → e.isLeaf = true →
    Underway s a done st → ∃ e' st', (leaf e).Returns st e' st' ∧
      e'.tree = e.replacement s 0 ∧ a.supply ≤ e'.id ∧ Underway s a (e' :: done) st'

/-- Renewing renews, as every replacement takes a new identity. -/
theorem renews_renew (s : Substitution) (a : Arena) : Renews (Pass.renew s) s a := by
  intro e st done he hleaf hu
  refine ⟨_, _, Pass.returns_renew hleaf, tree_replacement s _ hleaf, ?_,
    hu.gain [_] _ fun b _ hb _ => ?_⟩
  · rw [id_replacement s _ hleaf]
    exact hu.supply_le
  · rw [← hb]
    exact gains_replacement hleaf

/-- Looking a leaf up before renewing it renews it too, as what is remembered was renewed before. -/
theorem renews_renewOnce (s : Substitution) (a : Arena) : Renews (Pass.renewOnce s) s a := by
  intro e st done he hleaf hu
  cases h : st.memo.lookup? e with
  | some r =>
    -- What is remembered for the leaf was made as it would be made now.
    obtain ⟨source, hmem, hid⟩ := Memo.mem_of_lookup? h
    obtain ⟨hsource, htree, hnew⟩ := hu.memo _ hmem
    obtain rfl := a.coherent source hsource e he hid
    obtain ⟨b, hba, htb, hb⟩ := hu.attains
    exact ⟨r, st, Pass.returns_once.mpr (.inl ⟨h, rfl⟩), htree, hnew,
      ⟨b, hba, htb, List.forall_mem_cons.mpr ⟨htb.memo _ hmem, hb⟩⟩, hu.memo⟩
  | none =>
    -- A leaf that is new is renewed and then recorded, which renewing itself does not do.
    obtain ⟨e', st₁, hrenew, htree, hnew, hu₁⟩ := renews_renew s a he hleaf hu
    have hmemo : st₁.memo = st.memo := by
      have heq := hrenew.symm.trans (Pass.returns_renew hleaf)
      rw [(Prod.mk.inj heq).2]
    refine ⟨e', _, Pass.returns_once.mpr (.inr ⟨h, st₁, hrenew, rfl⟩), htree, hnew, ?_⟩
    exact hu₁.record (hmemo ▸ h) he htree hnew

/-- A walk over `e` has returned `e'`, of which the recursion over trees gives the tree; and if the
    node returned is not new, it is `e` itself. -/
structure Walked (s : Substitution) (a : Arena) (done : List Expr) (e e' : Expr) (st' : PassState)
    (x : Expr) : Prop where
  tree : e'.tree = x
  kept : e'.id < a.supply → e' = e
  underway : Underway s a (e' :: done) st'

/-- A walk over an optional part. -/
structure WalkedOption (s : Substitution) (a : Arena) (done : List Expr) (o o' : Option Expr)
    (st' : PassState) (x : Option Expr) : Prop where
  tree : o'.map Expr.tree = x
  kept : Option.Rel (fun e e' => e'.id < a.supply → e' = e) o o'
  underway : Underway s a (o'.toList ++ done) st'

/-- A walk over a list of parts. -/
structure WalkedList (s : Substitution) (a : Arena) (done : List Expr) (es es' : List Expr)
    (st' : PassState) (xs : List Expr) : Prop where
  tree : es'.map Expr.tree = xs
  kept : List.Forall₂ (fun e e' => e'.id < a.supply → e' = e) es es'
  underway : Underway s a (es' ++ done) st'

/-- Every walk over `e` does what the recursion over trees does. -/
def WalkUnfolds (leaf : Expr → Pass Expr) (s : Substitution) (cat : Catalog) (a : Arena)
    (e : Expr) : Prop :=
  ∀ {st : PassState} {done : List Expr}, e ∈ a.nodes → Underway s a done st →
    (walk leaf s cat e).Realizes st (retargetTree s cat e) (Walked s a done e)

/-- The walk over an optional part does what the recursion over its tree does. -/
theorem walkOption_unfolds {o : Option Expr} (ih : ∀ e, o = some e → WalkUnfolds leaf s cat a e)
    (ho : ∀ e, o = some e → e ∈ a.nodes) (hu : Underway s a done st) :
    (walkOption leaf s cat o).Realizes st (retargetTreeOption s cat o)
      (WalkedOption s a done o) := by
  cases o with
  | none => exact Pass.realizes_pure ⟨rfl, .none, hu⟩
  | some e =>
    rw [walkOption, retargetTreeOption]
    refine (ih e rfl (ho e rfl) hu).bind fun e' st' x h => Pass.realizes_pure ?_
    exact ⟨congrArg some h.tree, .some h.kept, h.underway⟩

/-- The walk over parts in a row does what the recursion over their trees does. -/
theorem walkList_unfolds {es : List Expr} (ih : ∀ e ∈ es, WalkUnfolds leaf s cat a e)
    (hes : ∀ e ∈ es, e ∈ a.nodes) (hu : Underway s a done st) :
    (walkList leaf s cat es).Realizes st (retargetTrees s cat es) (WalkedList s a done es) := by
  -- From the left, each part in the state that those before it have left.
  induction es generalizing st done with
  | nil => exact Pass.realizes_pure ⟨rfl, .nil, hu⟩
  | cons e es ihs =>
    rw [walkList, retargetTrees]
    refine (ih e List.mem_cons_self (hes e List.mem_cons_self) hu).bind fun first st₁ x h => ?_
    refine (ihs (fun e he => ih e (List.mem_cons_of_mem _ he))
      (fun e he => hes e (List.mem_cons_of_mem _ he)) h.underway).bind fun rest st₂ xs hs => ?_
    refine Pass.realizes_pure ⟨?_, .cons h.kept hs.kept, hs.underway.mono ?_⟩
    · rw [List.map_cons, h.tree, hs.tree]
    · intro y hy
      simpa [or_left_comm] using hy

/-- A walk over a leaf. -/
theorem leaf_unfolds (hleaf : Renews leaf s a) {e : Expr} (he : e ∈ a.nodes)
    (heleaf : e.isLeaf = true) (hu : Underway s a done st) :
    (leaf e).Realizes st (retargetTree s cat e) (Walked s a done e) := by
  obtain ⟨e', st', hrun, htree, hnew, hu'⟩ := hleaf he heleaf hu
  exact .ok hrun (retargetTree_of_isLeaf heleaf) ⟨htree, fun hlt => by omega, hu'⟩

/-- A node that a walk builds last, out of what it has returned before. It is new, unless it is the
    node that is walked over. -/
theorem build_unfolds {b : Build Expr} {e : Expr} {x : Except RetargetError Expr}
    {done' : List Expr} (hu : Underway s a done' st) (hdone : done ⊆ done')
    (hx : b.outcome Expr.tree st.supply = x)
    (hnew : ∀ e' n, b st.supply = .ok (e', n) → e' = e ∨ st.supply ≤ e'.id)
    (hgains : ∀ (c : Arena) {e' : Expr} {n : Nat}, c.Extends a → (∀ y ∈ done', y ∈ c.nodes) →
      b c.supply = .ok (e', n) → c.Gains n [e']) :
    (Pass.build b).Realizes st x (Walked s a done e) := by
  refine Pass.realizes_build hx fun e' n hb => ⟨rfl, fun hlt => ?_, ?_⟩
  · -- A node below the identities of the walk is not new, so it is the old one.
    have hle := hu.supply_le
    rcases hnew e' n hb with heq | hge
    · exact heq
    · omega
  · have hu' := hu.gain [e'] st.events fun c hca hc hdone' => by
      rw [← hc] at hb
      exact hgains c hca hdone' hb
    exact hu'.mono (List.cons_subset_cons e' hdone)

/-- Retyping arguments that a walk has returned is retyping their trees. -/
theorem coerceAll_unfolds {args : List Expr} (hu : Underway s a done st) (hargs : args ⊆ done)
    (method : String) (needs : List Ty) :
    (Pass.build (Build.coerceAll method args needs)).Realizes st
      (Build.coerceArguments method (args.map Expr.tree) needs) fun args' st' ys =>
        args'.map Expr.tree = ys ∧ Underway s a (args' ++ done) st' := by
  obtain ⟨b, -, htb, hb⟩ := hu.attains
  -- The arguments are nodes of the arena that the walk has reached.
  have houtcome := Build.outcome_coerceAll method needs (fun x hx => hb x (hargs hx))
    (Nat.le_of_eq htb.supply)
  refine Pass.realizes_build houtcome fun args' n hcoerce =>
    ⟨rfl, hu.gain args' _ fun c _ hc hdone => ?_⟩
  rw [← hc] at hcoerce
  exact Build.coerceEach_gains (fun x hx => hdone x (hargs hx)) (Build.coerceAll_eq_ok.mp hcoerce).2

/-- The walk over a call: its arguments, its receiver, and then a call that is built or kept. -/
theorem call_unfolds {id : Nat} {receiver : Option Expr} {method : MethodRef} {args : List Expr}
    {ty : Ty} (ih : ∀ c ∈ (call id receiver method args ty).children, WalkUnfolds leaf s cat a c)
    (he : call id receiver method args ty ∈ a.nodes) (hu : Underway s a done st) :
    (walk leaf s cat (call id receiver method args ty)).Realizes st
      (retargetTree s cat (call id receiver method args ty))
      (Walked s a done (call id receiver method args ty)) := by
  have hargsmem := a.args_mem he
  have hreceivermem := a.receiver_mem he
  rw [walk, retargetTree]
  refine (walkList_unfolds (fun x hx => ih x (List.mem_append_right _ hx)) hargsmem hu).bind
    fun args' st₁ xs h₁ => ?_
  refine (walkOption_unfolds (fun x hx => ih x (by simp [children, hx])) hreceivermem
    h₁.underway).bind fun receiver' st₂ x h₂ => ?_
  obtain rfl := h₁.tree
  obtain rfl := h₂.tree
  have hu₂ := h₂.underway
  cases hgeneric : method.isGeneric with
  | true =>
    rw [if_pos rfl, if_pos rfl]
    -- A generic call: the method cannot fail to be rebound, its arguments are retyped, and it is
    -- built anew.
    refine .after (Pass.returns_method.mpr ⟨rfl, rfl⟩) ?_
    refine (coerceAll_unfolds (hu₂.tell _) (by simp) _ _).bind fun args'' st₃ ys h₃ => ?_
    obtain ⟨rfl, hu₃⟩ := h₃
    have halike := Build.call_alike (s.rebind method) (option_map_tree_map_tree receiver').symm
      (map_tree_map_tree args'').symm
    refine build_unfolds hu₃ ?_ (halike.outcome_eq_made _) ?_ ?_
    · intro y hy
      simp [hy]
    · intro e' n hcall
      obtain ⟨-, -, -, args₃, k, hargs₃, rfl, -⟩ := Build.call_eq_ok.mp hcall
      exact .inr (Build.argumentsFrom_le hargs₃)
    · intro c e' n _ hdone hcall
      exact Build.call_gains (fun r hr => hdone r (by simp [hr]))
        (fun x hx => hdone x (by simp [hx])) hcall
  | false =>
    rw [if_neg (by simp), if_neg (by simp)]
    refine build_unfolds hu₂ ?_ (Build.outcome_updateCall (a.typed _ he)
      (eq_of_sameOption hreceivermem h₂.kept) (eq_of_sameList hargsmem h₁.kept)) ?_ ?_
    · simp
    · -- A call that comes back is the one that is walked over.
      intro e' n hupdate
      rcases Build.updateCall_eq_ok.mp hupdate with ⟨-, rfl, -⟩ | ⟨-, hcall⟩
      · exact .inl rfl
      · obtain ⟨-, -, -, args₃, k, hargs₃, rfl, -⟩ := Build.call_eq_ok.mp hcall
        exact .inr (Build.argumentsFrom_le hargs₃)
    · intro c e' n hca hdone hupdate
      exact Build.updateCall_gains (hca.nodes _ he) (fun r hr => hdone r (by simp [hr]))
        (fun x hx => hdone x (by simp [hx])) hupdate

/-- The walk over a lambda: its parameters, its body, and then a lambda of the inferred type. -/
theorem lambda_unfolds {id : Nat} {delegate : Ty} {name : Option String} {tailCall : Bool}
    {params : List Parameter} {body : Expr}
    (ih : ∀ c ∈ (lambda id delegate name tailCall params body).children,
      WalkUnfolds leaf s cat a c)
    (he : lambda id delegate name tailCall params body ∈ a.nodes) (hu : Underway s a done st) :
    (walk leaf s cat (lambda id delegate name tailCall params body)).Realizes st
      (retargetTree s cat (lambda id delegate name tailCall params body))
      (Walked s a done (lambda id delegate name tailCall params body)) := by
  have hparts := a.closed _ he
  rw [walk, retargetTree, mapM_leaf leaf s cat]
  -- The walk over the parameters cannot fail.
  have hparams := walkList_unfolds (fun x hx => ih x (List.mem_append_left _ hx))
    (fun x hx => hparts x (List.mem_append_left _ hx)) hu
  rw [retargetTrees_parameters] at hparams
  obtain ⟨params', st₁, hrun, h₁⟩ := hparams.exists_returns
  refine .after hrun ?_
  refine (ih body (by simp [children]) (hparts body (by simp [children])) h₁.underway).bind
    fun body' st₂ x h₂ => ?_
  obtain rfl := h₂.tree
  rw [← h₁.tree]
  -- The parameters and the body are those of the recursion up to identities, which a lambda does
  -- not see.
  have halike := Build.lambda_alike name tailCall (tree_tree body').symm
    (map_tree_map_tree params').symm
  refine build_unfolds h₂.underway ?_ (halike.outcome_eq_made _) ?_ ?_
  · simp
  · intro e' n hlambda
    obtain ⟨ps, -, rfl, -⟩ := Build.lambda_eq_ok.mp hlambda
    exact .inr (Nat.le_refl _)
  · intro c e' n _ hdone hlambda
    exact Build.lambda_gains (hdone body' (by simp)) (fun p hp => hdone p (by simp [hp])) hlambda

/-- The walk over the access of a member: its object, the member, and then the access. -/
theorem member_unfolds {id : Nat} {object : Option Expr} {m : Member}
    (ih : ∀ c ∈ (member id object m).children, WalkUnfolds leaf s cat a c)
    (he : member id object m ∈ a.nodes) (hu : Underway s a done st) :
    (walk leaf s cat (member id object m)).Realizes st (retargetTree s cat (member id object m))
      (Walked s a done (member id object m)) := by
  have hparts := a.closed _ he
  rw [walk, retargetTree]
  refine (walkOption_unfolds (fun x hx => ih x (by simp [children, hx]))
    (fun x hx => hparts x (by simp [children, hx])) hu).bind fun object' st₁ x h₁ => ?_
  obtain rfl := h₁.tree
  refine (Pass.realizes_member m).bind fun m' st₂ m'' hm => ?_
  obtain ⟨rfl, rfl⟩ := hm
  have halike := Build.member_alike m' (option_map_tree_map_tree object').symm
  refine build_unfolds (h₁.underway.tell _) ?_ (halike.outcome_eq_made _) ?_ ?_
  · simp
  · intro e' n hmember
    obtain ⟨-, rfl, -⟩ := Build.member_eq_ok.mp hmember
    exact .inr (Nat.le_refl _)
  · intro c e' n _ hdone hmember
    exact Build.member_gains (fun o ho => hdone o (by simp [ho])) hmember

/-- The walk over a unary node: its operand, its overload, and then the node. -/
theorem unary_unfolds {id : Nat} {op : UnaryOp} {operand : Expr} {ty : Ty}
    {method : Option MethodRef}
    (ih : ∀ c ∈ (unary id op operand ty method).children, WalkUnfolds leaf s cat a c)
    (he : unary id op operand ty method ∈ a.nodes) (hu : Underway s a done st) :
    (walk leaf s cat (unary id op operand ty method)).Realizes st
      (retargetTree s cat (unary id op operand ty method))
      (Walked s a done (unary id op operand ty method)) := by
  have hparts := a.closed _ he
  rw [walk, retargetTree]
  refine (ih operand (by simp [children]) (hparts operand (by simp [children])) hu).bind
    fun operand' st₁ x h₁ => ?_
  obtain rfl := h₁.tree
  refine .after (Pass.returns_overload.mpr ⟨rfl, rfl⟩) ?_
  have halike := Build.unary_alike op (if op = .quote then ty else s.resolve ty)
    (method.map s.rebind) (tree_tree operand').symm
  refine build_unfolds (h₁.underway.tell _) ?_ (halike.outcome_eq_made _) ?_ ?_
  · simp
  · intro e' n hunary
    obtain ⟨t, -, rfl, -⟩ := Build.unary_eq_ok.mp hunary
    exact .inr (Nat.le_refl _)
  · intro c e' n _ hdone hunary
    exact Build.unary_gains (hdone operand' (by simp)) hunary

/-- The walk over a binary node: its operands, its conversion, its overload, and then the node. -/
theorem binary_unfolds {id : Nat} {op : BinaryOp} {left right : Expr} {lifted : Bool}
    {method : Option MethodRef} {conversion : Option Expr} {ty : Ty}
    (ih : ∀ c ∈ (binary id op left right lifted method conversion ty).children,
      WalkUnfolds leaf s cat a c)
    (he : binary id op left right lifted method conversion ty ∈ a.nodes)
    (hu : Underway s a done st) :
    (walk leaf s cat (binary id op left right lifted method conversion ty)).Realizes st
      (retargetTree s cat (binary id op left right lifted method conversion ty))
      (Walked s a done (binary id op left right lifted method conversion ty)) := by
  have hparts := a.closed _ he
  rw [walk, retargetTree]
  refine (ih left (by simp [children]) (hparts left (by simp [children])) hu).bind
    fun left' st₁ x h₁ => ?_
  refine (ih right (by simp [children]) (hparts right (by simp [children])) h₁.underway).bind
    fun right' st₂ y h₂ => ?_
  refine (walkOption_unfolds (fun x hx => ih x (by simp [children, hx]))
    (fun x hx => hparts x (by simp [children, hx])) h₂.underway).bind
    fun conversion' st₃ z h₃ => ?_
  obtain rfl := h₁.tree
  obtain rfl := h₂.tree
  obtain rfl := h₃.tree
  refine .after (Pass.returns_overload.mpr ⟨rfl, rfl⟩) ?_
  have halike := Build.binary_alike op lifted (method.map s.rebind) (tree_tree left').symm
    (tree_tree right').symm (option_map_tree_map_tree conversion').symm
  refine build_unfolds (h₃.underway.tell _) ?_ (halike.outcome_eq_made _) ?_ ?_
  · intro y hy
    simp [hy]
  · intro e' n hbinary
    obtain ⟨-, t, -, rfl, -⟩ := Build.binary_eq_ok.mp hbinary
    exact .inr (Nat.le_refl _)
  · intro c e' n _ hdone hbinary
    exact Build.binary_gains (hdone left' (by simp)) (hdone right' (by simp))
      (fun x hx => hdone x (by simp [hx])) hbinary

/-- Every walk over a node of an arena that renews its leaves does what the recursion over trees
    does. -/
theorem walk_unfolds (hleaf : Renews leaf s a) (cat : Catalog) (e : Expr) :
    WalkUnfolds leaf s cat a e := by
  induction e using childInduction with
  | node e ih =>
    intro st done he hu
    -- Each part is walked over in the state that the parts before it have left. The node is then
    -- built over parts that differ from those of the recursion in their identities alone.
    cases e with
    | call id receiver method args ty => exact call_unfolds ih he hu
    | lambda id delegate name tailCall params body => exact lambda_unfolds ih he hu
    | parameter p => exact leaf_unfolds hleaf he rfl hu
    | member id object m => exact member_unfolds ih he hu
    | constant id v => exact leaf_unfolds hleaf he rfl hu
    | unary id op operand ty method => exact unary_unfolds ih he hu
    | binary id op left right lifted method conversion ty => exact binary_unfolds ih he hu
    | conditional id test ifTrue ifFalse ty => exact .error rfl rfl
    | invoke id target args ty => exact .error rfl rfl
    | default id ty => exact .error rfl rfl

/-- The tree of the outcome of a whole walk is the outcome on trees, whatever leaves renews. -/
theorem map_tree_walk (hleaf : Renews leaf s a) (cat : Catalog) {e : Expr} (he : e ∈ a.nodes) :
    ((walk leaf s cat e).exec ⟨a.supply, .empty, []⟩).1.map tree = retargetTree s cat e :=
  (walk_unfolds hleaf cat e he (.start s a)).map_result fun _ _ _ h => h.tree

/-- A pass over a node of an arena succeeds exactly if the recursion over trees does, with that
    tree, and fails as it does. -/
theorem map_tree_result (s : Substitution) (cat : Catalog) {e : Expr} (he : e ∈ a.nodes) :
    (Pass.run s cat a.supply e).result.map tree = retargetTree s cat e := by
  have hwalk := map_tree_walk (renews_renewOnce s a) cat he
  rw [← retarget_eq_walk] at hwalk
  exact hwalk

end Expr

/-! ## Passes that remember nothing -/

namespace Pass

/-- One pass over an expression that remembers nothing: each occurrence of a parameter or a constant
    is replaced afresh. -/
def runAfresh (s : Substitution) (cat : Catalog) (supply : Nat) (e : Expr) : Report :=
  match (e.walk (renew s) s cat).exec ⟨supply, .empty, []⟩ with
  | (result, state) => ⟨result, state⟩

/-- Two passes have the same outcome up to sharing: both fail in the same way, or both succeed with
    the same tree. -/
def Report.SameOutcome (r r' : Report) : Prop :=
  (∃ err, r.result = .error err ∧ r'.result = .error err) ∨
    ∃ e e', r.result = .ok e ∧ r'.result = .ok e' ∧ e.tree = e'.tree

/-- Passes that are seen as one computation have the same outcome. -/
theorem Report.SameOutcome.of_map_tree {r r' : Report} {x : Except RetargetError Expr}
    (h : r.result.map Expr.tree = x) (h' : r'.result.map Expr.tree = x) : r.SameOutcome r' := by
  unfold Report.SameOutcome
  rw [← h'] at h
  generalize r.result = result, r'.result = result' at h
  -- Both fail with what is seen, or both succeed with the tree that is seen.
  cases result with
  | error err =>
    cases result' with
    | error err' =>
      obtain rfl := Except.error.inj h
      exact .inl ⟨err, rfl, rfl⟩
    | ok e' => cases h
  | ok e =>
    cases result' with
    | error err' => cases h
    | ok e' => exact .inr ⟨e, e', rfl, rfl, Except.ok.inj h⟩

end Pass

/-- The outcome of a pass depends on the tree of an expression alone, whatever is shared in it and
    whenever the pass is made; and it is the outcome of the walk that remembers nothing. -/
theorem Expr.Constructed.sameOutcome {supply₁ supply₂ later₁ later₂ : Nat} {e₁ e₂ : Expr}
    (h₁ : e₁.Constructed supply₁) (h₂ : e₂.Constructed supply₂) (htree : e₁.tree = e₂.tree)
    (hlater₁ : supply₁ ≤ later₁) (hlater₂ : supply₂ ≤ later₂) (s : Substitution) (cat : Catalog) :
    (Pass.run s cat later₁ e₁).SameOutcome (Pass.run s cat later₂ e₂) ∧
      (Pass.run s cat later₁ e₁).SameOutcome (Pass.runAfresh s cat later₁ e₁) := by
  obtain ⟨a₁, rfl, he₁⟩ := h₁.exists_arena
  obtain ⟨a₂, rfl, he₂⟩ := h₂.exists_arena
  have hrun₁ : (Pass.run s cat later₁ e₁).result.map tree = retargetTree s cat e₁ :=
    map_tree_result (a := a₁.advance later₁ hlater₁) s cat he₁
  -- The recursion takes the tree of an expression as it takes the expression.
  have hrun₂ : (Pass.run s cat later₂ e₂).result.map tree = retargetTree s cat e₁ := by
    rw [← retargetTree_tree e₁, htree, retargetTree_tree]
    exact map_tree_result (a := a₂.advance later₂ hlater₂) s cat he₂
  have hafresh : (Pass.runAfresh s cat later₁ e₁).result.map tree = retargetTree s cat e₁ :=
    map_tree_walk (renews_renew s (a₁.advance later₁ hlater₁)) cat he₁
  exact ⟨.of_map_tree hrun₁ hrun₂, .of_map_tree hrun₁ hafresh⟩

/-! ## Two lambdas of one tree

The lambda `x => x + x` over items. Both operands are the parameter of the lambda if `second` is its
identity; otherwise the second one is a free parameter of the same name. -/

namespace Sample

/-- A parameter of the name that is shown. -/
def summand (id : Nat) : Parameter := ⟨id, itemFrom, some "x", false⟩

/-- The sum that the lambda returns. -/
def sum (first second outer : Nat) : Expr :=
  .binary outer .add (.parameter (summand first)) (.parameter (summand second)) false none none
    itemFrom

/-- The lambda. -/
def summation (first second outer : Nat) : Expr :=
  .lambda (outer + 1) (Ty.func [itemFrom] itemFrom) none false [summand first]
    (sum first second outer)

/-- The bound parameter alone. -/
theorem summand_built : Built 1 [.parameter (summand 0)] :=
  .extend (.parameter itemFrom (some "x") false) (.start 0) (by simp [Operation.operands]) rfl

/-- The lambda whose operands are both its own parameter. -/
theorem bound_built : Built 3 [summation 0 0 1, sum 0 0 1, .parameter (summand 0)] := by
  have hsum : Built 2 (sum 0 0 1 :: _) :=
    .extend (.binary .add (.parameter (summand 0)) (.parameter (summand 0)) false none none)
      summand_built (by simp [Operation.operands]) rfl
  exact .extend (.lambda (sum 0 0 1) none false [.parameter (summand 0)]) hsum
    (by simp [Operation.operands]) rfl

/-- The lambda whose second operand is a parameter of somebody else. -/
theorem free_built :
    Built 4 [summation 0 1 2, sum 0 1 2, .parameter (summand 1), .parameter (summand 0)] := by
  have hy : Built 2 (.parameter (summand 1) :: _) :=
    .extend (.parameter itemFrom (some "x") false) summand_built (by simp [Operation.operands]) rfl
  have hsum : Built 3 (sum 0 1 2 :: _) :=
    .extend (.binary .add (.parameter (summand 0)) (.parameter (summand 1)) false none none) hy
      (by simp [Operation.operands]) rfl
  exact .extend (.lambda (sum 0 1 2) none false [.parameter (summand 0)]) hsum
    (by simp [Operation.operands]) rfl

/-- The bound and the free parameter cannot be told apart in the outcome of a pass. -/
theorem summation_sameOutcome :
    (summation 0 0 1).tree = (summation 0 1 2).tree ∧
      (Pass.run items catalog 3 (summation 0 0 1)).SameOutcome
        (Pass.run items catalog 4 (summation 0 1 2)) ∧
      (Pass.run items catalog 3 (summation 0 0 1)).SameOutcome
        (Pass.runAfresh items catalog 3 (summation 0 0 1)) :=
  ⟨rfl, Expr.Constructed.sameOutcome (bound_built.constructed List.mem_cons_self)
    (free_built.constructed List.mem_cons_self) rfl (Nat.le_refl 3) (Nat.le_refl 4) items catalog⟩

end Sample

end Retarget

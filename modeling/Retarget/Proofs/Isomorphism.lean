import Retarget.Proofs.Sharing
import Retarget.Proofs.Tree

/-!
# Isomorphic expressions

Two expressions are isomorphic when they have the same tree and share their parameters and
constants in the same places. What a pass does to the leaves of an expression can be told place by
place along the list of leaves, in which the quotations that a pass adds do not show; between
expressions of one tree, the leaves that stand in the same place of the lists are those at the ends
of the same paths.

## Key results

- `Expr.Isomorphic`: same tree, same sharing
- `Expr.KeepsIdentity`: relations under which sharing is kept
- `Expr.Retargets.forall₂_leaves`: the leaves of an expression and of its retargeted form
- `Expr.Aligned.exists_descend?`: from the places of leaves to paths
- `Expr.Aligned.isomorphic`: isomorphic expressions from related leaves
- `Expr.forall₂_remembered`: the leaves before and after a pass
-/

namespace Retarget

namespace Expr

/-- The two expressions have the same tree, and two places of the one hold the same leaf exactly if
    these places of the other do. -/
structure Isomorphic (e e' : Expr) : Prop where
  tree_eq : e'.tree = e.tree
  sharing : ∀ ps qs x y, e.descend? ps = some x → e.descend? qs = some y →
    x.isLeaf = true → y.isLeaf = true →
    ∃ x' y', e'.descend? ps = some x' ∧ e'.descend? qs = some y' ∧
      (x'.SameNode y' ↔ x.SameNode y)

variable {s : Substitution} {cat : Catalog} {leaf : Expr → Expr → Prop}

/-! ## Identities -/

/-- Whether a relation between nodes keeps what is one node one node, and what are two nodes two. -/
def KeepsIdentity (R : Expr → Expr → Prop) : Prop :=
  ∀ x y x' y' : Expr, R x x' → R y y' → (x'.SameNode y' ↔ x.SameNode y)

namespace KeepsIdentity

variable {R S : Expr → Expr → Prop}

/-- Sharing is kept in both directions. -/
theorem flip (h : KeepsIdentity R) : KeepsIdentity (flip R) :=
  fun x y x' y' hx hy => (h x' y' x y hx hy).symm

/-- What is kept twice in a row is kept. -/
theorem comp (hR : KeepsIdentity R) (hS : KeepsIdentity S) : KeepsIdentity (Relation.Comp R S) := by
  intro x y x'' y'' hx hy
  obtain ⟨x', hxR, hxS⟩ := hx
  obtain ⟨y', hyR, hyS⟩ := hy
  exact (hS x' y' x'' y'' hxS hyS).trans (hR x y x' y' hxR hyR)

end KeepsIdentity

/-! ## Leaves along a pass -/

/-- An optional part has its leaves related if the part has. -/
private theorem forall₂_leavesOption {R : Expr → Expr → Prop} {o o' : Option Expr}
    (ih : ∀ e, o = some e → ∀ e', R e e' → List.Forall₂ leaf e.leaves e'.leaves)
    (h : Option.Rel R o o') : List.Forall₂ leaf (leavesOption o) (leavesOption o') := by
  cases h with
  | none => exact .nil
  | some h => exact ih _ rfl _ h

/-- Parts in a row have their leaves related if each of them has. -/
private theorem forall₂_leavesList {R : Expr → Expr → Prop} {es es' : List Expr}
    (ih : ∀ e ∈ es, ∀ e', R e e' → List.Forall₂ leaf e.leaves e'.leaves)
    (h : List.Forall₂ R es es') : List.Forall₂ leaf (leavesList es) (leavesList es') := by
  induction h with
  | nil => exact .nil
  | cons h _ ihs =>
    exact List.rel_append (ih _ List.mem_cons_self _ h)
      (ihs fun e he => ih e (List.mem_cons_of_mem _ he))

/-- Each leaf of an expression is replaced in its place among the leaves. -/
theorem Retargets.forall₂_leaves {e e' : Expr} (h : Retargets s cat leaf e e') :
    List.Forall₂ leaf e.leaves e'.leaves := by
  -- By induction over parts: the leaves of a node are those of its parts, one after the other.
  induction e using childInduction generalizing e' with
  | node e ih =>
    -- A quotation has the leaves of the lambda in it.
    have harguments : ∀ c ∈ e.children, ∀ c', RetargetsArgument s cat leaf c c' →
        List.Forall₂ leaf c.leaves c'.leaves := by
      intro c hc c' h
      cases h with
      | plain h => exact ih c hc h
      | quoted _ _ h =>
        rw [leaves]
        exact ih c hc h
    cases h with
    | leaf he hkind h =>
      have he' : e'.isLeaf = true := by
        rw [isLeaf_iff_kind, hkind, ← isLeaf_iff_kind]
        exact he
      rw [leaves_of_isLeaf he, leaves_of_isLeaf he']
      exact .cons h .nil
    | call _ hreceiver hargs =>
      exact List.rel_append
        (forall₂_leavesList (fun c hc _ h => ih c (by simp [children, hc]) h) hargs)
        (forall₂_leavesOption (fun c hc _ h => ih c (by simp [children, hc]) h) hreceiver)
    | genericCall _ hreceiver hargs =>
      exact List.rel_append
        (forall₂_leavesList (fun c hc => harguments c (by simp [children, hc])) hargs)
        (forall₂_leavesOption (fun c hc _ h => ih c (by simp [children, hc]) h) hreceiver)
    | lambda hparams hbody =>
      refine List.rel_append ?_ (ih _ (by simp [children]) hbody)
      rw [List.forall₂_map_left_iff, List.forall₂_map_right_iff]
      exact hparams
    | member hobject _ =>
      exact forall₂_leavesOption (fun c hc _ h => ih c (by simp [children, hc]) h) hobject
    | unary hoperand _ =>
      rw [leaves, leaves]
      exact ih _ (by simp [children]) hoperand
    | binary hleft hright hconversion =>
      exact List.rel_append (List.rel_append (ih _ (by simp [children]) hleft)
        (ih _ (by simp [children]) hright))
        (forall₂_leavesOption (fun c hc _ h => ih c (by simp [children, hc]) h) hconversion)

/-! ## Leaves of one tree -/

/-- The leaves of trees in a row are the trees of the leaves. -/
private theorem leavesList_map_tree {es : List Expr}
    (h : ∀ e ∈ es, e.tree.leaves = e.leaves.map tree) :
    leavesList (es.map tree) = (leavesList es).map tree := by
  induction es with
  | nil => rfl
  | cons e es ih =>
    rw [List.map_cons, leavesList, leavesList, List.map_append, h e List.mem_cons_self,
      ih fun x hx => h x (List.mem_cons_of_mem _ hx)]

/-- The leaves of the tree of an optional part are the trees of its leaves. -/
private theorem leavesOption_map_tree {o : Option Expr}
    (h : ∀ e, o = some e → e.tree.leaves = e.leaves.map tree) :
    leavesOption (o.map tree) = (leavesOption o).map tree := by
  cases o with
  | none => rfl
  | some e => exact h e rfl

/-- The leaves of a tree are the trees of the leaves. -/
theorem leaves_tree (e : Expr) : e.tree.leaves = e.leaves.map tree := by
  -- Taking the tree goes into the same parts as taking the leaves, in the same order.
  induction e using childInduction with
  | node e ih =>
    cases e with
    | call id receiver method args ty =>
      simp only [tree, treeOption_eq_map, treeList_eq_map, leaves, List.map_append]
      rw [leavesList_map_tree fun x hx => ih x (by simp [children, hx]),
        leavesOption_map_tree fun r hr => ih r (by simp [children, hr])]
    | lambda id delegate name tailCall params body =>
      simp only [tree, leaves, List.map_append, List.map_map, ih body (by simp [children])]
      rfl
    | parameter p => rfl
    | member id object m =>
      simp only [tree, treeOption_eq_map, leaves]
      exact leavesOption_map_tree fun o ho => ih o (by simp [children, ho])
    | constant id v => rfl
    | unary id op operand ty method => simp only [tree, leaves, ih operand (by simp [children])]
    | binary id op left right lifted method conversion ty =>
      simp only [tree, treeOption_eq_map, leaves, List.map_append]
      rw [ih left (by simp [children]), ih right (by simp [children]),
        leavesOption_map_tree fun c hc => ih c (by simp [children, hc])]
    | conditional id test ifTrue ifFalse ty =>
      simp only [tree, leaves, List.map_append, ih test (by simp [children]),
        ih ifTrue (by simp [children]), ih ifFalse (by simp [children])]
    | invoke id target args ty =>
      simp only [tree, treeList_eq_map, leaves, List.map_append, ih target (by simp [children])]
      rw [leavesList_map_tree fun x hx => ih x (by simp [children, hx])]
    | default id ty => rfl

/-- Expressions of one tree have equally many leaves. -/
theorem length_leaves_of_tree {e e' : Expr} (h : e.tree = e'.tree) :
    e.leaves.length = e'.leaves.length := by
  rw [← List.length_map tree, ← leaves_tree, h, leaves_tree, List.length_map]

/-- Two expressions of one tree whose leaves are related place by place. -/
structure Aligned (R : Expr → Expr → Prop) (e e' : Expr) : Prop where
  tree_eq : e'.tree = e.tree
  leaves : List.Forall₂ R e.leaves e'.leaves

namespace Aligned

variable {R : Expr → Expr → Prop}

/-- Optional parts that are related are there both or not at all. -/
private theorem exists_of_option {o o' : Option Expr} {c : Expr} (htree : o'.map tree = o.map tree)
    (h : List.Forall₂ R (leavesOption o) (leavesOption o')) (hc : o = some c) :
    ∃ c', o' = some c' ∧ Aligned R c c' := by
  subst hc
  cases o' with
  | none => cases htree
  | some c' => exact ⟨c', rfl, Option.some.inj htree, h⟩

/-- Lists of expressions of the same trees have equally many leaves. -/
private theorem length_leavesList {es es' : List Expr} (h : es'.map tree = es.map tree) :
    (leavesList es').length = (leavesList es).length := by
  induction es generalizing es' with
  | nil =>
    obtain rfl := List.map_eq_nil_iff.mp h
    rfl
  | cons e es ih =>
    obtain ⟨e', es', rfl, he, hes⟩ := List.map_eq_cons_iff.mp h
    simp only [leavesList, List.length_append, length_leaves_of_tree he, ih hes]

/-- Of related lists, the parts in one place are related. -/
private theorem exists_of_list {es es' : List Expr} {i : Nat} {c : Expr}
    (htree : es'.map tree = es.map tree)
    (h : List.Forall₂ R (leavesList es) (leavesList es')) (hc : es[i]? = some c) :
    ∃ c', es'[i]? = some c' ∧ Aligned R c c' := by
  induction es generalizing es' i with
  | nil => cases hc
  | cons e es ih =>
    obtain ⟨e', es', rfl, he, hes⟩ := List.map_eq_cons_iff.mp htree
    -- The first trees have equally many leaves, so that the lists of leaves are cut in the same
    -- place.
    obtain ⟨hfirst, hrest⟩ := h.of_append (length_leaves_of_tree he)
    cases i with
    | zero =>
      obtain rfl := Option.some.inj hc
      exact ⟨e', rfl, he, hfirst⟩
    | succ i =>
      rw [List.getElem?_cons_succ] at hc ⊢
      exact ih hes hrest hc

/-- Of related parameter lists, the parameters in one place are related. -/
private theorem exists_of_parameters {ps ps' : List Parameter} {i : Nat} {c : Expr}
    (htree : ps'.map (·.anonymous) = ps.map (·.anonymous))
    (h : List.Forall₂ R (ps.map Expr.parameter) (ps'.map Expr.parameter))
    (hc : ps[i]?.map Expr.parameter = some c) :
    ∃ c', ps'[i]?.map Expr.parameter = some c' ∧ Aligned R c c' := by
  rw [← List.getElem?_map] at hc ⊢
  refine exists_of_list ?_ (by rwa [leavesList_parameters, leavesList_parameters]) hc
  have hmap := congrArg (List.map Expr.parameter) htree
  rw [List.map_map, List.map_map] at hmap ⊢
  exact hmap

/-- What is related has related parts in the same places. -/
theorem exists_child? {e e' c : Expr} {p : Position} (h : Aligned R e e')
    (hc : e.child? p = some c) : ∃ c', e'.child? p = some c' ∧ Aligned R c c' := by
  -- One tree means one kind. The leaves are then cut at the part in question, by the number of
  -- leaves before it.
  obtain ⟨htree, hleaves⟩ := h
  cases e with
  | call id receiver method args ty =>
    cases e' with
    | call id' receiver' method' args' ty' =>
      simp only [tree, treeOption_eq_map, treeList_eq_map, call.injEq] at htree
      obtain ⟨-, hreceiver, -, hargs, -⟩ := htree
      obtain ⟨hleft, hright⟩ := hleaves.of_append (length_leavesList hargs)
      cases p with
      | object => exact exists_of_option hreceiver hright hc
      | arg i => exact exists_of_list hargs hleft hc
      | _ => cases hc
    | _ => cases htree
  | lambda id delegate name tailCall params body =>
    cases e' with
    | lambda id' delegate' name' tailCall' params' body' =>
      simp only [tree, lambda.injEq] at htree
      obtain ⟨-, -, -, -, hparams, hbody⟩ := htree
      have hlen : (params'.map Expr.parameter).length = (params.map Expr.parameter).length := by
        simpa using congrArg List.length hparams
      obtain ⟨hleft, hright⟩ := hleaves.of_append hlen
      cases p with
      | param i => exact exists_of_parameters hparams hleft hc
      | body =>
        obtain rfl := Option.some.inj hc
        exact ⟨body', rfl, hbody, hright⟩
      | _ => cases hc
    | _ => cases htree
  | member id object m =>
    cases e' with
    | member id' object' m' =>
      simp only [tree, treeOption_eq_map, member.injEq] at htree
      cases p with
      | object => exact exists_of_option htree.2.1 hleaves hc
      | _ => cases hc
    | _ => cases htree
  | unary id op operand ty method =>
    cases e' with
    | unary id' op' operand' ty' method' =>
      simp only [tree, unary.injEq] at htree
      cases p with
      | operand =>
        obtain rfl := Option.some.inj hc
        exact ⟨operand', rfl, htree.2.2.1, hleaves⟩
      | _ => cases hc
    | _ => cases htree
  | binary id op left right lifted method conversion ty =>
    cases e' with
    | binary id' op' left' right' lifted' method' conversion' ty' =>
      simp only [tree, treeOption_eq_map, binary.injEq] at htree
      obtain ⟨-, -, hleft, hright, -, -, hconversion, -⟩ := htree
      -- The leaves of both operands come before those of the conversion.
      have hlen : (left'.leaves ++ right'.leaves).length =
          (left.leaves ++ right.leaves).length := by
        rw [List.length_append, List.length_append, length_leaves_of_tree hleft,
          length_leaves_of_tree hright]
      obtain ⟨hoperands, hlast⟩ := hleaves.of_append hlen
      obtain ⟨hfirst, hsecond⟩ := hoperands.of_append (length_leaves_of_tree hleft)
      cases p with
      | left =>
        obtain rfl := Option.some.inj hc
        exact ⟨left', rfl, hleft, hfirst⟩
      | right =>
        obtain rfl := Option.some.inj hc
        exact ⟨right', rfl, hright, hsecond⟩
      | conversion => exact exists_of_option hconversion hlast hc
      | _ => cases hc
    | _ => cases htree
  | invoke id target args ty =>
    cases e' with
    | invoke id' target' args' ty' =>
      simp only [tree, treeList_eq_map, invoke.injEq] at htree
      obtain ⟨-, htarget, hargs, -⟩ := htree
      obtain ⟨-, hright⟩ := hleaves.of_append (length_leaves_of_tree htarget)
      cases p with
      | arg i => exact exists_of_list hargs hright hc
      | _ => cases hc
    | _ => cases htree
  | parameter q => cases p <;> cases hc
  | constant id v => cases p <;> cases hc
  | conditional id test ifTrue ifFalse ty => cases p <;> cases hc
  | default id ty => cases p <;> cases hc

/-- The leaves at the ends of one path are related. -/
theorem exists_descend? {e e' x : Expr} {path : List Position} (h : Aligned R e e')
    (hx : e.descend? path = some x) (hleaf : x.isLeaf = true) :
    ∃ x', e'.descend? path = some x' ∧ R x x' := by
  -- Step by step along the path, to the two leaves at its end.
  induction path generalizing e e' with
  | nil =>
    obtain rfl := Option.some.inj hx
    have hleaf' : e'.isLeaf = true := by rw [← isLeaf_tree, h.tree_eq, isLeaf_tree, hleaf]
    have hleaves := h.leaves
    rw [leaves_of_isLeaf hleaf, leaves_of_isLeaf hleaf'] at hleaves
    cases hleaves with
    | cons hR _ => exact ⟨e', rfl, hR⟩
  | cons p ps ih =>
    obtain ⟨c, hc, hrest⟩ := descend?_cons.mp hx
    obtain ⟨c', hc', haligned⟩ := h.exists_child? hc
    obtain ⟨x', hx', hR⟩ := ih haligned hrest
    exact ⟨x', descend?_cons.mpr ⟨c', hc', hx'⟩, hR⟩

/-- Expressions of one tree are isomorphic when their leaves are related by something that keeps
    identity. -/
theorem isomorphic {e e' : Expr} (h : Aligned R e e') (hidentity : KeepsIdentity R) :
    Isomorphic e e' where
  tree_eq := h.tree_eq
  sharing := by
    intro ps qs x y hx hy hxleaf hyleaf
    obtain ⟨x', hx', hxR⟩ := h.exists_descend? hx hxleaf
    obtain ⟨y', hy', hyR⟩ := h.exists_descend? hy hyleaf
    exact ⟨x', y', hx', hy', hidentity x y x' y' hxR hyR⟩

end Aligned

/-! ## Leaves of a pass -/

/-- What a pass remembers for the nodes of an arena. -/
def Remembered (st : PassState) (a : Arena) (x x' : Expr) : Prop :=
  x ∈ a.nodes ∧ st.memo.Maps x x'

/-- At the end of a pass, each leaf of an expression has been replaced by what is remembered for it,
    which is one node for one node and two for two. -/
theorem forall₂_remembered {a : Arena} {e e' : Expr} {st : PassState} (he : e ∈ a.nodes)
    (h : Pass.run s cat a.supply e = ⟨.ok e', st⟩) :
    KeepsIdentity (Remembered st a) ∧ List.Forall₂ (Remembered st a) e.leaves e'.leaves := by
  -- The walk says that the memo is faithful, and what has become of each node.
  have hwalk := retarget_follows s cat a e he (.start s a) (Pass.run_eq_iff.mp h)
  have hfaithful := hwalk.visits.faithful
  refine ⟨fun x y x' y' hx hy => hfaithful.sameNode_iff hx.1 hy.1 hx.2 hy.2, ?_⟩
  refine Retargets.forall₂_leaves (hwalk.retargets _ ?_)
  exact fun x hx x' hmaps => ⟨hx, hmaps⟩

end Expr

end Retarget

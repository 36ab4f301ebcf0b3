import Mathlib.Data.List.Nodup
import Retarget.Pass.Log
import Retarget.Proofs.Pointwise
import Retarget.Proofs.Simulation

/-!
# A pass preserves sharing

Two places of an expression hold the same parameter or constant exactly if the corresponding
places of the result of a pass do. Places are paths, and `Expr.follow?` walks an expression and its
result along one path, stepping over the quotations that a pass adds. What is found at the end of
it is what the memo remembers, and the memo remembers different nodes for different leaves.

## Key results

- `Expr.RetargetsArgument.exists_follow?`: every path of an expression can be followed in its
  retargeted form
- `foldl_remember`: remembering leaf after leaf keeps the first visits
- `PassState.Faithful.sameNode_iff`: what is remembered for two leaves is the same node exactly if
  the leaves are
- `Expr.Constructed.keepsSharing`: the statement for whole passes
-/

namespace Retarget

namespace Expr

variable {s : Substitution} {cat : Catalog} {leaf : Expr → Expr → Prop}

/-! ## Walking two expressions at once -/

/-- What corresponds to a node when `e'` stands in its place: for a lambda that was quoted, the
    lambda inside the quotation. -/
def counterpart (e e' : Expr) : Expr :=
  match e, e' with
  | .lambda .., .unary _ .quote l _ _ => l
  | _, _ => e'

/-- What corresponds, in an expression that stands in the place of `e`, to the node of `e` at the
    end of a path. -/
def follow? : List Position → Expr → Expr → Option Expr
  | [], e, e' => some (counterpart e e')
  | p :: ps, e, e' =>
    match e.child? p, (counterpart e e').child? p with
    | some c, some c' => follow? ps c c'
    | _, _ => none

/-- A lambda that declares a parameter has it among its own, by identity. -/
def Declares (l p : Expr) : Prop :=
  ∃ i q, l.child? (.param i) = some q ∧ q.SameNode p

/-- A retargeted form is its own counterpart, as it is no added quotation. -/
theorem Retargets.counterpart_eq {e e' : Expr} (h : Retargets s cat leaf e e') :
    counterpart e e' = e' := by
  cases h with
  | leaf he _ _ =>
    obtain ⟨p, rfl⟩ | ⟨id, v, rfl⟩ := isLeaf_iff.mp he <;> rfl
  | _ => rfl

/-- Whatever stands in the place of an argument, its counterpart is the retargeted form. -/
theorem RetargetsArgument.retargets_counterpart {e e' : Expr}
    (h : RetargetsArgument s cat leaf e e') : Retargets s cat leaf e (counterpart e e') := by
  cases h with
  | plain h => rwa [h.counterpart_eq]
  | quoted id he h =>
    obtain ⟨id, delegate, name, tailCall, params, body, rfl⟩ := isLambda_iff.mp he
    exact h

/-- What stands in a place of a node is a part of it. -/
theorem mem_children_of_child? {e c : Expr} {p : Position} (h : e.child? p = some c) :
    c ∈ e.children := by
  unfold child? at h
  split at h
  · simp [children, h]
  · simp [children, h]
  · simp [children, List.mem_of_getElem? h]
  · simp [children, List.mem_of_getElem? h]
  · obtain ⟨q, hq, rfl⟩ := Option.map_eq_some_iff.mp h
    simp [children, List.mem_of_getElem? hq]
  · simp_all [children]
  · simp_all [children]
  · simp_all [children]
  · simp_all [children]
  · simp [children, h]
  · cases h

/-- An optional part has a counterpart if it is there. -/
private theorem exists_of_option_rel {o o' : Option Expr} {c : Expr}
    (h : Option.Rel (Retargets s cat leaf) o o') (hc : o = some c) :
    ∃ c', o' = some c' ∧ RetargetsArgument s cat leaf c c' := by
  obtain ⟨c', hc', h⟩ := Option.exists_of_some_rel (hc ▸ h)
  exact ⟨c', hc', .plain h⟩

/-- The retargeted form has a part wherever the expression has one. -/
theorem Retargets.exists_child {e e' c : Expr} {p : Position} (h : Retargets s cat leaf e e')
    (hc : e.child? p = some c) :
    ∃ c', e'.child? p = some c' ∧ RetargetsArgument s cat leaf c c' := by
  cases h with
  | leaf he _ _ =>
    -- A leaf has no parts.
    have hmem := mem_children_of_child? hc
    rw [children_of_isLeaf he] at hmem
    exact absurd hmem List.not_mem_nil
  | call _ hreceiver hargs =>
    cases p with
    | object => exact exists_of_option_rel hreceiver hc
    | arg i =>
      obtain ⟨c', hc', h⟩ := hargs.exists_of_getElem? hc
      exact ⟨c', hc', .plain h⟩
    | _ => cases hc
  | genericCall _ hreceiver hargs =>
    cases p with
    | object => exact exists_of_option_rel hreceiver hc
    | arg i => exact hargs.exists_of_getElem? hc
    | _ => cases hc
  | lambda hparams hbody =>
    -- Parameters stand in places of their own, before the body.
    cases p with
    | param i =>
      obtain ⟨q, hq, rfl⟩ := Option.map_eq_some_iff.mp hc
      obtain ⟨q', hq', h⟩ := hparams.exists_of_getElem? hq
      exact ⟨.parameter q', Option.map_eq_some_iff.mpr ⟨q', hq', rfl⟩, .plain (.leaf rfl rfl h)⟩
    | body =>
      obtain rfl := Option.some.inj hc
      exact ⟨_, rfl, .plain hbody⟩
    | _ => cases hc
  | member hobject _ =>
    cases p with
    | object => exact exists_of_option_rel hobject hc
    | _ => cases hc
  | unary hoperand _ =>
    cases p with
    | operand =>
      obtain rfl := Option.some.inj hc
      exact ⟨_, rfl, .plain hoperand⟩
    | _ => cases hc
  | binary hleft hright hconversion =>
    cases p with
    | left =>
      obtain rfl := Option.some.inj hc
      exact ⟨_, rfl, .plain hleft⟩
    | right =>
      obtain rfl := Option.some.inj hc
      exact ⟨_, rfl, .plain hright⟩
    | conversion => exact exists_of_option_rel hconversion hc
    | _ => cases hc

/-- A path starts with a part that is there. -/
theorem descend?_cons {e n : Expr} {p : Position} {ps : List Position} :
    e.descend? (p :: ps) = some n ↔ ∃ c, e.child? p = some c ∧ c.descend? ps = some n := by
  rw [descend?]
  cases e.child? p <;> simp

/-- Every path of an expression can be followed in its retargeted form. -/
theorem RetargetsArgument.exists_follow? {e e' n : Expr} {path : List Position}
    (h : RetargetsArgument s cat leaf e e') (hn : e.descend? path = some n) :
    ∃ n', follow? path e e' = some n' ∧ Retargets s cat leaf n n' := by
  -- Step by step along the path; at each node an added quotation is stepped over.
  induction path generalizing e e' with
  | nil =>
    obtain rfl := Option.some.inj hn
    exact ⟨_, rfl, h.retargets_counterpart⟩
  | cons p ps ih =>
    obtain ⟨c, hc, hrest⟩ := descend?_cons.mp hn
    -- A step leads from the counterpart, never from a quotation that was added.
    obtain ⟨c', hc', hargument⟩ := h.retargets_counterpart.exists_child hc
    rw [follow?, hc, hc']
    exact ih hargument hrest

/-! ## Paths and parts -/

/-- Of the nodes that a pass handles, every part stands in some place. -/
theorem exists_child?_of_mem_children {e c : Expr} (hs : e.Supported) (hc : c ∈ e.children) :
    ∃ p, e.child? p = some c := by
  cases e with
  | call id receiver method args ty =>
    simp only [children, List.mem_append, Option.mem_toList] at hc
    rcases hc with rfl | hc
    · exact ⟨.object, rfl⟩
    · obtain ⟨i, hi⟩ := List.mem_iff_getElem?.mp hc
      exact ⟨.arg i, hi⟩
  | lambda id delegate name tailCall params body =>
    simp only [children, List.mem_append, List.mem_map, List.mem_singleton] at hc
    rcases hc with ⟨q, hq, rfl⟩ | rfl
    · obtain ⟨i, hi⟩ := List.mem_iff_getElem?.mp hq
      exact ⟨.param i, Option.map_eq_some_iff.mpr ⟨q, hi, rfl⟩⟩
    · exact ⟨.body, rfl⟩
  | parameter q => cases hc
  | member id object m =>
    simp only [children, Option.mem_toList] at hc
    exact ⟨.object, hc⟩
  | constant id v => cases hc
  | unary id op operand ty method =>
    obtain rfl := List.mem_singleton.mp hc
    exact ⟨.operand, rfl⟩
  | binary id op left right lifted method conversion ty =>
    simp only [children, List.mem_cons, Option.mem_toList] at hc
    rcases hc with rfl | rfl | hc
    · exact ⟨.left, rfl⟩
    · exact ⟨.right, rfl⟩
    · exact ⟨.conversion, hc⟩
  | conditional id test ifTrue ifFalse ty => exact absurd rfl hs.1
  | invoke id target args ty => exact absurd rfl hs.2.1
  | default id ty => cases hc

/-- Only what a pass handles has a retargeted form. -/
theorem Retargets.supported {e e' : Expr} (h : Retargets s cat leaf e e') : e.Supported := by
  cases h with
  | leaf he _ _ => cases e <;> simp_all [isLeaf, Supported, kind]
  | _ => simp [Supported, kind]

/-- What stands at the end of a path is reachable. -/
theorem within_of_descend? {e n : Expr} {path : List Position} (h : e.descend? path = some n) :
    n.Within e := by
  induction path generalizing e with
  | nil =>
    obtain rfl := Option.some.inj h
    exact .self
  | cons p ps ih =>
    obtain ⟨c, hc, hrest⟩ := descend?_cons.mp h
    exact .part (mem_children_of_child? hc) (ih hrest)

/-- In an expression that has a retargeted form, what is reachable stands at the end of a path. -/
theorem RetargetsArgument.exists_path {e e' n : Expr} (h : RetargetsArgument s cat leaf e e')
    (hn : n.Within e) : ∃ path, e.descend? path = some n := by
  induction hn generalizing e' with
  | self => exact ⟨[], rfl⟩
  | part hc _ ih =>
    -- That there is a retargeted form says that all nodes on the way are handled by a pass.
    have hr := h.retargets_counterpart
    obtain ⟨p, hp⟩ := exists_child?_of_mem_children hr.supported hc
    obtain ⟨c', -, hargument⟩ := hr.exists_child hp
    obtain ⟨ps, hps⟩ := ih hargument
    exact ⟨p :: ps, descend?_cons.mpr ⟨_, hp, hps⟩⟩

end Expr

/-! ## The order of first visits -/

/-- Whether two nodes are the same, as a test. -/
def Expr.isSame (a b : Expr) : Bool := a.SameNode b

/-- The leaves of an expression without repetitions, in the order of first visits. -/
def Expr.firstVisits (e : Expr) : List Expr := e.leaves.eraseDupsBy Expr.isSame

/-- Remembering leaf after leaf adds those that were not seen before, each where it comes first. -/
theorem foldl_remember (leaves seen : List Expr) :
    leaves.foldl remember seen =
      seen ++ (leaves.filter fun l => !seen.any (·.isSame l)).eraseDupsBy Expr.isSame := by
  -- The leaves that were seen are kept in front, so that the statement is about any of them.
  induction leaves generalizing seen with
  | nil => simp
  | cons l ls ih =>
    rw [List.foldl_cons, ih]
    by_cases h : seen.any (·.isSame l) = true
    · have hseen : remember seen l = seen := if_pos h
      rw [hseen, List.filter_cons_of_neg (by simp [h])]
    · have hnew : remember seen l = seen ++ [l] := if_neg h
      rw [hnew, List.filter_cons_of_pos (by simp [h]), List.eraseDupsBy_cons, List.filter_filter,
        List.append_assoc, List.singleton_append]
      -- A later leaf stays if it is neither among those seen before nor the same as `l`.
      congr 4
      funext b
      simp [Expr.isSame, Expr.SameNode, Bool.and_comm, eq_comm]

/-- No two leaves that are remembered are the same node. -/
theorem pairwise_foldl_remember {leaves seen : List Expr}
    (h : seen.Pairwise fun a b => a.id ≠ b.id) :
    (leaves.foldl remember seen).Pairwise fun a b => a.id ≠ b.id := by
  induction leaves generalizing seen with
  | nil => exact h
  | cons l ls ih =>
    rw [List.foldl_cons]
    refine ih ?_
    unfold remember
    split
    · exact h
    · rename_i hnew
      -- The new leaf stands behind all that were seen, none of which is the same.
      rw [List.pairwise_append]
      refine ⟨h, List.pairwise_singleton _ _, ?_⟩
      intro a ha b hb
      rw [List.mem_singleton.mp hb]
      exact fun hid => hnew (List.any_eq_true.mpr ⟨a, ha, by simpa using hid⟩)

/-- Only leaves are remembered. -/
theorem mem_of_mem_foldl_remember {leaves seen : List Expr} {n : Expr}
    (h : n ∈ leaves.foldl remember seen) : n ∈ seen ∨ n ∈ leaves := by
  induction leaves generalizing seen with
  | nil => exact .inl h
  | cons l ls ih =>
    rw [List.foldl_cons] at h
    rcases ih h with hn | hn
    · unfold remember at hn
      split at hn
      · exact .inl hn
      · rcases List.mem_append.mp hn with hn | hn
        · exact .inl hn
        · exact .inr (List.mem_singleton.mp hn ▸ List.mem_cons_self)
    · exact .inr (List.mem_cons_of_mem _ hn)

/-! ## What is remembered -/

/-- Each entry is what its node is mapped to, as no node is recorded twice. -/
theorem Memo.maps_of_mem {memo : Memo} {e r : Expr} (h : (e, r) ∈ memo.entries) :
    memo.Maps e r := by
  obtain ⟨i, hget⟩ := List.mem_iff_getElem?.mp h
  exact lookup?_of_getElem? hget rfl

namespace PassState.Faithful

variable {s : Substitution} {a : Arena} {st : PassState}

/-- What is remembered for two nodes is the same node exactly if the nodes are. -/
theorem sameNode_iff (hf : Faithful s a st) {x y x' y' : Expr} (hx : x ∈ a.nodes)
    (hy : y ∈ a.nodes) (hx' : st.memo.Maps x x') (hy' : st.memo.Maps y y') :
    x'.SameNode y' ↔ x.SameNode y := by
  constructor
  · intro hid
    -- The identities of replacements increase along the memo, so no two entries share one.
    have hnodup : (st.memo.entries.map (·.2.id)).Nodup := hf.increasing.imp Nat.ne_of_lt
    have heq : (x, x') = (y, y') := List.inj_on_of_nodup_map hnodup (hf.mem_of_maps hx hx')
      (hf.mem_of_maps hy hy') hid
    rw [(Prod.mk.inj heq).1]
    rfl
  · intro hid
    -- Nodes of one identity are equal in an arena, so the same is looked up.
    obtain rfl := a.coherent x hx y hy hid
    rw [Option.some.inj (hx'.symm.trans hy')]
    rfl

end PassState.Faithful

/-! ## What is told -/

/-- Whether an event tells of the replacement of one node by another. -/
inductive Event.Tells : Event → Expr × Expr → Prop where
  | parameter (p p' : Parameter) :
    Tells (.parameterReplaced p p'.ty) (.parameter p, .parameter p')
  | constant (id id' : Nat) (v v' : Value) :
    Tells (.constantReplaced v v') (.constant id v, .constant id' v')

/-- The value of a constant. -/
def Expr.value? : Expr → Option Value
  | .constant _ v => some v
  | _ => none

/-- Each replacement that is made as it has to be is told of once. -/
theorem forall₂_tells {s : Substitution} {entries : List (Expr × Expr)}
    (h : ∀ entry ∈ entries,
      entry.1.isLeaf = true ∧ entry.2 = entry.1.replacement s entry.2.id) :
    List.Forall₂ Event.Tells ((entries.map (·.1)).flatMap (Expr.replacementEvents s)) entries := by
  induction entries with
  | nil => exact .nil
  | cons entry entries ih =>
    obtain ⟨e, e'⟩ := entry
    obtain ⟨hleaf, hreplacement⟩ := h _ List.mem_cons_self
    have hrest := ih fun x hx => h x (List.mem_cons_of_mem _ hx)
    rw [show e' = e.replacement s e'.id from hreplacement]
    obtain ⟨p, rfl⟩ | ⟨id, v, rfl⟩ := Expr.isLeaf_iff.mp hleaf
    · exact .cons (.parameter p ⟨e'.id, s.resolve p.ty, p.name, p.byRef⟩) hrest
    · exact .cons (.constant id e'.id v (s.transform v)) hrest

/-- The message of the log about the replacement of a leaf. -/
def Expr.replacementMessage : Expr → String
  | .parameter _ => "parameter replaced"
  | _ => "constant replaced"

/-- Whether a message of the log is one about a replacement. -/
def isReplacementMessage (message : String) : Bool :=
  message = "parameter replaced" || message = "constant replaced"

/-- What is read off the replacements in a history is read off the leaves that are remembered. -/
theorem PassState.Faithful.filterMap_events {s : Substitution} {a : Arena} {st : PassState}
    (hf : st.Faithful s a) {β : Type} {f : Event → Option β} {g : Expr → Option β}
    (hquiet : ∀ ev, ev.isReplacement = false → f ev = none)
    (hleaf : ∀ l : Expr, (l.replacementEvents s).filterMap f = (g l).toList) :
    st.events.filterMap f = st.memo.sources.filterMap g := by
  -- All other events give nothing.
  have hfilter : st.events.filterMap f = (st.events.filter Event.isReplacement).filterMap f := by
    rw [List.filterMap_filter]
    congr 1
    funext ev
    by_cases h : ev.isReplacement = true
    · rw [if_pos h]
    · rw [if_neg h, hquiet ev (by simpa using h)]
  rw [hfilter, hf.events, List.filterMap_flatMap]
  simp only [hleaf]
  exact (List.filterMap_eq_flatMap_toList g _).symm

/-- What the constant transformation was applied to are the values of the constants that are
    remembered. -/
theorem PassState.Faithful.transformed {s : Substitution} {a : Arena} {report : Pass.Report}
    (hf : report.state.Faithful s a) :
    report.transformed s =
      if s.constantTransform.isSome then report.state.memo.sources.filterMap Expr.value?
      else [] := by
  unfold Pass.Report.transformed
  congr 1
  refine hf.filterMap_events ?_ ?_
  · intro ev hev
    cases ev with
    | constantReplaced source target => cases hev
    | _ => rfl
  · intro l
    cases l <;> rfl

/-- The messages about replacements in the log are those about the leaves that are remembered. -/
theorem PassState.Faithful.messages {s : Substitution} {a : Arena} {report : Pass.Report}
    (hf : report.state.Faithful s a) (root : Expr) :
    ((report.log s root).map (·.message)).filter isReplacementMessage =
      report.state.memo.sources.map Expr.replacementMessage := by
  -- The first and the last entry of the log are about the pass itself.
  have hend : isReplacementMessage report.endEntry.message = false := by
    unfold Pass.Report.endEntry
    cases report.result with
    | ok e => show isReplacementMessage "rewrite pass finished" = false; decide
    | error e => show isReplacementMessage "rewrite pass failed" = false; decide
  have hevents : (report.state.events.filterMap fun ev =>
      (ev.entry?.map (·.message)).filter isReplacementMessage) =
      report.state.memo.sources.filterMap fun l =>
        if l.isLeaf then some l.replacementMessage else none := by
    refine hf.filterMap_events ?_ ?_
    · intro ev hev
      cases ev with
      | parameterReplaced p target => cases hev
      | constantReplaced source target => cases hev
      | _ => rfl
    · intro l
      cases l <;> rfl
  -- Every entry of the memo is about a leaf, so that no message is left out.
  have hleaves : (report.state.memo.sources.filterMap fun l =>
      if l.isLeaf then some l.replacementMessage else none) =
      report.state.memo.sources.map Expr.replacementMessage := by
    rw [← List.filterMap_eq_map]
    refine List.filterMap_congr fun l hl => ?_
    obtain ⟨entry, hentry, rfl⟩ := List.mem_map.mp hl
    rw [if_pos (hf.sources entry hentry).2, Function.comp_apply]
  have hstart : isReplacementMessage (Pass.startEntry s root).message = false := by
    show isReplacementMessage "rewrite pass started" = false
    decide
  rw [← hleaves, ← hevents, Pass.Report.log, List.map_cons,
    List.filter_cons_of_neg (by simp [hstart]), List.map_append, List.filter_append]
  simp [hend, List.map_filterMap, List.filter_filterMap]

namespace Expr

/-! ## Whole passes -/

/-- What the report of a pass that made `e'` of `e` says about sharing. -/
structure KeepsSharing (s : Substitution) (e e' : Expr) (report : Pass.Report) : Prop where
  /-- Two places hold the same leaf exactly if the corresponding places do. -/
  identity : ∀ ps qs x y, e.descend? ps = some x → e.descend? qs = some y →
    x.isLeaf = true → y.isLeaf = true →
    ∃ x' y', follow? ps e e' = some x' ∧ follow? qs e e' = some y' ∧
      (x'.SameNode y' ↔ x.SameNode y)
  /-- A parameter is declared by a lambda exactly if the corresponding one is by the
      corresponding lambda. -/
  binding : ∀ ps qs l p, e.descend? ps = some l → e.descend? qs = some p →
    l.kind = .lambda → p.kind = .parameter →
    ∃ l' p', follow? ps e e' = some l' ∧ follow? qs e e' = some p' ∧
      l'.kind = .lambda ∧ p'.kind = .parameter ∧ (l'.Declares p' ↔ l.Declares p)
  /-- The memo has the leaves in the order of first visits. -/
  visited : report.state.memo.sources = e.firstVisits
  /-- No leaf has two entries. -/
  distinct : report.state.memo.sources.Pairwise fun x y => ¬x.SameNode y
  /-- What has an entry is a leaf that can be reached, and every such leaf has one. -/
  reachable : ∀ n, n ∈ report.state.memo.sources ↔
    n.isLeaf = true ∧ ∃ path, e.descend? path = some n
  /-- The replacement of a leaf stands wherever the leaf did. -/
  found : ∀ x x', (x, x') ∈ report.state.memo.entries →
    ∀ path, e.descend? path = some x → follow? path e e' = some x'
  /-- The history tells of each replacement once, in the order of the memo. -/
  told : List.Forall₂ Event.Tells (report.state.events.filter Event.isReplacement)
    report.state.memo.entries
  /-- So does the log, in the words for the kind of the leaf. -/
  logged : ((report.log s e).map (·.message)).filter isReplacementMessage =
    report.state.memo.sources.map replacementMessage
  /-- The constant transformation was applied once to the value of each constant. -/
  transformed : report.transformed s =
    if s.constantTransform.isSome then report.state.memo.sources.filterMap value? else []

variable {s : Substitution} {cat : Catalog} {a : Arena} {st : PassState}

/-- A leaf is related to its retargeted form as leaves are. -/
theorem Retargets.leaf_of_isLeaf {leaf : Expr → Expr → Prop} {e e' : Expr}
    (h : Retargets s cat leaf e e') (he : e.isLeaf = true) : leaf e e' := by
  cases h with
  | leaf _ _ h => exact h
  | _ => cases he

/-- With leaves replaced by what is remembered, lambdas declare corresponding parameters. -/
theorem declares_iff (hf : st.Faithful s a) {l l' p p' : Expr} (hl : l ∈ a.nodes)
    (hp : p ∈ a.nodes) (hlambda : l.kind = .lambda)
    (hretargets : Retargets s cat st.memo.Maps l l') (hmaps : st.memo.Maps p p') :
    l'.Declares p' ↔ l.Declares p := by
  cases hretargets with
  | lambda hparams _ =>
    rename_i id id' delegate delegate' name tailCall params params' body body' hbody
    have hmem : ∀ q ∈ params, .parameter q ∈ a.nodes := fun q hq =>
      a.closed _ hl _ (by simp [children, hq])
    constructor
    · intro h
      obtain ⟨i, _, hchild, hsame⟩ := h
      obtain ⟨q', hq', rfl⟩ := Option.map_eq_some_iff.mp hchild
      -- The parameter in that place of the old lambda is replaced by this one.
      obtain ⟨q, hq, hqq'⟩ := hparams.flip.exists_of_getElem? hq'
      refine ⟨i, .parameter q, Option.map_eq_some_iff.mpr ⟨q, hq, rfl⟩, ?_⟩
      exact (hf.sameNode_iff (hmem q (List.mem_of_getElem? hq)) hp hqq' hmaps).mp hsame
    · intro h
      obtain ⟨i, _, hchild, hsame⟩ := h
      obtain ⟨q, hq, rfl⟩ := Option.map_eq_some_iff.mp hchild
      obtain ⟨q', hq', hqq'⟩ := hparams.exists_of_getElem? hq
      refine ⟨i, .parameter q', Option.map_eq_some_iff.mpr ⟨q', hq', rfl⟩, ?_⟩
      exact (hf.sameNode_iff (hmem q (List.mem_of_getElem? hq)) hp hqq' hmaps).mpr hsame
  | leaf he _ _ => cases l <;> simp_all [isLeaf, kind]
  | _ => cases hlambda

/-- What corresponds to a leaf is what is remembered for it. -/
theorem exists_follow?_of_isLeaf {e e' x : Expr} {path : List Position}
    (hretargets : RetargetsArgument s cat st.memo.Maps e e') (hx : e.descend? path = some x)
    (hleaf : x.isLeaf = true) : ∃ x', follow? path e e' = some x' ∧ st.memo.Maps x x' := by
  obtain ⟨x', hx', hxx'⟩ := hretargets.exists_follow? hx
  exact ⟨x', hx', hxx'.leaf_of_isLeaf hleaf⟩

/-- Two places hold the same leaf exactly if the corresponding places do. -/
theorem sameNode_follow?_iff {e e' x y : Expr} {ps qs : List Position} (hf : st.Faithful s a)
    (he : e ∈ a.nodes) (hretargets : RetargetsArgument s cat st.memo.Maps e e')
    (hx : e.descend? ps = some x) (hy : e.descend? qs = some y) (hxleaf : x.isLeaf = true)
    (hyleaf : y.isLeaf = true) :
    ∃ x' y', follow? ps e e' = some x' ∧ follow? qs e e' = some y' ∧
      (x'.SameNode y' ↔ x.SameNode y) := by
  obtain ⟨x', hx', hxmaps⟩ := exists_follow?_of_isLeaf hretargets hx hxleaf
  obtain ⟨y', hy', hymaps⟩ := exists_follow?_of_isLeaf hretargets hy hyleaf
  have hxmem := a.mem_of_within (within_of_descend? hx) he
  have hymem := a.mem_of_within (within_of_descend? hy) he
  exact ⟨x', y', hx', hy', hf.sameNode_iff hxmem hymem hxmaps hymaps⟩

/-- A lambda in one place declares the parameter in another exactly if it is so in the
    corresponding places. -/
theorem declares_follow?_iff {e e' l p : Expr} {ps qs : List Position} (hf : st.Faithful s a)
    (he : e ∈ a.nodes) (hretargets : RetargetsArgument s cat st.memo.Maps e e')
    (hl : e.descend? ps = some l) (hp : e.descend? qs = some p) (hlambda : l.kind = .lambda)
    (hparameter : p.kind = .parameter) :
    ∃ l' p', follow? ps e e' = some l' ∧ follow? qs e e' = some p' ∧
      l'.kind = .lambda ∧ p'.kind = .parameter ∧ (l'.Declares p' ↔ l.Declares p) := by
  obtain ⟨l', hl', hll'⟩ := hretargets.exists_follow? hl
  obtain ⟨p', hp', hpp'⟩ := hretargets.exists_follow? hp
  have hlmem := a.mem_of_within (within_of_descend? hl) he
  have hpmem := a.mem_of_within (within_of_descend? hp) he
  have hpleaf : p.isLeaf = true := by cases p <;> simp_all [isLeaf, kind]
  refine ⟨l', p', hl', hp', hll'.kind_eq.trans hlambda, hpp'.kind_eq.trans hparameter, ?_⟩
  exact declares_iff hf hlmem hpmem hlambda hll' (hpp'.leaf_of_isLeaf hpleaf)

/-- Every leaf that can be reached has an entry. -/
theorem mem_sources_of_descend? {e e' n : Expr} {path : List Position} (hf : st.Faithful s a)
    (he : e ∈ a.nodes) (hretargets : RetargetsArgument s cat st.memo.Maps e e')
    (hn : e.descend? path = some n) (hleaf : n.isLeaf = true) : n ∈ st.memo.sources := by
  obtain ⟨n', -, hmaps⟩ := exists_follow?_of_isLeaf hretargets hn hleaf
  have hentry := hf.mem_of_maps (a.mem_of_within (within_of_descend? hn) he) hmaps
  exact List.mem_map.mpr ⟨_, hentry, rfl⟩

/-- A pass over a graph keeps what is shared and what is distinct, remembers each leaf once in
    the order of first visits, and tells of each replacement once. -/
theorem Constructed.keepsSharing {supply : Nat} {e e' : Expr} (h : e.Constructed supply)
    (hrun : (Pass.run s cat supply e).result = .ok e') :
    KeepsSharing s e e' (Pass.run s cat supply e) := by
  obtain ⟨a, rfl, he⟩ := h.exists_arena
  have hwalk := retarget_follows s cat a e he (.start s a) (Pass.returns_of_result hrun)
  generalize Pass.run s cat a.supply e = report at hwalk ⊢
  have hf := hwalk.visits.faithful
  -- With leaves replaced by what the memo remembers in the end, the two are related.
  have hretargets : RetargetsArgument s cat report.state.memo.Maps e e' :=
    .plain (hwalk.retargets _ fun _ _ _ hr => hr)
  -- Nothing was seen before the pass.
  have hsources : report.state.memo.sources = e.leaves.foldl remember [] := hwalk.visits.sources
  have hdistinct : report.state.memo.sources.Pairwise fun x y => x.id ≠ y.id := by
    rw [hsources]
    exact pairwise_foldl_remember .nil
  exact {
    identity := fun _ _ _ _ => sameNode_follow?_iff hf he hretargets
    binding := fun _ _ _ _ => declares_follow?_iff hf he hretargets
    visited := by simp [hsources, foldl_remember, firstVisits]
    distinct := hdistinct
    reachable := by
      intro n
      constructor
      · intro hn
        rw [hsources] at hn
        obtain ⟨hleaf, hwithin⟩ :=
          mem_leaves_iff.mp ((mem_of_mem_foldl_remember hn).resolve_left List.not_mem_nil)
        exact ⟨hleaf, hretargets.exists_path hwithin⟩
      · intro h
        obtain ⟨hleaf, path, hpath⟩ := h
        exact mem_sources_of_descend? hf he hretargets hpath hleaf
    found := by
      intro x x' hentry path hpath
      have hmaps := Memo.maps_of_mem hentry
      obtain ⟨n', hn', hmaps'⟩ :=
        exists_follow?_of_isLeaf hretargets hpath (hf.sources _ hentry).2
      rw [hn', Option.some.inj (hmaps.symm.trans hmaps')]
    told := by
      rw [hf.events]
      exact forall₂_tells fun entry hentry =>
        ⟨(hf.sources entry hentry).2, (hf.targets entry hentry).1⟩
    logged := hf.messages e
    transformed := hf.transformed }

end Expr

/-- The parameter of the lambda is declared once and used once; the number is transformed. -/
theorem Sample.selection_keepsSharing :
    (Pass.run renumber catalog 8 (selection itemFrom 7 0 5)).result =
        .ok (selection itemTo 8 8 15) ∧
      Expr.KeepsSharing renumber (selection itemFrom 7 0 5) (selection itemTo 8 8 15)
        (Pass.run renumber catalog 8 (selection itemFrom 7 0 5)) :=
  ⟨rfl, Expr.Constructed.keepsSharing (selection_built.constructed List.mem_cons_self) rfl⟩

end Retarget

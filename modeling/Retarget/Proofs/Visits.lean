import Retarget.Proofs.Run

/-!
# What a pass remembers

The leaves of an expression are its parameters and constants, listed in the order in which a pass
comes to them. A pass that has visited some leaves remembers each of them once, in the order of
first visits, with a replacement of its own; and its history tells of exactly these replacements.

## Key results

- `Expr.leaves`: the leaves of an expression in the order of visits
- `PassState.Faithful`: what a memo and a history have to do with each other and with the input
- `Visits`: a stretch of a pass that visits given leaves and keeps its state faithful
- `Visits.leaf`, `Visits.quiet`, `Visits.trans`: visiting a leaf, doing anything else, and both
-/

namespace Retarget

namespace Expr

mutual

/-- The parameters and constants of an expression, with repetitions: arguments before the
    receiver, parameters before the body, left before right before conversion. -/
def leaves : Expr → List Expr
  | .call _ receiver _ args _ => leavesList args ++ leavesOption receiver
  | .lambda _ _ _ _ params body => params.map .parameter ++ leaves body
  | .parameter p => [.parameter p]
  | .member _ object _ => leavesOption object
  | .constant id v => [.constant id v]
  | .unary _ _ operand _ _ => leaves operand
  | .binary _ _ left right _ _ conversion _ =>
    leaves left ++ leaves right ++ leavesOption conversion
  | .conditional _ test ifTrue ifFalse _ => leaves test ++ leaves ifTrue ++ leaves ifFalse
  | .invoke _ target args _ => leaves target ++ leavesList args
  | .default .. => []

/-- The leaves of an optional part. -/
def leavesOption : Option Expr → List Expr
  | none => []
  | some e => leaves e

/-- The leaves of parts from the left. -/
def leavesList : List Expr → List Expr
  | [] => []
  | e :: es => leaves e ++ leavesList es

end

/-- Parameters are their own leaves. -/
theorem leavesList_parameters (params : List Parameter) :
    leavesList (params.map .parameter) = params.map .parameter := by
  induction params with
  | nil => rfl
  | cons p ps ih => simp [leavesList, leaves, ih]

theorem leaves_of_isLeaf {e : Expr} (h : e.isLeaf = true) : e.leaves = [e] := by
  obtain ⟨p, rfl⟩ | ⟨id, v, rfl⟩ := isLeaf_iff.mp h <;> rfl

theorem children_of_isLeaf {e : Expr} (h : e.isLeaf = true) : e.children = [] := by
  obtain ⟨p, rfl⟩ | ⟨id, v, rfl⟩ := isLeaf_iff.mp h <;> rfl

/-- The leaves of an optional part are those of the part, if it is there. -/
theorem mem_leavesOption {o : Option Expr} {n : Expr} :
    n ∈ leavesOption o ↔ ∃ e, o = some e ∧ n ∈ e.leaves := by
  cases o <;> simp [leavesOption]

/-- The leaves of parts in a row are those of each of them. -/
theorem mem_leavesList {es : List Expr} {n : Expr} :
    n ∈ leavesList es ↔ ∃ e ∈ es, n ∈ e.leaves := by
  induction es with
  | nil => simp [leavesList]
  | cons e es ih => simp [leavesList, ih]

/-- A node that is not a leaf has the leaves of its parts. -/
theorem mem_leaves_iff_children {e n : Expr} (he : e.isLeaf = false) :
    n ∈ e.leaves ↔ ∃ c ∈ e.children, n ∈ c.leaves := by
  cases e with
  | parameter p => cases he
  | constant id v => cases he
  | call id receiver method args ty =>
    -- Arguments are visited before the receiver, which stands first among the parts.
    simp only [leaves, children, List.mem_append, mem_leavesList, mem_leavesOption,
      Option.mem_toList]
    constructor
    · intro h
      rcases h with ⟨e, he, hn⟩ | ⟨e, he, hn⟩
      · exact ⟨e, .inr he, hn⟩
      · exact ⟨e, .inl he, hn⟩
    · intro h
      obtain ⟨e, he | he, hn⟩ := h
      · exact .inr ⟨e, he, hn⟩
      · exact .inl ⟨e, he, hn⟩
  | lambda id delegate name tailCall params body =>
    -- The parameters of a lambda are leaves themselves.
    rw [leaves, ← leavesList_parameters params]
    simp only [children, List.mem_append, mem_leavesList, List.mem_singleton]
    constructor
    · intro h
      rcases h with ⟨e, he, hn⟩ | hn
      · exact ⟨e, .inl he, hn⟩
      · exact ⟨body, .inr rfl, hn⟩
    · intro h
      obtain ⟨e, he | rfl, hn⟩ := h
      · exact .inl ⟨e, he, hn⟩
      · exact .inr hn
  | member id object m => simp [leaves, children, mem_leavesOption]
  | unary id op operand ty method => simp [leaves, children]
  | binary id op left right lifted method conversion ty =>
    simp [leaves, children, mem_leavesOption]
  | conditional id test ifTrue ifFalse ty => simp [leaves, children]
  | invoke id target args ty => simp [leaves, children, mem_leavesList]
  | default id ty => simp [leaves, children]

/-- The leaves of an expression are the parameters and constants that are reachable from it. -/
theorem mem_leaves_iff {e n : Expr} : n ∈ e.leaves ↔ n.isLeaf = true ∧ n.Within e := by
  -- By induction over parts: a leaf has itself, and any other node has what its parts have.
  induction e using childInduction with
  | node e ih =>
    cases he : e.isLeaf with
    | true =>
      -- Nothing but the leaf itself is reachable from it.
      rw [leaves_of_isLeaf he, List.mem_singleton]
      constructor
      · rintro rfl
        exact ⟨he, .self⟩
      · intro h
        obtain ⟨-, hn⟩ := h
        cases hn with
        | self => rfl
        | part hc _ => rw [children_of_isLeaf he] at hc; cases hc
    | false =>
      rw [mem_leaves_iff_children he]
      constructor
      · intro h
        obtain ⟨c, hc, hn⟩ := h
        obtain ⟨hleaf, hwithin⟩ := (ih c hc).mp hn
        exact ⟨hleaf, .part hc hwithin⟩
      · intro h
        obtain ⟨hleaf, hn⟩ := h
        cases hn with
        | self => rw [he] at hleaf; cases hleaf
        | part hc hn => exact ⟨_, hc, (ih _ hc).mpr ⟨hleaf, hn⟩⟩

/-! ## Replacements of leaves -/

/-- A leaf is replaced by a node of its kind. -/
theorem kind_replacement (s : Substitution) (id : Nat) (e : Expr) :
    (e.replacement s id).kind = e.kind := by
  cases e <;> rfl

/-- The replacement of a leaf has the identity that was taken for it. -/
theorem id_replacement (s : Substitution) (id : Nat) {e : Expr} (h : e.isLeaf = true) :
    (e.replacement s id).id = id := by
  obtain ⟨p, rfl⟩ | ⟨i, v, rfl⟩ := isLeaf_iff.mp h <;> rfl

end Expr

/-! ## Faithful states -/

namespace Memo

/-- The nodes that are remembered, in the order of recording. -/
def sources (memo : Memo) : List Expr := memo.entries.map (·.1)

/-- Whether a memo remembers `r` as the replacement of `e`. -/
def Maps (memo : Memo) (e r : Expr) : Prop := memo.lookup? e = some r

/-- What is remembered stays so while the memo grows. -/
theorem Maps.of_prefix {memo memo' : Memo} {e r : Expr} (h : memo.Maps e r)
    (hgrow : memo.entries <+: memo'.entries) : memo'.Maps e r := by
  obtain ⟨new, hnew⟩ := hgrow
  rw [Maps, lookup?_eq_find?] at h
  obtain ⟨entry, hfind, rfl⟩ := Option.map_eq_some_iff.mp h
  simp only [Maps, lookup?_eq_find?, ← hnew, List.find?_append, hfind, Option.some_or,
    Option.map_some]

/-- Whether `leaf` holds of every replacement that is remembered for a node of the arena. -/
def Gives (memo : Memo) (a : Arena) (leaf : Expr → Expr → Prop) : Prop :=
  ∀ e ∈ a.nodes, ∀ r, memo.Maps e r → leaf e r

/-- What holds of a memo that has grown held of it before. -/
theorem Gives.of_prefix {memo memo' : Memo} {a : Arena} {leaf : Expr → Expr → Prop}
    (h : memo'.Gives a leaf) (hgrow : memo.entries <+: memo'.entries) : memo.Gives a leaf :=
  fun e he r hr => h e he r (hr.of_prefix hgrow)

/-- Nothing is found exactly for the nodes that were not recorded. -/
theorem lookup?_eq_none {memo : Memo} {e : Expr} :
    memo.lookup? e = none ↔ ∀ source ∈ memo.sources, source.id ≠ e.id := by
  simp [lookup?_eq_find?, sources]

/-- A node that was not recorded is recorded behind all others. -/
theorem sources_record_of_lookup?_eq_none {memo : Memo} {node : Expr} (replacement : Expr)
    (h : memo.lookup? node = none) :
    (memo.record node replacement).sources = memo.sources ++ [node] := by
  rw [sources, entries_record_of_lookup?_eq_none replacement h, List.map_append]
  rfl

end Memo

/-- The leaves seen so far and one more, which is added unless it was seen before. -/
def remember (seen : List Expr) (leaf : Expr) : List Expr :=
  if seen.any (·.id = leaf.id) then seen else seen ++ [leaf]

/-- Whether an event tells of the replacement of a parameter or a constant. -/
def Event.isReplacement : Event → Bool
  | .parameterReplaced .. => true
  | .constantReplaced .. => true
  | _ => false

/-- What is told of a method is no replacement of a leaf. -/
theorem isReplacement_methodEvents {s : Substitution} {m : MethodRef} :
    ∀ ev ∈ Pass.methodEvents s m, ev.isReplacement = false := by
  intro ev hev
  simp only [Pass.methodEvents] at hev
  split at hev
  · cases hev
  · rw [List.mem_singleton.mp hev]
    rfl

/-- What is told of an overload is no replacement of a leaf. -/
theorem isReplacement_overloadEvents {s : Substitution} {m : Option MethodRef} :
    ∀ ev ∈ (m.map (Pass.methodEvents s)).getD [], ev.isReplacement = false := by
  cases m with
  | none => simp
  | some m => exact isReplacement_methodEvents

/-- What is told of a member is no replacement of a leaf. -/
theorem isReplacement_memberEvents {s : Substitution} {m : Member} :
    ∀ ev ∈ Pass.memberEvents s m, ev.isReplacement = false := by
  intro ev hev
  simp only [Pass.memberEvents, List.mem_append] at hev
  rcases hev with hev | hev
  · split at hev
    · rw [List.mem_singleton.mp hev]
      rfl
    · cases hev
  · split at hev
    · rw [List.mem_singleton.mp hev]
      rfl
    · cases hev

/-- What is told of a leaf is nothing but its replacement. -/
theorem filter_replacementEvents (s : Substitution) (leaf : Expr) :
    (leaf.replacementEvents s).filter Event.isReplacement = leaf.replacementEvents s := by
  cases leaf <;> rfl

/-- The state of a pass over an expression of the arena `a`. All that is remembered are leaves of
    the arena; each has a replacement of its own, which is new and made as it has to be, and the
    history tells of these replacements in the order in which they are remembered. -/
structure PassState.Faithful (s : Substitution) (a : Arena) (st : PassState) : Prop where
  supply : a.supply ≤ st.supply
  sources : ∀ entry ∈ st.memo.entries, entry.1 ∈ a.nodes ∧ entry.1.isLeaf = true
  targets : ∀ entry ∈ st.memo.entries,
    entry.2 = entry.1.replacement s entry.2.id ∧ a.supply ≤ entry.2.id ∧ entry.2.id < st.supply
  increasing : (st.memo.entries.map (·.2.id)).Pairwise (· < ·)
  events : st.events.filter Event.isReplacement =
    st.memo.sources.flatMap (Expr.replacementEvents s)

namespace PassState.Faithful

variable {s : Substitution} {a : Arena} {st : PassState}

/-- Nothing is remembered at the start. -/
theorem start (s : Substitution) (a : Arena) : Faithful s a ⟨a.supply, .empty, []⟩ where
  supply := Nat.le_refl _
  sources := by simp [Memo.empty]
  targets := by simp [Memo.empty]
  increasing := by simp [Memo.empty]
  events := by simp [Memo.empty, Memo.sources]

/-- What is remembered for a node of the arena was recorded for that very node. -/
theorem mem_of_maps (hf : Faithful s a st) {e r : Expr} (he : e ∈ a.nodes)
    (h : st.memo.Maps e r) : (e, r) ∈ st.memo.entries := by
  obtain ⟨source, hmem, hid⟩ := Memo.mem_of_lookup? h
  obtain rfl := a.coherent source (hf.sources _ hmem).1 e he hid
  exact hmem

/-- A replacement that is remembered for a node of the arena is made as it has to be. -/
theorem eq_replacement (hf : Faithful s a st) {e r : Expr} (he : e ∈ a.nodes)
    (h : st.memo.Maps e r) : r = e.replacement s r.id :=
  (hf.targets _ (hf.mem_of_maps he h)).1

/-- A new leaf is remembered with a new replacement. -/
theorem record (hf : Faithful s a st) {e : Expr} (he : e ∈ a.nodes) (hleaf : e.isLeaf = true)
    (hnew : st.memo.lookup? e = none) :
    Faithful s a ⟨st.supply + 1, st.memo.record e (e.replacement s st.supply),
      st.events ++ e.replacementEvents s⟩ := by
  have hid := Expr.id_replacement s st.supply hleaf
  have hentries := Memo.entries_record_of_lookup?_eq_none (e.replacement s st.supply) hnew
  -- The new entry is checked by itself; for all others only the supply has moved.
  refine ⟨Nat.le_succ_of_le hf.supply, ?_, ?_, ?_, ?_⟩
  · intro entry hentry
    rw [hentries] at hentry
    rcases List.mem_append.mp hentry with hentry | hentry
    · exact hf.sources entry hentry
    · rw [List.mem_singleton.mp hentry]
      exact ⟨he, hleaf⟩
  · intro entry hentry
    rw [hentries] at hentry
    rcases List.mem_append.mp hentry with hentry | hentry
    · obtain ⟨heq, hle, hlt⟩ := hf.targets entry hentry
      exact ⟨heq, hle, Nat.lt_succ_of_lt hlt⟩
    · -- The new replacement takes its identity from the supply.
      rw [List.mem_singleton.mp hentry]
      show e.replacement s st.supply = e.replacement s (e.replacement s st.supply).id ∧ _
      rw [hid]
      exact ⟨rfl, hf.supply, Nat.lt_succ_self _⟩
  · -- All earlier replacements took their identities from below the supply.
    rw [hentries, List.map_append, List.pairwise_append]
    refine ⟨hf.increasing, List.pairwise_singleton _ _, ?_⟩
    intro i hi j hj
    obtain ⟨entry, hentry, rfl⟩ := List.mem_map.mp hi
    rw [List.mem_singleton.mp hj]
    show entry.2.id < (e.replacement s st.supply).id
    rw [hid]
    exact (hf.targets entry hentry).2.2
  · -- What is told of the new leaf comes after what is told of all others.
    have hsources := Memo.sources_record_of_lookup?_eq_none (e.replacement s st.supply) hnew
    rw [List.filter_append, hf.events, filter_replacementEvents, hsources]
    simp

end PassState.Faithful

/-! ## Stretches of a pass -/

/-- A stretch of a pass that visits given leaves: its state is faithful, and what is remembered
    are the leaves remembered before and those that were new. -/
structure Visits (s : Substitution) (a : Arena) (leaves : List Expr) (st st' : PassState) :
    Prop where
  faithful : st'.Faithful s a
  supply : st.supply ≤ st'.supply
  grows : st.memo.entries <+: st'.memo.entries
  sources : st'.memo.sources = leaves.foldl remember st.memo.sources

namespace Visits

variable {s : Substitution} {a : Arena} {st st₁ st' : PassState}

/-- One stretch after another visits the leaves of both. -/
theorem trans {xs ys : List Expr} (hx : Visits s a xs st st₁) (hy : Visits s a ys st₁ st') :
    Visits s a (xs ++ ys) st st' where
  faithful := hy.faithful
  supply := Nat.le_trans hx.supply hy.supply
  grows := hx.grows.trans hy.grows
  sources := by rw [List.foldl_append, ← hx.sources, hy.sources]

/-- Doing nothing visits nothing. -/
theorem refl (hf : st.Faithful s a) : Visits s a [] st st where
  faithful := hf
  supply := Nat.le_refl _
  grows := List.prefix_rfl
  sources := rfl

/-- Taking identities and telling of anything but replacements visits no leaf. -/
theorem quiet {leaves : List Expr} (h : Visits s a leaves st st₁) {n : Nat} {events : List Event}
    (hn : st₁.supply ≤ n) (hevents : ∀ ev ∈ events, ev.isReplacement = false) :
    Visits s a leaves st ⟨n, st₁.memo, st₁.events ++ events⟩ where
  faithful := {
    supply := Nat.le_trans h.faithful.supply hn
    sources := h.faithful.sources
    targets := fun entry hentry =>
      have ⟨heq, hle, hlt⟩ := h.faithful.targets entry hentry
      ⟨heq, hle, Nat.lt_of_lt_of_le hlt hn⟩
    increasing := h.faithful.increasing
    events := by
      -- Of what is told in between, nothing counts as a replacement.
      have hnone : events.filter Event.isReplacement = [] := by
        simpa [List.filter_eq_nil_iff] using hevents
      rw [List.filter_append, hnone, List.append_nil]
      exact h.faithful.events }
  supply := Nat.le_trans h.supply hn
  grows := h.grows
  sources := h.sources

/-- Taking identities alone visits no leaf. -/
theorem quiet_supply {leaves : List Expr} (h : Visits s a leaves st st₁) {n : Nat}
    (hn : st₁.supply ≤ n) : Visits s a leaves st { st₁ with supply := n } := by
  have hquiet : Visits s a leaves st ⟨n, st₁.memo, st₁.events ++ []⟩ := h.quiet hn (by simp)
  rwa [List.append_nil] at hquiet

end Visits

/-- A leaf that is remembered is not remembered anew. -/
theorem remember_of_maps {memo : Memo} {leaf r : Expr} (h : memo.Maps leaf r) :
    remember memo.sources leaf = memo.sources := by
  obtain ⟨source, hmem, hid⟩ := Memo.mem_of_lookup? h
  have : memo.sources.any (·.id = leaf.id) = true :=
    List.any_eq_true.mpr ⟨source, List.mem_map.mpr ⟨_, hmem, rfl⟩, by simpa using hid⟩
  rw [remember, if_pos this]

/-- A leaf that was not seen is remembered behind all others. -/
theorem remember_of_lookup?_eq_none {memo : Memo} {leaf : Expr} (h : memo.lookup? leaf = none) :
    remember memo.sources leaf = memo.sources ++ [leaf] := by
  have : ¬memo.sources.any (·.id = leaf.id) = true := by
    simpa using Memo.lookup?_eq_none.mp h
  rw [remember, if_neg this]

/-- The visit of a leaf, found in the memo or replaced, and what is remembered for it. -/
theorem Visits.leaf {s : Substitution} {cat : Catalog} {a : Arena} {st st' : PassState}
    {e e' : Expr} (hleaf : e.isLeaf = true) (he : e ∈ a.nodes) (hf : st.Faithful s a)
    (hrun : (e.retarget s cat).Returns st e' st') :
    Visits s a [e] st st' ∧ st'.memo.Maps e e' := by
  rcases (Expr.returns_leaf hleaf).mp hrun with ⟨hseen, rfl⟩ | ⟨hnew, rfl, rfl⟩
  · -- A leaf that was seen before changes nothing.
    refine ⟨⟨hf, Nat.le_refl _, List.prefix_rfl, ?_⟩, hseen⟩
    exact (remember_of_maps hseen).symm
  · -- A leaf that is new is recorded and then found.
    have hmaps : (st.memo.record e (e.replacement s st.supply)).Maps e
        (e.replacement s st.supply) := by
      rw [Memo.Maps, Memo.lookup?_record_self, hnew, Option.getD_none]
    refine ⟨⟨hf.record he hleaf hnew, Nat.le_succ _, ?_, ?_⟩, hmaps⟩
    · rw [Memo.entries_record_of_lookup?_eq_none _ hnew]
      exact List.prefix_append _ _
    · rw [List.foldl_cons, List.foldl_nil, remember_of_lookup?_eq_none hnew]
      exact Memo.sources_record_of_lookup?_eq_none _ hnew

end Retarget

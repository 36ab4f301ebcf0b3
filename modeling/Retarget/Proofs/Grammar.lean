import Retarget.Ty.Parser

/-!
# The grammar of types

The grammar that the reader follows, as derivations of token sequences:

    type ::= base | base '?'
    base ::= name | name '<' type (',' type)* '>'

The reader is a machine with a stack. What it has read of a type is told by its state, so reading is
right when each token keeps the state in step with the tokens before it; and a derivation leads the
machine, whatever is on its stack, to the type that it derives.

## Key results

- `Ty.Spells`: a sequence of tokens spells a type
- `Ty.Spells.run`: the machine reads what is derived
- `Ty.Progress.Spelt.advance`, `Ty.Progress.Spelt.run`: what the machine has read can be derived
- `Ty.ofSpelling_eq_ok`: the reader accepts what the grammar derives, and nothing else
-/

namespace Retarget

namespace Ty

mutual

/-- A sequence of tokens spells a type: that of its base, or `Nullable` of it if a `?` follows. -/
inductive Spells : List Token → Ty → Prop where
  | base {ts : List Token} {t : Ty} (h : SpellsBase ts t) : Spells ts t
  | marked {ts : List Token} {t : Ty} (h : SpellsBase ts t) :
      Spells (ts ++ [.question]) (.generic "Nullable" [t])

/-- A name, alone or applied to arguments. -/
inductive SpellsBase : List Token → Ty → Prop where
  | name (n : String) : SpellsBase [.ident n] (.named n)
  | applied (n : String) {ts : List Token} {args : List Ty} (h : SpellsArgs ts args) :
      SpellsBase (.ident n :: .lt :: (ts ++ [.gt])) (.generic n args)

/-- One argument or more, with commas between them. -/
inductive SpellsArgs : List Token → List Ty → Prop where
  | one {ts : List Token} {t : Ty} (h : Spells ts t) : SpellsArgs ts [t]
  | more {ts us : List Token} {t : Ty} {args : List Ty} (h : Spells ts t)
      (hs : SpellsArgs us args) : SpellsArgs (ts ++ .comma :: us) (t :: args)

end

/-- A further argument at the end. -/
theorem SpellsArgs.snoc {us : List Token} {t : Ty} (h : Spells us t) :
    ∀ {ts : List Token} {args : List Ty}, SpellsArgs ts args →
      SpellsArgs (ts ++ .comma :: us) (args ++ [t])
  | _, _, .one h' => .more h' (.one h)
  | _, _, .more h' hs => by
    rw [List.append_assoc]
    exact .more h' (SpellsArgs.snoc h hs)

/-- There is at least one argument. -/
theorem SpellsArgs.ne_nil {ts : List Token} {args : List Ty} (h : SpellsArgs ts args) :
    args ≠ [] := by
  cases h <;> simp

/-! ## The machine -/

namespace Progress

/-- The state after some tokens. -/
def run (p : Progress) (ts : List Token) : Except SyntaxError.Cause Progress :=
  ts.foldlM advance p

@[simp] theorem run_nil (p : Progress) : p.run [] = .ok p := rfl

theorem run_cons (p : Progress) (tok : Token) (ts : List Token) :
    p.run (tok :: ts) = (p.advance tok >>= fun q => q.run ts) := rfl

/-- Tokens are read after those before them. -/
theorem run_append (p : Progress) (ts us : List Token) :
    p.run (ts ++ us) = (p.run ts >>= fun q => q.run us) :=
  List.foldlM_append ..

/-- Reading goes on from the state that the first token leads to. -/
theorem run_of_advance {p q : Progress} {tok : Token} (h : p.advance tok = .ok q)
    (ts : List Token) : p.run (tok :: ts) = q.run ts := by
  rw [run_cons, h]
  rfl

/-- Reading goes on from the state that the tokens so far lead to. -/
theorem run_of_run {p q : Progress} {ts : List Token} (h : p.run ts = .ok q) (us : List Token) :
    p.run (ts ++ us) = q.run us := by
  rw [run_append, h]
  rfl

/-- A run over two sequences passes through a state between them. -/
theorem run_append_eq_ok {p r : Progress} {ts us : List Token} :
    p.run (ts ++ us) = .ok r ↔ ∃ q, p.run ts = .ok q ∧ q.run us = .ok r := by
  rw [run_append]
  cases p.run ts <;> simp [bind, Except.bind]

/-- A run over a token and more passes through the state behind the token. -/
theorem run_cons_eq_ok {p r : Progress} {tok : Token} {ts : List Token} :
    p.run (tok :: ts) = .ok r ↔ ∃ q, p.advance tok = .ok q ∧ q.run ts = .ok r := by
  rw [run_cons]
  cases p.advance tok <;> simp [bind, Except.bind]

end Progress

/-- The type that a sequence of tokens spells, as the machine reads it. -/
def ofSpelling (ts : List Token) : Except SyntaxError.Cause Ty :=
  Progress.start.run ts >>= Progress.complete

/-! ## The machine reads what is derived -/

/-- The type that has been read when a `?` may still follow. -/
def Focus.base? : Focus → Option Ty
  | .name n => some (.named n)
  | .applied t => some t
  | _ => none

/-- Where a `?` may follow, the type is complete without it. -/
theorem Focus.type?_of_base? {f : Focus} {t : Ty} (h : f.base? = some t) : f.type? = some t := by
  cases f with
  | name n => exact h
  | applied t => exact h
  | wanted => cases h
  | marked t => cases h

namespace Progress

variable {stack : List OpenGeneric} {f : Focus} {t : Ty}

/-- A `?` makes a `Nullable` of the type that was read. -/
theorem advance_question (h : f.base? = some t) :
    advance ⟨stack, f⟩ .question = .ok ⟨stack, .marked (.generic "Nullable" [t])⟩ := by
  cases f with
  | name n =>
    obtain rfl := Option.some.inj h
    rfl
  | applied t' =>
    obtain rfl := Option.some.inj h
    rfl
  | wanted => cases h
  | marked t' => cases h

/-- A separator or a closing bracket is read in the same way after every complete type. -/
theorem advance_separator (h : f.type? = some t) {tok : Token} (htok : tok = .comma ∨ tok = .gt) :
    advance ⟨stack, f⟩ tok = afterType stack t tok := by
  cases f with
  | wanted => cases h
  | name n =>
    obtain rfl := Option.some.inj h
    rcases htok with rfl | rfl <;> rfl
  | applied t' =>
    obtain rfl := Option.some.inj h
    rcases htok with rfl | rfl <;> rfl
  | marked t' =>
    obtain rfl := Option.some.inj h
    rcases htok with rfl | rfl <;> rfl

end Progress

-- What is on the stack does not matter to the tokens of one type.
mutual

/-- The tokens of a type lead from where a type is wanted to where that type has been read. -/
theorem Spells.run {ts : List Token} {t : Ty} :
    Spells ts t → ∃ f : Focus, f.type? = some t ∧
      ∀ stack, Progress.run ⟨stack, .wanted⟩ ts = .ok ⟨stack, f⟩
  | .base h => by
    obtain ⟨f, hf, hrun⟩ := h.run
    exact ⟨f, Focus.type?_of_base? hf, hrun⟩
  | .marked h => by
    -- The base leads to where a `?` may follow, and then one does.
    obtain ⟨f, hf, hrun⟩ := h.run
    refine ⟨.marked _, rfl, fun stack => ?_⟩
    rw [Progress.run_of_run (hrun stack),
      Progress.run_of_advance (Progress.advance_question hf), Progress.run_nil]

/-- The tokens of a base lead to where a `?` may still follow. -/
theorem SpellsBase.run {ts : List Token} {t : Ty} :
    SpellsBase ts t → ∃ f : Focus, f.base? = some t ∧
      ∀ stack, Progress.run ⟨stack, .wanted⟩ ts = .ok ⟨stack, f⟩
  | .name n => ⟨.name n, rfl, fun _ => rfl⟩
  | @SpellsBase.applied n _ args h => by
    -- Name and bracket open an application, and its arguments are read on top of the stack.
    refine ⟨.applied (.generic n args), rfl, fun stack => ?_⟩
    have hargs := h.run n [] stack
    exact hargs

/-- Arguments are added to those of the innermost application, which the bracket then closes. -/
theorem SpellsArgs.run {ts : List Token} {args : List Ty} :
    SpellsArgs ts args → ∀ (n : String) (done : List Ty) (stack : List OpenGeneric),
      Progress.run ⟨⟨n, done⟩ :: stack, .wanted⟩ (ts ++ [.gt]) =
        .ok ⟨stack, .applied (.generic n (done.reverse ++ args))⟩
  | @SpellsArgs.one _ t h, n, done, stack => by
    obtain ⟨f, hf, hrun⟩ := h.run
    -- The bracket comes after the last argument.
    have hclose : Progress.advance ⟨⟨n, done⟩ :: stack, f⟩ .gt =
        .ok ⟨stack, .applied (.generic n (t :: done).reverse)⟩ :=
      Progress.advance_separator hf (.inr rfl)
    rw [Progress.run_of_run (hrun _), Progress.run_of_advance hclose, Progress.run_nil,
      List.reverse_cons]
  | @SpellsArgs.more _ _ t args h hs, n, done, stack => by
    obtain ⟨f, hf, hrun⟩ := h.run
    -- The comma puts the argument to those before it.
    have hcomma : Progress.advance ⟨⟨n, done⟩ :: stack, f⟩ .comma =
        .ok ⟨⟨n, t :: done⟩ :: stack, .wanted⟩ :=
      Progress.advance_separator hf (.inl rfl)
    rw [List.append_assoc, Progress.run_of_run (hrun _), List.cons_append,
      Progress.run_of_advance hcomma, hs.run n (t :: done) stack, List.reverse_cons,
      List.append_assoc, List.singleton_append]

end

/-- The machine reads the type that is derived. -/
theorem Spells.ofSpelling_eq {ts : List Token} {t : Ty} (h : Spells ts t) :
    ofSpelling ts = .ok t := by
  obtain ⟨f, hf, hrun⟩ := h.run
  rw [ofSpelling, Progress.start, hrun]
  show Progress.complete ⟨[], f⟩ = .ok t
  rw [Progress.complete, hf]

/-! ## What the machine has read can be derived -/

/-- What was read of the innermost type. -/
inductive Focus.Spelt : List Token → Focus → Prop where
  | wanted : Spelt [] .wanted
  | name (n : String) : Spelt [.ident n] (.name n)
  | applied {ts : List Token} {t : Ty} (h : SpellsBase ts t) : Spelt ts (.applied t)
  | marked {ts : List Token} {t : Ty} (h : SpellsBase ts t) :
      Spelt (ts ++ [.question]) (.marked (.generic "Nullable" [t]))

/-- What was read of an open application, up to the bracket or the comma after its last argument. -/
inductive OpenGeneric.Spelt : List Token → OpenGeneric → Prop where
  | opened (n : String) : Spelt [.ident n, .lt] ⟨n, []⟩
  | separated {n : String} {ts : List Token} {args : List Ty} (h : SpellsArgs ts args.reverse) :
      Spelt (.ident n :: .lt :: (ts ++ [.comma])) ⟨n, args⟩

/-- What was read of all open applications, the outermost first. -/
inductive OpenGeneric.StackSpelt : List Token → List OpenGeneric → Prop where
  | nil : StackSpelt [] []
  | cons {ts us : List Token} {g : OpenGeneric} {outer : List OpenGeneric}
      (houter : StackSpelt ts outer) (h : g.Spelt us) : StackSpelt (ts ++ us) (g :: outer)

/-- The tokens that a state has read. -/
inductive Progress.Spelt : List Token → Progress → Prop where
  | intro {ts us : List Token} {stack : List OpenGeneric} {f : Focus}
      (hstack : OpenGeneric.StackSpelt ts stack) (h : f.Spelt us) : Spelt (ts ++ us) ⟨stack, f⟩

/-- What was read of the innermost type derives that type if it is complete. -/
theorem Focus.Spelt.spells {f : Focus} {ts : List Token} {t : Ty} (h : f.Spelt ts)
    (ht : f.type? = some t) : Spells ts t := by
  cases h with
  | wanted => cases ht
  | name n =>
    obtain rfl := Option.some.inj ht
    exact .base (.name n)
  | applied h =>
    obtain rfl := Option.some.inj ht
    exact .base h
  | marked h =>
    obtain rfl := Option.some.inj ht
    exact .marked h

/-- An open application and one more argument. -/
theorem OpenGeneric.Spelt.snoc {g : OpenGeneric} {ts us : List Token} {t : Ty} (h : g.Spelt ts)
    (ht : Spells us t) :
    ∃ vs, ts ++ us = .ident g.definition :: .lt :: vs ∧ SpellsArgs vs (t :: g.args).reverse := by
  cases h with
  -- So far there was only the name and the bracket, or else arguments up to a comma.
  | opened n => exact ⟨us, rfl, .one ht⟩
  | separated h =>
    rename_i n vs args
    refine ⟨vs ++ .comma :: us, by simp, ?_⟩
    rw [List.reverse_cons]
    exact h.snoc ht

namespace Progress

variable {p q : Progress} {ts us : List Token} {tok : Token}

/-- After a complete type, a comma or a bracket keeps the state in step. -/
theorem Spelt.afterType {stack : List OpenGeneric} {t : Ty}
    (hstack : OpenGeneric.StackSpelt ts stack) (ht : Spells us t)
    (h : Progress.afterType stack t tok = .ok q) : q.Spelt (ts ++ us ++ [tok]) := by
  cases hstack with
  | nil => cases h
  | cons houter hg =>
    rename_i ts ws g outer
    obtain ⟨vs, hvs, hargs⟩ := hg.snoc ht
    rw [List.append_assoc ts, hvs]
    cases tok with
    | comma =>
      obtain rfl := Except.ok.inj h
      -- The comma belongs to the application, and nothing was read of the next argument.
      have hopen : OpenGeneric.Spelt (.ident g.definition :: .lt :: (vs ++ [.comma]))
          { g with args := t :: g.args } := .separated hargs
      have hspelt := Spelt.intro (houter.cons hopen) .wanted
      rwa [List.append_nil, ← List.cons_append, ← List.cons_append, ← List.append_assoc] at hspelt
    | gt =>
      obtain rfl := Except.ok.inj h
      rw [List.append_assoc]
      exact .intro houter (.applied (.applied g.definition hargs))
    | ident n => cases h
    | lt => cases h
    | question => cases h

/-- Each token that is read keeps the state in step. -/
theorem Spelt.advance (hp : p.Spelt ts) (h : p.advance tok = .ok q) : q.Spelt (ts ++ [tok]) := by
  obtain ⟨hstack, hf⟩ := hp
  rename_i us vs stack f
  -- After a complete type the machine looks at its stack.
  have hafter : ∀ {t : Ty}, f.type? = some t → Progress.afterType stack t tok = .ok q →
      q.Spelt (us ++ vs ++ [tok]) :=
    fun ht h => .afterType hstack (hf.spells ht) h
  -- The last part that was read decides which tokens can follow.
  cases hf with
  | wanted =>
    cases tok with
    | ident n =>
      obtain rfl := Except.ok.inj h
      rw [List.append_nil]
      exact .intro hstack (.name n)
    | _ => cases h
  | name n =>
    cases tok with
    | lt =>
      obtain rfl := Except.ok.inj h
      have hspelt := Spelt.intro (hstack.cons (.opened n)) .wanted
      rwa [List.append_nil, List.append_cons] at hspelt
    | question =>
      obtain rfl := Except.ok.inj h
      rw [List.append_assoc]
      exact .intro hstack (.marked (.name n))
    | _ => exact hafter rfl h
  | applied hbase =>
    cases tok with
    | question =>
      obtain rfl := Except.ok.inj h
      rw [List.append_assoc]
      exact .intro hstack (.marked hbase)
    | _ => exact hafter rfl h
  | marked hbase =>
    cases tok with
    | question => cases h
    | _ => exact hafter rfl h

/-- The machine is in step with all that it has read. -/
theorem Spelt.run (hp : p.Spelt ts) (h : p.run us = .ok q) : q.Spelt (ts ++ us) := by
  -- Induction on the tokens that are left, with those before them in the statement.
  induction us generalizing p ts with
  | nil =>
    obtain rfl := Except.ok.inj h
    rwa [List.append_nil]
  | cons tok us ih =>
    obtain ⟨r, hr, h⟩ := run_cons_eq_ok.mp h
    have hspelt := ih (hp.advance hr) h
    rwa [List.append_assoc] at hspelt

/-- If the machine gives a type at the end, what it has read derives that type. -/
theorem Spelt.complete {t : Ty} (hp : p.Spelt ts) (h : p.complete = .ok t) : Spells ts t := by
  obtain ⟨hstack, hf⟩ := hp
  rename_i us vs stack f
  unfold Progress.complete at h
  split at h
  · cases h
  · rename_i t' ht hempty
    obtain rfl := Except.ok.inj h
    -- A type is given only when no application is open, so all tokens belong to it.
    obtain rfl : stack = [] := hempty
    cases hstack
    exact hf.spells ht
  · cases h

/-- A name is never followed by another. -/
theorem advance_name_name {m n : String} (h : p.advance (.ident m) = .ok q) :
    ∃ cause, q.advance (.ident n) = .error cause := by
  obtain ⟨stack, f⟩ := p
  cases f with
  | wanted =>
    obtain rfl := Except.ok.inj h
    cases stack <;> exact ⟨_, rfl⟩
  | name _ => cases stack <;> cases h
  | applied _ => cases stack <;> cases h
  | marked _ => cases stack <;> cases h

/-- The reader of located tokens is the machine, with the places of the faults added to it. -/
theorem mapError_read (stop : Nat) (p : Progress) (toks : List (Located Token)) :
    (p.read stop toks).mapError (·.cause) = (p.run (toks.map (·.value)) >>= complete) := by
  -- Induction on the tokens; the places play no part in where the machine goes.
  induction toks generalizing p with
  | nil =>
    rw [read, List.map_nil, run_nil]
    show _ = p.complete
    cases p.complete <;> rfl
  | cons tok toks ih =>
    rw [read, List.map_cons, run_cons]
    cases p.advance tok.value with
    | error cause => rfl
    | ok q => exact ih q

end Progress

/-- The reader accepts exactly what the grammar derives. -/
theorem ofSpelling_eq_ok {ts : List Token} {t : Ty} : ofSpelling ts = .ok t ↔ Spells ts t := by
  constructor
  · intro h
    -- What has been read when the tokens end is in step with all of them.
    cases hrun : Progress.start.run ts with
    | error cause =>
      rw [ofSpelling, hrun] at h
      cases h
    | ok p =>
      rw [ofSpelling, hrun] at h
      have hstart : Progress.start.Spelt ([] ++ []) := .intro .nil .wanted
      exact (hstart.run hrun).complete h
  · exact Spells.ofSpelling_eq

/-- No sequence of tokens spells two types. -/
theorem Spells.unique {ts : List Token} {t t' : Ty} (h : Spells ts t) (h' : Spells ts t') :
    t = t' :=
  Except.ok.inj (h.ofSpelling_eq.symm.trans h'.ofSpelling_eq)

/-- No two names stand side by side in what spells a type. -/
theorem Spells.not_adjacent {ts us : List Token} {m n : String} {t : Ty} :
    ¬ Spells (ts ++ .ident m :: .ident n :: us) t := by
  intro h
  obtain ⟨f, -, hrun⟩ := h.run
  -- The machine would have to pass over both names, and stops at the second.
  obtain ⟨p, -, hrun⟩ := Progress.run_append_eq_ok.mp (hrun [])
  obtain ⟨q, hq, hrun⟩ := Progress.run_cons_eq_ok.mp hrun
  obtain ⟨r, hr, -⟩ := Progress.run_cons_eq_ok.mp hrun
  obtain ⟨cause, hfault⟩ := Progress.advance_name_name (n := n) hq
  rw [hfault] at hr
  cases hr

end Ty

end Retarget

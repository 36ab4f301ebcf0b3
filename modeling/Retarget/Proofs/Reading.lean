import Retarget.Text.Cursor

/-!
# What scanners read

A scanner that succeeds has moved its cursor over the characters it has read, and over nothing else.
For the primitive scanners this says all there is to say, so that a run of a scanner comes apart
into the runs of its parts; of a scanner that is made of many others it is enough to know that its
cursor stays in the text and that what it returns has some property.

## Key results

- `Scanner.bind_eq_some`: a run of one scanner after another
- `Scanner.loop_induction`: an invariant of a loop
- `Scanner.Yields`: what a scanner returns wherever it stands in a text
-/

namespace Retarget

/-- Whether reading some characters leads from one cursor to another. -/
def Cursor.Reads (cs : List Char) (cur cur' : Cursor) : Prop :=
  cur.rest = cs ++ cur'.rest ∧ cur'.pos = cur.pos + byteSize cs

namespace Cursor.Reads

variable {cur cur' cur'' : Cursor} {cs ds : List Char}

theorem refl (cur : Cursor) : Reads [] cur cur := ⟨rfl, rfl⟩

/-- What is read in two goes is read in one, with its sizes added up. -/
theorem trans (h : Reads cs cur cur') (h' : Reads ds cur' cur'') : Reads (cs ++ ds) cur cur'' := by
  refine ⟨?_, ?_⟩
  · rw [h.1, h'.1, List.append_assoc]
  · rw [h'.2, h.2, byteSize_append, Nat.add_assoc]

/-- What is read first is what the cursor has in front of it. -/
theorem head?_eq {c : Char} (h : Reads (c :: cs) cur cur') : cur.rest.head? = some c := by
  rw [h.1]
  rfl

/-- A cursor that has read nothing has not moved. -/
theorem eq_of_nil (h : Reads [] cur cur') : cur = cur' := by
  obtain ⟨rest, pos⟩ := cur
  obtain ⟨rest', pos'⟩ := cur'
  obtain ⟨hrest, hpos⟩ := h
  simp_all

end Cursor.Reads

namespace Scanner

open Cursor (Reads)

variable {α β σ : Type} {cur cur' : Cursor}

/-! ## Runs of scanners -/

/-- A run of one scanner after another passes through the cursor between them. -/
theorem bind_eq_some {p : Scanner α} {f : α → Scanner β} {b : β} :
    (p >>= f) cur = some (b, cur') ↔
      ∃ a next, p cur = some (a, next) ∧ f a next = some (b, cur') := by
  change (p cur).bind (fun r => f r.1 r.2) = some (b, cur') ↔ _
  rw [Option.bind_eq_some_iff, Prod.exists]

/-- A scanner that only returns something does not move the cursor. -/
theorem pure_eq_some {a b : α} :
    (pure a : Scanner α) cur = some (b, cur') ↔ a = b ∧ cur = cur' := by
  change some (a, cur) = some (b, cur') ↔ _
  simp

/-- A run of an alternative is one of either scanner. -/
theorem orElse_eq_some {p q : Scanner α} {a : α} (h : (p <|> q) cur = some (a, cur')) :
    p cur = some (a, cur') ∨ q cur = some (a, cur') := by
  change (p cur).orElse (fun _ => q cur) = _ at h
  cases hp : p cur with
  | none =>
    rw [hp] at h
    exact .inr h
  | some r =>
    rw [hp] at h
    exact .inl h

/-- Looking at the next character does not move the cursor. -/
theorem peek?_eq_some {o : Option Char} :
    peek? cur = some (o, cur') ↔ o = cur.rest.head? ∧ cur = cur' := by
  change some (cur.rest.head?, cur) = _ ↔ _
  simp [eq_comm]

/-- Counting what is left does not move the cursor. -/
theorem remaining_eq_some {n : Nat} :
    remaining cur = some (n, cur') ↔ n = cur.rest.length ∧ cur = cur' := by
  change some (cur.rest.length, cur) = _ ↔ _
  simp [eq_comm]

/-- Asking for the place does not move the cursor. -/
theorem offset_eq_some {n : Nat} : offset cur = some (n, cur') ↔ n = cur.pos ∧ cur = cur' := by
  change some (cur.pos, cur) = _ ↔ _
  simp [eq_comm]

/-- The next character is read whatever it is. -/
theorem next_eq_some {c : Char} : next cur = some (c, cur') ↔ Reads [c] cur cur' := by
  obtain ⟨rest, pos⟩ := cur
  obtain ⟨rest', pos'⟩ := cur'
  -- Only at the end of the text is there nothing to read.
  cases rest with
  | nil => exact ⟨nofun, nofun⟩
  | cons d rest =>
    change some (d, (⟨rest, pos + d.utf8Size⟩ : Cursor)) = _ ↔ _
    constructor
    · intro h
      cases h
      exact ⟨rfl, rfl⟩
    · rintro ⟨hrest, hpos⟩
      cases hrest
      obtain rfl : pos' = pos + c.utf8Size := hpos
      rfl

/-- A character of a class is read if it is the next one. -/
theorem satisfy_eq_some {p : Char → Bool} {c : Char} :
    satisfy p cur = some (c, cur') ↔ p c = true ∧ Reads [c] cur cur' := by
  rw [satisfy, bind_eq_some]
  constructor
  · rintro ⟨d, cur₁, hd, h⟩
    split at h
    · obtain ⟨rfl, rfl⟩ := pure_eq_some.mp h
      exact ⟨‹_›, next_eq_some.mp hd⟩
    · cases h
  · rintro ⟨hc, h⟩
    exact ⟨c, cur', next_eq_some.mpr h, by rw [if_pos hc]; rfl⟩

/-- A particular character is read if it is the next one. -/
theorem char_eq_some {c : Char} {u : Unit} : char c cur = some (u, cur') ↔ Reads [c] cur cur' := by
  rw [char, bind_eq_some]
  constructor
  · rintro ⟨d, cur₁, hd, h⟩
    obtain ⟨-, rfl⟩ := pure_eq_some.mp h
    obtain ⟨hd, h⟩ := satisfy_eq_some.mp hd
    obtain rfl : d = c := by simpa using hd
    exact h
  · exact fun h => ⟨c, cur', satisfy_eq_some.mpr ⟨by simp, h⟩, rfl⟩

/-- Particular characters are read if they are the next ones, in this order. -/
theorem literal_eq_some {cs : List Char} {u : Unit} :
    literal cs cur = some (u, cur') ↔ Reads cs cur cur' := by
  -- Induction on the characters wanted: each moves the cursor on by its own size.
  induction cs generalizing cur with
  | nil =>
    rw [literal, pure_eq_some]
    constructor
    · rintro ⟨-, rfl⟩
      exact .refl cur
    · exact fun h => ⟨rfl, h.eq_of_nil⟩
  | cons c cs ih =>
    rw [literal, bind_eq_some]
    simp only [char_eq_some, ih]
    constructor
    · rintro ⟨-, cur₁, h, hrest⟩
      exact h.trans hrest
    · rintro ⟨hrest, hpos⟩
      refine ⟨(), ⟨cs ++ cur'.rest, cur.pos + c.utf8Size⟩, ⟨hrest, rfl⟩, rfl, ?_⟩
      rw [hpos, byteSize_cons, Nat.add_assoc]

/-- A character that may be missing is read, or the cursor stays where it is. -/
theorem accept_eq_some {c : Char} {b : Bool} (h : accept c cur = some (b, cur')) :
    (b = true ∧ Reads [c] cur cur') ∨ (b = false ∧ cur = cur') := by
  obtain ⟨_, _, hget, h⟩ := bind_eq_some.mp h
  cases hget
  -- The character is there, or another is, or the text has ended.
  split at h
  · rename_i d cs pos
    split at h
    · rename_i hd
      obtain ⟨_, cur₁, hset, h⟩ := bind_eq_some.mp h
      cases hset
      obtain ⟨rfl, rfl⟩ := pure_eq_some.mp h
      exact .inl ⟨rfl, hd ▸ ⟨rfl, rfl⟩⟩
    · obtain ⟨rfl, rfl⟩ := pure_eq_some.mp h
      exact .inr ⟨rfl, rfl⟩
  · obtain ⟨rfl, rfl⟩ := pure_eq_some.mp h
    exact .inr ⟨rfl, rfl⟩

/-- A run of characters of a class consists of such characters. That it is the longest is not needed
    here. -/
theorem takeWhile_eq_some {p : Char → Bool} {cs : List Char}
    (h : takeWhile p cur = some (cs, cur')) : (∀ c ∈ cs, p c = true) ∧ Reads cs cur cur' := by
  cases h
  exact ⟨List.all_eq_true.mp List.all_takeWhile, List.takeWhile_append_dropWhile.symm, rfl⟩

/-- A run of characters that must not be empty consists of characters of its class. That it is not
    empty is not needed here. -/
theorem takeWhile1_eq_some {p : Char → Bool} {cs : List Char}
    (h : takeWhile1 p cur = some (cs, cur')) : (∀ c ∈ cs, p c = true) ∧ Reads cs cur cur' := by
  obtain ⟨ds, cur₁, hds, h⟩ := bind_eq_some.mp h
  split at h
  · cases h
  · obtain ⟨rfl, rfl⟩ := pure_eq_some.mp h
    exact takeWhile_eq_some hds

/-- The check for the end does not move the cursor. -/
theorem atEnd_eq_some {u : Unit} (h : atEnd cur = some (u, cur')) : cur = cur' := by
  obtain ⟨cur₁, cur₂, hget, h⟩ := bind_eq_some.mp h
  cases hget
  split at h
  · exact (pure_eq_some.mp h).2
  · cases h

/-- What each step of a loop preserves, and its last one turns into a property of the result. -/
theorem loop_induction {step : σ → Scanner (σ ⊕ β)} {I : σ → Cursor → Prop}
    {Q : β → Cursor → Prop}
    (hstep : ∀ s cur r cur', I s cur → step s cur = some (r, cur') →
      r.elim (I · cur') (Q · cur'))
    {fuel : Nat} {s : σ} {b : β} (hs : I s cur) (h : loop step fuel s cur = some (b, cur')) :
    Q b cur' := by
  -- Induction on the rounds that are left. A step that goes on keeps the invariant, and one that
  -- stops has the property of the result.
  induction fuel generalizing s cur with
  | zero => cases h
  | succ fuel ih =>
    rw [loop] at h
    obtain ⟨r, cur₁, hr, h⟩ := bind_eq_some.mp h
    have hnext := hstep s cur r cur₁ hs hr
    cases r with
    | inl s' => exact ih hnext h
    | inr result =>
      obtain ⟨rfl, rfl⟩ := pure_eq_some.mp h
      exact hnext

/-! ## Scanners in a text -/

/-- Whether a cursor is at some place of a text. -/
def In (doc : List Char) (cur : Cursor) : Prop := ∃ before, Reads before ⟨doc, 0⟩ cur

/-- A cursor that reads on stays in its text. -/
theorem In.reads {doc cs : List Char} (h : In doc cur) (hcs : Reads cs cur cur') : In doc cur' := by
  obtain ⟨before, hbefore⟩ := h
  exact ⟨before ++ cs, hbefore.trans hcs⟩

/-- Whether a scanner stays in a text and whatever it returns has a property. -/
def Yields (doc : List Char) (p : Scanner α) (P : α → Prop) : Prop :=
  ∀ cur a cur', In doc cur → p cur = some (a, cur') → In doc cur' ∧ P a

/-- Whether a scanner stays in a text. -/
def Stays (doc : List Char) (p : Scanner α) : Prop := Yields doc p fun _ => True

variable {doc : List Char} {P : α → Prop} {Q : β → Prop}

/-- A scanner that moves its cursor only by reading stays in every text. -/
theorem stays_of_reads {p : Scanner α}
    (h : ∀ cur a cur', p cur = some (a, cur') → ∃ cs, Reads cs cur cur') : Stays doc p := by
  intro cur a cur' hcur hp
  -- The place after the run is behind what was read before and during it.
  obtain ⟨cs, hcs⟩ := h cur a cur' hp
  exact ⟨hcur.reads hcs, trivial⟩

namespace Yields

theorem pure {a : α} (h : P a) : Yields doc (pure a) P := by
  intro cur b cur' hcur hrun
  obtain ⟨rfl, rfl⟩ := pure_eq_some.mp hrun
  exact ⟨hcur, h⟩

/-- A scanner that fails yields whatever one likes. -/
theorem failure : Yields doc (failure : Scanner α) P := nofun

/-- What the first scanner yields is what the second may rely on. -/
theorem bind {p : Scanner α} {f : α → Scanner β} (hp : Yields doc p P)
    (hf : ∀ a, P a → Yields doc (f a) Q) : Yields doc (p >>= f) Q := by
  intro cur b cur' hcur hrun
  obtain ⟨a, cur₁, ha, hb⟩ := bind_eq_some.mp hrun
  obtain ⟨hcur₁, hPa⟩ := hp _ _ _ hcur ha
  exact hf a hPa _ _ _ hcur₁ hb

/-- An alternative yields what both of its scanners yield. -/
theorem orElse {p q : Scanner α} (hp : Yields doc p P) (hq : Yields doc q P) :
    Yields doc (p <|> q) P := by
  intro cur a cur' hcur hrun
  rcases orElse_eq_some hrun with h | h
  · exact hp _ _ _ hcur h
  · exact hq _ _ _ hcur h

/-- A loop yields what its last step does if every step keeps an invariant. This is the induction
    over the rounds of the loop, in the form in which readers of documents use it. -/
theorem loop {step : σ → Scanner (σ ⊕ β)} {I : σ → Prop}
    (hstep : ∀ s, I s → Yields doc (step s) (Sum.elim I Q)) {fuel : Nat} {s : σ} (hs : I s) :
    Yields doc (loop step fuel s) Q := by
  intro cur b cur' hcur hrun
  -- The invariant says both that the cursor is in the text and what the state is.
  refine loop_induction (I := fun s cur => In doc cur ∧ I s) (Q := fun b cur => In doc cur ∧ Q b)
    (fun s cur r cur' h hr => ?_) ⟨hcur, hs⟩ hrun
  have hnext := hstep s h.2 _ _ _ h.1 hr
  cases r <;> exact hnext

end Yields

namespace Stays

/-- A scanner goes on from where one that stays in the text has stopped. -/
theorem bind {p : Scanner α} {f : α → Scanner β} (hp : Stays doc p)
    (hf : ∀ a, Yields doc (f a) Q) : Yields doc (p >>= f) Q :=
  Yields.bind hp fun a _ => hf a

/-- Returning something stays in the text. -/
theorem pure (a : α) : Stays doc (pure a : Scanner α) := Yields.pure trivial

/-- A loop stays in the text if its steps do. -/
theorem loop {step : σ → Scanner (σ ⊕ β)} (hstep : ∀ s, Stays doc (step s)) {fuel : Nat} {s : σ} :
    Stays doc (loop step fuel s) :=
  Yields.loop (I := fun _ => True) (fun s _ cur r cur' hcur hrun => by
    -- No state needs to be remembered, so the invariant says nothing.
    refine ⟨(hstep s cur r cur' hcur hrun).1, ?_⟩
    cases r <;> trivial) trivial

/-- Looking at the next character stays in the text. -/
theorem peek? : Stays doc peek? :=
  stays_of_reads fun cur _ _ h => ⟨[], (peek?_eq_some.mp h).2 ▸ .refl cur⟩

/-- Counting what is left stays in the text. -/
theorem remaining : Stays doc remaining :=
  stays_of_reads fun cur _ _ h => ⟨[], (remaining_eq_some.mp h).2 ▸ .refl cur⟩

/-- Reading a particular character stays in the text. -/
theorem char (c : Char) : Stays doc (char c) :=
  stays_of_reads fun _ _ _ h => ⟨[c], char_eq_some.mp h⟩

/-- Reading particular characters stays in the text. -/
theorem literal (cs : List Char) : Stays doc (literal cs) :=
  stays_of_reads fun _ _ _ h => ⟨cs, literal_eq_some.mp h⟩

/-- Reading a character that may be missing stays in the text. -/
theorem accept (c : Char) : Stays doc (accept c) :=
  stays_of_reads fun cur _ _ h => by
    rcases accept_eq_some h with ⟨-, h⟩ | ⟨-, rfl⟩
    · exact ⟨[c], h⟩
    · exact ⟨[], .refl cur⟩

/-- Reading a run of characters stays in the text. -/
theorem takeWhile (p : Char → Bool) : Stays doc (takeWhile p) :=
  stays_of_reads fun _ cs _ h => ⟨cs, (takeWhile_eq_some h).2⟩

/-- Reading a run that must not be empty stays in the text. -/
theorem takeWhile1 (p : Char → Bool) : Stays doc (takeWhile1 p) :=
  stays_of_reads fun _ cs _ h => ⟨cs, (takeWhile1_eq_some h).2⟩

/-- The check for the end stays in the text. -/
theorem atEnd : Stays doc atEnd :=
  stays_of_reads fun cur _ _ h => ⟨[], atEnd_eq_some h ▸ .refl cur⟩

end Stays

end Scanner

end Retarget

import Retarget.Text.Span

/-!
# Scanning a text

A `Cursor` is the unread part of a text with its byte offset, and a `Scanner` reads from it or
fails. Failure carries no reason: the formats read this way report none. An alternative starts
again where the failed one started.
-/

namespace Retarget

/-- The unread part of a text and the byte offset at which it starts. -/
structure Cursor where
  rest : List Char
  pos : Nat

/-- The cursor at the start of a text. -/
def Cursor.ofString (s : String) : Cursor := ⟨s.toList, 0⟩

/-- A reader that moves a cursor forward, or fails. -/
abbrev Scanner := StateT Cursor Option

namespace Scanner

/-- The byte offset of the cursor. -/
def offset : Scanner Nat := do
  return (← get).pos

/-- The number of unread characters, a bound on the steps that are left. -/
def remaining : Scanner Nat := do
  return (← get).rest.length

/-- The next character, which is not consumed. -/
def peek? : Scanner (Option Char) := do
  return (← get).rest.head?

/-- Consumes one character. -/
def next : Scanner Char := do
  match (← get) with
  | ⟨c :: cs, pos⟩ => set (Cursor.mk cs (pos + c.utf8Size)); return c
  | ⟨[], _⟩ => failure

/-- Consumes a character of a class. -/
def satisfy (p : Char → Bool) : Scanner Char := do
  let c ← next
  if p c then return c else failure

/-- Consumes a given character. -/
def char (c : Char) : Scanner Unit := do
  let _ ← satisfy (· = c)

/-- Consumes given characters. -/
def literal : List Char → Scanner Unit
  | [] => pure ()
  | c :: cs => do
    char c
    literal cs

/-- Consumes a given character if it comes next, and says whether it did. -/
def accept (c : Char) : Scanner Bool := do
  match (← get) with
  | ⟨d :: cs, pos⟩ =>
    if d = c then
      set (Cursor.mk cs (pos + d.utf8Size))
      return true
    else return false
  | ⟨[], _⟩ => return false

/-- Consumes the longest run of characters of a class. -/
def takeWhile (p : Char → Bool) : Scanner (List Char) := do
  let cur ← get
  let taken := cur.rest.takeWhile p
  set (Cursor.mk (cur.rest.dropWhile p) (cur.pos + byteSize taken))
  return taken

/-- Consumes the longest run of characters of a class, which must not be empty. -/
def takeWhile1 (p : Char → Bool) : Scanner (List Char) := do
  let taken ← takeWhile p
  if taken.isEmpty then failure else return taken

/-- Succeeds at the end of the text only. -/
def atEnd : Scanner Unit := do
  if (← get).rest.isEmpty then return () else failure

/-- Repeats a step until it yields a result, at most `fuel` times. -/
def loop {σ β : Type} (step : σ → Scanner (σ ⊕ β)) : (fuel : Nat) → σ → Scanner β
  | 0, _ => failure
  | fuel + 1, s => do
    match (← step s) with
    | .inl next => loop step fuel next
    | .inr result => return result

/-- Runs a scanner over a whole text. -/
def runAll {α : Type} (p : Scanner α) (s : String) : Option α :=
  match (do let a ← p; atEnd; return a : Scanner α) (Cursor.ofString s) with
  | some (a, _) => some a
  | none => none

end Scanner

end Retarget

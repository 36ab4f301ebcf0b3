/-!
# Byte spans

Positions in a text are counted in UTF-8 bytes. A `Span` is a half-open range of byte
offsets, and `Located` pairs a value with the range it was read from.

* `byteSize_append`   the bytes of a concatenation add up
* `Span.shift_shift`  two shifts compose
-/

namespace Retarget

/-- Number of bytes that the characters take in UTF-8. -/
def byteSize : List Char → Nat
  | [] => 0
  | c :: cs => c.utf8Size + byteSize cs

/-- No characters take no bytes. -/
@[simp] theorem byteSize_nil : byteSize [] = 0 := rfl

/-- A text takes the bytes of its first character and of the rest. -/
@[simp] theorem byteSize_cons (c : Char) (cs : List Char) :
    byteSize (c :: cs) = c.utf8Size + byteSize cs := rfl

/-- Two texts in a row take the bytes of both. -/
@[simp] theorem byteSize_append (xs ys : List Char) :
    byteSize (xs ++ ys) = byteSize xs + byteSize ys := by
  induction xs with
  | nil => simp
  | cons c cs ih => simp [ih, Nat.add_assoc]

/-- A half-open range of byte offsets into a text. -/
structure Span where
  start : Nat
  stop : Nat
deriving DecidableEq, Repr, Inhabited

namespace Span

/-- Moves both ends by `offset`, for a text that stands inside a larger one. -/
def shift (s : Span) (offset : Nat) : Span :=
  ⟨s.start + offset, s.stop + offset⟩

/-- Moving twice is moving once by both distances. -/
@[simp] theorem shift_shift (s : Span) (m n : Nat) : (s.shift m).shift n = s.shift (m + n) := by
  simp [shift, Nat.add_assoc]

end Span

/-- A value together with the range of text it was read from. -/
structure Located (α : Type) where
  value : α
  span : Span
deriving DecidableEq, Repr, Inhabited

end Retarget

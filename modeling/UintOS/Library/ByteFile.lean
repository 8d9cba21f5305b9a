import Mathlib.Tactic

/-!
# A file as an array with a cursor

`overwrite` replaces the elements from a position on and fills a gap between the end of the
array and that position. A `Cursor` is an array and a position in it, which reading and
writing move on. `splice` is the overwriting of a block of fixed length.
-/

namespace ByteFile

open List

variable {α : Type*} {content : List α} {pos : ℕ} (fill : α)

def overwrite (content : List α) (pos : ℕ) (xs : List α) : List α :=
  (content ++ List.replicate (pos - content.length) fill).take pos ++ xs ++
    content.drop (pos + xs.length)

/-- A block with `xs` copied to `pos`; `none` if it would not fit. -/
def splice (block : List α) (pos : ℕ) (xs : List α) : Option (List α) :=
  if pos + xs.length ≤ block.length then
    some (block.take pos ++ xs ++ block.drop (pos + xs.length))
  else none

/-- The `n` elements from `pos` on; `none` if there are fewer. -/
def slice (block : List α) (pos n : ℕ) : Option (List α) :=
  if pos + n ≤ block.length then some ((block.drop pos).take n) else none

structure Cursor (α : Type*) where
  content : List α
  position : ℕ
deriving DecidableEq

namespace Cursor

def peek (c : Cursor α) (n : ℕ) : List α := (c.content.drop c.position).take n

def advance (c : Cursor α) (n : ℕ) : Cursor α :=
  { c with position := c.position + (c.peek n).length }

/-- Writing replaces the elements at the cursor, or extends the array. -/
def write (atEnd : Bool) (c : Cursor α) (xs : List α) : Cursor α :=
  let pos := if atEnd then c.content.length else c.position
  { content := overwrite fill c.content pos xs, position := pos + xs.length }

end Cursor

/-! ## Overwriting -/

theorem overwrite_of_le (h : pos ≤ content.length) (xs : List α) :
    overwrite fill content pos xs = content.take pos ++ xs ++ content.drop (pos + xs.length) := by
  unfold overwrite
  rw [Nat.sub_eq_zero_of_le h, replicate_zero, append_nil]

theorem length_overwrite (h : pos ≤ content.length) (xs : List α) :
    (overwrite fill content pos xs).length = max (pos + xs.length) content.length := by
  rw [overwrite_of_le fill h]
  simp
  omega

theorem overwrite_zero (content xs : List α) :
    overwrite fill content 0 xs = xs ++ content.drop xs.length := by
  simp [overwrite]

/-- The content in a longer block, with `xs` copied into it, up to the end of both. -/
theorem splice_eq_overwrite (h : pos ≤ content.length)
    {block : List α} {xs : List α} (hblock : block.length = max (pos + xs.length) content.length) :
    splice (content ++ block.drop content.length) pos xs =
      some (overwrite fill content pos xs) := by
  have hlen : (content ++ block.drop content.length).length =
      max (pos + xs.length) content.length := by
    simp
    omega
  unfold splice
  rw [if_pos (by omega), overwrite_of_le fill h, take_append_of_le_length h]
  rw [drop_append]
  rw [drop_drop, drop_eq_nil_of_le (by omega : block.length ≤ _), append_nil]

end ByteFile

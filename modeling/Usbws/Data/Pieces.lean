import Mathlib.Data.Nat.Basic
import Mathlib.Data.List.Basic

/-!
# Messages in pieces

A message is cut into pieces of `n` elements, the last of which may be shorter.  An empty message is
one empty piece, so the receiver is told of it.

* `numPieces`, `piece`, `pieces` : the pieces of a message.
* `lt_numPieces_iff` : which pieces there are.
* `take_pieces_succ` : the pieces are cut off one by one.
-/

namespace Usbws

namespace Pieces

variable {α : Type*}

/-- The number of pieces of a message of length `len`. -/
def numPieces (n len : ℕ) : ℕ := (len - 1) / n + 1

/-- The piece with the number `i`. -/
def piece (n : ℕ) (message : List α) (i : ℕ) : List α := (message.drop (n * i)).take n

/-- The pieces of a message. -/
def pieces (n : ℕ) (message : List α) : List (List α) :=
  (List.range (numPieces n message.length)).map (piece n message)

variable {n len i : ℕ} {message : List α}

theorem lt_numPieces_iff (hn : 0 < n) : i < numPieces n len ↔ i = 0 ∨ n * i < len := by
  rw [numPieces, Nat.lt_succ_iff, Nat.le_div_iff_mul_le hn, Nat.mul_comm]
  cases i with
  | zero => simp
  | succ i =>
    have : 0 < n * (i + 1) := Nat.mul_pos hn i.succ_pos
    omega

/-- Behind the last piece nothing is left. -/
theorem eq_numPieces (hn : 0 < n) (hi : i < numPieces n len) (h : len ≤ n * (i + 1)) :
    i + 1 = numPieces n len := by
  have hnot : ¬ i + 1 < numPieces n len := by
    rw [lt_numPieces_iff hn]
    omega
  omega

theorem length_pieces : (pieces n message).length = numPieces n message.length := by
  simp [pieces]

/-- The next piece is cut off. -/
theorem take_pieces_succ (hi : i < numPieces n message.length) :
    (pieces n message).take (i + 1) = (pieces n message).take i ++ [piece n message i] := by
  rw [List.take_add_one, List.getElem?_eq_getElem (by rwa [length_pieces])]
  simp [pieces]

theorem take_pieces_of_le (h : numPieces n message.length ≤ i) :
    (pieces n message).take i = pieces n message :=
  List.take_of_length_le (by rwa [length_pieces])

end Pieces

end Usbws

import Mathlib.Data.List.Basic

/-!
# Ways through directories

A directory or a file is known by the way to it, the innermost name first; the root directory is
its own upper one.  A relative name is a list of moves that can start from any directory.

* `Path.walk` : where some moves lead.
* `Path.climbs` : how far they lead up.
* `Path.walk_eq_append` : of the directory they start from, the innermost `climbs` names are lost.
* `Path.walk_eq_walk_nil_iff` : when they lead from a directory to where they lead from the root.
-/

namespace Usbws

/-- The way to a file or a directory from the root directory, the innermost name first. -/
abbrev Path (α : Type*) := List α

namespace Path

variable {α : Type*}

/-- One move of a name. -/
inductive Move (α : Type*) where
  | stay
  | up
  | down (name : α)
  deriving DecidableEq, Repr

/-- Make a move. -/
def go (p : Path α) : Move α → Path α
  | .stay => p
  | .up => p.tail
  | .down name => name :: p

/-- Make some moves. -/
def walk (p : Path α) (moves : List (Move α)) : Path α := moves.foldl go p

/-- How many levels some moves lead up from `d` levels below a directory. -/
def climbs : ℕ → List (Move α) → ℕ
  | _, [] => 0
  | d, .stay :: moves => climbs d moves
  | 0, .up :: moves => climbs 0 moves + 1
  | d + 1, .up :: moves => climbs d moves
  | d, .down _ :: moves => climbs (d + 1) moves

/-- What lies below the directory is moved through as if it were below the root directory. -/
theorem walk_append (below p : Path α) (moves : List (Move α)) :
    walk (below ++ p) moves = walk below moves ++ p.drop (climbs below.length moves) := by
  induction moves generalizing below p with
  | nil => simp [walk, climbs]
  | cons m moves ih =>
    cases m with
    | stay => exact ih below p
    | up =>
      cases below with
      | nil =>
        have htail := ih [] p.tail
        rw [List.drop_tail] at htail
        exact htail
      | cons name below => exact ih below p
    | down name => exact ih (name :: below) p

theorem walk_eq_append (p : Path α) (moves : List (Move α)) :
    walk p moves = walk [] moves ++ p.drop (climbs 0 moves) := walk_append [] p moves

theorem walk_eq_walk_nil_iff {p : Path α} {moves : List (Move α)} :
    walk p moves = walk [] moves ↔ p.length ≤ climbs 0 moves := by
  rw [walk_eq_append, List.append_right_eq_self, List.drop_eq_nil_iff]

end Path

end Usbws

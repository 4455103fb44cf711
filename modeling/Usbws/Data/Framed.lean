import Mathlib.Algebra.BigOperators.Group.List.Basic
import Mathlib.Algebra.Ring.Nat
import Mathlib.Data.List.Basic

/-!
# Framed streams

A byte stream that arrives in frames is read through a queue of frames and a read position in
the first of them.  This file relates the queue to the stream it stands for, and the frame
boundaries to the end of a request for `len` elements.

* `unread off q` : the part of the stream still to be read.
* `remainders off q` : how many elements of each queued frame are still to be read.
* `Straddles len p rs` : when `p` elements of a request for `len` are served and the pieces `rs`
  follow, one of them begins strictly inside of the request and ends behind it.
-/

namespace Usbws

namespace Framed

variable {α : Type*}

/-- What is still to be read when `off` elements of the first frame have been read. -/
def unread (off : ℕ) : List (List α) → List α
  | [] => []
  | f :: q => f.drop off ++ q.flatten

/-- The sizes of what is left of the queued frames. -/
def remainders (off : ℕ) : List (List α) → List ℕ
  | [] => []
  | f :: q => (f.length - off) :: q.map List.length

/-- One of the pieces `rs`, laid end to end from position `p` on, begins strictly inside of a
request for `len` elements and ends behind it. -/
def Straddles (len : ℕ) : ℕ → List ℕ → Prop
  | _, [] => False
  | p, r :: rs => (0 < p ∧ p < len ∧ len < p + r) ∨ Straddles len (p + r) rs

instance decidableStraddles (len : ℕ) : ∀ p rs, Decidable (Straddles len p rs)
  | _, [] => inferInstanceAs (Decidable False)
  | p, r :: rs =>
    have := decidableStraddles len (p + r) rs
    inferInstanceAs (Decidable ((0 < p ∧ p < len ∧ len < p + r) ∨ Straddles len (p + r) rs))

@[simp] theorem unread_zero (q : List (List α)) : unread 0 q = q.flatten := by
  cases q <;> simp [unread]

theorem unread_cons (off : ℕ) (f : List α) (q : List (List α)) :
    unread off (f :: q) = f.drop off ++ q.flatten := rfl

/-- New frames go to the end of the stream. -/
theorem unread_append {off : ℕ} {q : List (List α)} (h : q = [] → off = 0) (q' : List (List α)) :
    unread off (q ++ q') = unread off q ++ q'.flatten := by
  cases q with
  | nil => simp [h rfl]
  | cons f q => simp [unread]

@[simp] theorem remainders_zero (q : List (List α)) : remainders 0 q = q.map List.length := by
  cases q <;> simp [remainders]

/-! ### Straddling -/

variable {len p : ℕ}

@[simp] theorem not_straddles_nil : ¬ Straddles len p [] := id

theorem straddles_cons {r : ℕ} {rs : List ℕ} :
    Straddles len p (r :: rs) ↔ (0 < p ∧ p < len ∧ len < p + r) ∨ Straddles len (p + r) rs :=
  Iff.rfl

/-- The straddling piece, given with the pieces around it. -/
theorem straddles_iff {rs : List ℕ} : Straddles len p rs ↔ ∃ xs r ys, rs = xs ++ r :: ys ∧
    0 < p + xs.sum ∧ p + xs.sum < len ∧ len < p + xs.sum + r := by
  induction rs generalizing p with
  | nil => simp
  | cons r rs ih =>
    rw [straddles_cons, ih]
    constructor
    · rintro (h | ⟨xs, r', ys, rfl, h⟩)
      · exact ⟨[], r, rs, rfl, by simpa using h⟩
      · exact ⟨r :: xs, r', ys, rfl, by simpa [← Nat.add_assoc] using h⟩
    · rintro ⟨xs, r', ys, he, h⟩
      cases xs with
      | nil =>
        obtain ⟨rfl, rfl⟩ := List.cons.inj he
        exact .inl (by simpa using h)
      | cons x xs =>
        obtain ⟨rfl, rfl⟩ := List.cons.inj he
        exact .inr ⟨xs, r', ys, rfl, by simpa [← Nat.add_assoc] using h⟩

theorem straddles_append {rs rs' : List ℕ} :
    Straddles len p (rs ++ rs') ↔ Straddles len p rs ∨ Straddles len (p + rs.sum) rs' := by
  induction rs generalizing p with
  | nil => simp
  | cons r rs ih => simp only [List.cons_append, straddles_cons, ih, List.sum_cons, or_assoc,
      Nat.add_assoc]

/-- Behind the end of a request nothing straddles it. -/
theorem not_straddles_of_le {rs : List ℕ} (h : len ≤ p) : ¬ Straddles len p rs := by
  rw [straddles_iff]
  rintro ⟨xs, r, ys, -, -, hlt, -⟩
  omega

/-- A request for as much as there is is not straddled. -/
theorem not_straddles_of_sum_le {rs : List ℕ} (h : p + rs.sum ≤ len) : ¬ Straddles len p rs := by
  rw [straddles_iff]
  rintro ⟨xs, r, ys, rfl, -, -, hlt⟩
  simp only [List.sum_append, List.sum_cons] at h
  omega

end Framed

end Usbws

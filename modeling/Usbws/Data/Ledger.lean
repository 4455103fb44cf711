import Mathlib.Data.List.Range

/-!
# Allocation ledgers

A ledger records what was allocated and what was freed, so that a block freed twice and one never
freed can be told from one freed once.  The block `b` is the `b`-th one allocated.

* `Ledger` : the sizes of the blocks allocated and the blocks freed, with `alloc` and `free`.
* `Ledger.Live` : a block is allocated and not freed.
* `Ledger.Balanced` : every block allocated is freed exactly once, and nothing else is.
* `Ledger.Accounts` : every block allocated is either owned or freed, once in all.  It is kept by
  allocating for the owner and by freeing what is owned, and an owner of nothing leaves a balanced
  ledger (`Ledger.accounts_nil`).
-/

namespace Usbws

/-- The history of an allocator. -/
structure Ledger where
  /-- The sizes of the blocks allocated, oldest first. -/
  sizes : List ℕ
  /-- The blocks freed, newest first. -/
  frees : List ℕ
  deriving DecidableEq, Repr

namespace Ledger

/-- Nothing has been allocated. -/
def empty : Ledger := ⟨[], []⟩

/-- The block that the next allocation gives. -/
def fresh (L : Ledger) : ℕ := L.sizes.length

/-- Allocate a block of `n` bytes. -/
def alloc (L : Ledger) (n : ℕ) : Ledger := { L with sizes := L.sizes ++ [n] }

/-- The size of a block, and 0 for a block that has not been allocated. -/
def size (L : Ledger) (b : ℕ) : ℕ := L.sizes.getD b 0

/-- Free a block. -/
def free (L : Ledger) (b : ℕ) : Ledger := { L with frees := b :: L.frees }

/-- The block is allocated and has not been freed. -/
def Live (L : Ledger) (b : ℕ) : Prop := b < L.fresh ∧ b ∉ L.frees

/-- Every block allocated has been freed exactly once, and nothing else has. -/
def Balanced (L : Ledger) : Prop := L.frees.Perm (List.range L.fresh)

/-- Every block allocated is owned or freed, and only once in all. -/
def Accounts (L : Ledger) (own : List ℕ) : Prop := (own ++ L.frees).Perm (List.range L.fresh)

instance (L : Ledger) (b : ℕ) : Decidable (L.Live b) :=
  inferInstanceAs (Decidable (_ ∧ _))

instance (L : Ledger) : Decidable L.Balanced :=
  inferInstanceAs (Decidable (L.frees.Perm _))

@[simp] theorem fresh_alloc (L : Ledger) (n : ℕ) : (L.alloc n).fresh = L.fresh + 1 := by
  simp [fresh, alloc]

@[simp] theorem frees_alloc (L : Ledger) (n : ℕ) : (L.alloc n).frees = L.frees := rfl

@[simp] theorem fresh_free (L : Ledger) (b : ℕ) : (L.free b).fresh = L.fresh := rfl

@[simp] theorem size_free (L : Ledger) (b c : ℕ) : (L.free b).size c = L.size c := rfl

@[simp] theorem size_alloc_fresh (L : Ledger) (n : ℕ) : (L.alloc n).size L.fresh = n := by
  simp [size, alloc, fresh]

/-- An allocation does not resize the blocks there are. -/
theorem size_alloc_of_lt {L : Ledger} {b : ℕ} (h : b < L.fresh) (n : ℕ) :
    (L.alloc n).size b = L.size b := by
  simp [size, alloc, List.getElem?_append_left h]

@[simp] theorem frees_free (L : Ledger) (b : ℕ) : (L.free b).frees = b :: L.frees := rfl

variable {L : Ledger} {own own' : List ℕ} {b : ℕ}

/-! ### Balanced ledgers -/

/-- In a balanced ledger no block is live. -/
theorem Balanced.not_live (h : L.Balanced) (b : ℕ) : ¬ L.Live b := fun hl =>
  hl.2 (h.mem_iff.2 (List.mem_range.2 hl.1))

/-! ### Accounts -/

theorem accounts_empty : empty.Accounts [] := .refl _

theorem accounts_nil : L.Accounts [] ↔ L.Balanced := Iff.rfl

theorem Accounts.perm (h : L.Accounts own) (hp : own.Perm own') : L.Accounts own' :=
  (hp.symm.append_right _).trans h

/-- The owner of a ledger's blocks allocates one. -/
theorem Accounts.alloc (h : L.Accounts own) (n : ℕ) : (L.alloc n).Accounts (L.fresh :: own) := by
  have hr : List.range (L.alloc n).fresh = List.range L.fresh ++ [L.fresh] := by
    rw [fresh_alloc, List.range_succ]
  unfold Accounts
  rw [hr, List.cons_append]
  exact (h.cons _).trans (List.perm_append_singleton _ _).symm

/-- The owner frees one of its blocks. -/
theorem Accounts.free (h : L.Accounts (b :: own)) : (L.free b).Accounts own :=
  List.perm_middle.trans h

/-- A block that is owned is live, and conversely. -/
theorem Accounts.live_iff (h : L.Accounts own) : L.Live b ↔ b ∈ own := by
  have hmem : b ∈ own ++ L.frees ↔ b < L.fresh := h.mem_iff.trans List.mem_range
  have hdisj := (List.nodup_append.1 (h.nodup_iff.2 List.nodup_range)).2.2
  constructor
  · rintro ⟨hlt, hnf⟩
    exact (List.mem_append.1 (hmem.2 hlt)).resolve_right hnf
  · intro hb
    exact ⟨hmem.1 (List.mem_append_left _ hb), fun hf => hdisj b hb b hf rfl⟩

/-- No block is owned twice. -/
theorem Accounts.nodup (h : L.Accounts own) : own.Nodup :=
  (List.nodup_append.1 (h.nodup_iff.2 List.nodup_range)).1

/-- No block has been freed twice. -/
theorem Accounts.nodup_frees (h : L.Accounts own) : L.frees.Nodup :=
  (List.nodup_append.1 (h.nodup_iff.2 List.nodup_range)).2.1

/-- The blocks owned and freed are as many as those allocated. -/
theorem Accounts.length (h : L.Accounts own) : own.length + L.frees.length = L.fresh := by
  have := List.Perm.length_eq h
  rwa [List.length_append, List.length_range] at this

/-- A ledger is balanced exactly when nothing is owned. -/
theorem Accounts.balanced_iff (h : L.Accounts own) : L.Balanced ↔ own = [] := by
  constructor
  · intro hb
    by_contra hn
    obtain ⟨b, hmem⟩ := List.exists_mem_of_ne_nil own hn
    exact hb.not_live b (h.live_iff.2 hmem)
  · rintro rfl
    exact accounts_nil.1 h

end Ledger

end Usbws

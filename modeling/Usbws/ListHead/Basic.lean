import Usbws.Data.Linked

/-!
# The lists of `usbws_util.h`

A `struct list_head` is a node with two links, given here by its address; a list is a head node in a
ring with the nodes of its elements.  An access to an invalid node makes the whole operation fail.

Each operation is given with what it does to a ring, wherever the ring lies and however its
neighbours coincide: it succeeds, and it leaves every other node alone.
-/

namespace Usbws

namespace ListHead

open Linked

variable {α : Type*} [DecidableEq α]

/-! ### The operations -/

/-- `INIT_LIST_HEAD`. -/
def initListHead (h : Heap α) (list : α) : Option (Heap α) := do
  let h ← setNext h list list
  setPrev h list list

/-- `__list_add`. -/
def listAdd (h : Heap α) (neo prev next : α) : Option (Heap α) := do
  let h ← setPrev h next neo
  let h ← setNext h neo next
  let h ← setPrev h neo prev
  setNext h prev neo

/-- `list_add_tail`. -/
def listAddTail (h : Heap α) (neo head : α) : Option (Heap α) := do
  let p ← prev h head
  listAdd h neo p head

/-- `__list_del`. -/
def listUnlink (h : Heap α) (prev next : α) : Option (Heap α) := do
  let h ← setPrev h next prev
  setNext h prev next

/-- `list_del`. -/
def listDel (h : Heap α) (entry : α) : Option (Heap α) := do
  let p ← prev h entry
  let n ← next h entry
  listUnlink h p n

/-- `list_empty`. -/
def listEmpty (h : Heap α) (head : α) : Option Bool := (next h head).map fun n => decide (n = head)

variable {h : Heap α} {head neo p : α} {xs pre post : List α}

/-! ### What they do -/

/-- `INIT_LIST_HEAD` makes an empty list. -/
theorem initListHead_spec (hv : (h head).isSome = true) :
    ∃ h', initListHead h head = some h' ∧ Circular h' head [] ∧ Untouched [head] h h' := by
  obtain ⟨h₁, he₁, hn₁, hne₁, hp₁⟩ := @setNext_spec α h head head _ hv
  obtain ⟨h₂, he₂, hp₂, hne₂, hn₂⟩ := @setPrev_spec α h₁ head head _ (isSome_of_next hn₁)
  refine ⟨h₂, by simp [initListHead, he₁, he₂], ⟨List.nodup_singleton head, ?_⟩, ?_⟩
  · exact List.isChain_pair.2 ⟨by rw [hn₂, hn₁], hp₂⟩
  · intro x hx
    have hx : x ≠ head := by simpa using hx
    exact eq_of_next_prev (by rw [hn₂, hne₁ x hx]) (by rw [hne₂ x hx, hp₁])

theorem listAdd_eq (prev next : α) :
    listAdd h neo prev next = (join h neo next).bind fun h => join h prev neo := by
  unfold join
  rw [Option.bind_assoc]
  rfl

/-- `__list_add` puts a node between two others. -/
theorem listAdd_spec (hr : Circular h head (pre ++ post)) (hn : neo ∉ head :: (pre ++ post))
    (hv : (h neo).isSome = true) :
    ∃ h', listAdd h neo (before head pre) (behind head post) = some h' ∧
      Circular h' head (pre ++ neo :: post) ∧ Untouched (neo :: head :: (pre ++ post)) h h' := by
  have hbef : before head pre ∈ head :: (pre ++ post) := before_mem_append
  have hbeh : behind head post ∈ head :: (pre ++ post) := behind_mem_append
  obtain ⟨h₁, he₁, hs₁⟩ := exists_join hv (hr.isSome hbeh)
  obtain ⟨h₂, he₂, hs₂⟩ := exists_join (hs₁.isSome (hr.isSome hbef)) (hs₁.isSome hv)
  refine ⟨h₂, ?_, hr.insert hn hs₁ hs₂, ?_⟩
  · rw [listAdd_eq, he₁, Option.bind_some, he₂]
  · have hu₁ : Untouched (neo :: head :: (pre ++ post)) h h₁ :=
      hs₁.untouched List.mem_cons_self (List.mem_cons_of_mem neo hbeh)
    exact hu₁.trans (hs₂.untouched (List.mem_cons_of_mem neo hbef) List.mem_cons_self)

/-- `list_add_tail` appends a node. -/
theorem listAddTail_spec (hr : Circular h head xs) (hn : neo ∉ head :: xs)
    (hv : (h neo).isSome = true) :
    ∃ h', listAddTail h neo head = some h' ∧ Circular h' head (xs ++ [neo]) ∧
      Untouched (neo :: head :: xs) h h' := by
  have hadd := @listAdd_spec α _ h head neo xs []
  simp only [List.append_nil] at hadd
  obtain ⟨h', he, hr', hu⟩ := hadd hr hn hv
  refine ⟨h', ?_, hr', hu⟩
  simp only [listAddTail, hr.prev_head]
  exact he

/-- `list_del` removes a node. -/
theorem listDel_spec (hr : Circular h head (pre ++ p :: post)) :
    ∃ h', listDel h p = some h' ∧ Circular h' head (pre ++ post) ∧
      Untouched (head :: (pre ++ post)) h h' := by
  have hbef : before head pre ∈ head :: (pre ++ post) := before_mem_append
  have hbeh : behind head post ∈ head :: (pre ++ post) := behind_mem_append
  obtain ⟨h', he, hs⟩ :=
    exists_join (hr.isSome (sublist_insert.subset hbef)) (hr.isSome (sublist_insert.subset hbeh))
  refine ⟨h', ?_, hr.remove hs, hs.untouched hbef hbeh⟩
  simp only [listDel, hr.prev_eq, hr.next_eq]
  exact he

/-- `list_empty` says whether the list is empty. -/
theorem listEmpty_spec (hr : Circular h head xs) : listEmpty h head = some xs.isEmpty := by
  unfold listEmpty
  rw [hr.next_head, Option.map_some]
  cases xs with
  | nil => simp [behind]
  | cons x xs =>
    have hne : x ≠ head := fun he => (List.nodup_cons.1 hr.nodup).1 (by simp [he])
    simp [behind, hne]

end ListHead

end Usbws

import Usbws.ListHead.Traverse
import Usbws.Lts.Basic
import Usbws.Session.Callback

/-!
# The receive queue in memory

`recv_queue` is a list of `struct usbws_recv_buf` nodes with their frames.  `usbws_handle_recv`
appends a node that it has allocated, `usbws_recv` deletes and frees the nodes it has used up while
it traverses the list, and `usbws_session_close` deletes all of them.

* `QueueMem` : the memory, with the list code of the three functions.
* `QueueMem.Represents` : the memory holds the queue of a `Session`.
* `QueueMem.refines` : every run of the list code is one of the sessions, and it never fails.
-/

namespace Usbws

open Linked ListHead

/-- The memory behind `recv_queue`. -/
structure QueueMem (α : Type*) where
  /-- The links of the nodes. -/
  heap : Heap α
  /-- `recv_buf->buf`, of `recv_buf->len` bytes. -/
  buf : α → Bytes
  /-- `recv_offset`. -/
  off : ℕ

namespace QueueMem

variable {α : Type*} [DecidableEq α]

/-! ### The list code -/

/-- The list code of `usbws_handle_recv` : the block `neo`, with arbitrary links, is filled and
appended. -/
def handleRecv (head : α) (m : QueueMem α) (neo : α) (garbage : Link α) (frame : Bytes) :
    Option (QueueMem α) :=
  (listAddTail (Function.update m.heap neo (some garbage)) neo head).map fun h =>
    { m with heap := h, buf := Function.update m.buf neo frame }

/-- `list_del(p)` and `free(p)`. -/
def listDelFree (h : Heap α) (p : α) : Option (Heap α) :=
  (listDel h p).map fun h => Function.update h p none

/-- The body of the loop in `usbws_recv`. -/
def recvBody (buf : α → Bytes) (p : α) (h : Heap α) (s : ℕ × RecvCall) :
    Option (Heap α × (ℕ × RecvCall) × Bool) :=
  match h p, s with
  -- `recv_buf->len` of an invalid node
  | none, _ => none
  | some _, (off, c) =>
    if (buf p).length ≤ off then (listDelFree h p).map fun h => (h, (0, c), false)
    else
      let bytes := c.chunk ((buf p).length - off)
      let c := c.copyFrom (buf p) bytes
      let off := off + bytes
      if (buf p).length ≤ off then
        (listDelFree h p).map fun h => (h, (0, c), decide (c.len ≤ c.total))
      else some (h, (off, c), decide (c.len ≤ c.total))

/-- The traversal in `usbws_recv`. -/
def recv (head : α) (fuel : ℕ) (m : QueueMem α) (c : RecvCall) : Option (QueueMem α × RecvCall) :=
  (forEachSafe (recvBody m.buf) head fuel m.heap (m.off, c)).map fun r =>
    ({ m with heap := r.1, off := r.2.1 }, r.2.2)

/-- The body of the loop in `usbws_session_close`. -/
def closeBody (p : α) (h : Heap α) (_ : Unit) : Option (Heap α × Unit × Bool) :=
  (listDel h p).map fun h => (h, (), false)

/-- The traversal in `usbws_session_close`. -/
def close (head : α) (fuel : ℕ) (m : QueueMem α) : Option (QueueMem α) :=
  (forEachSafe closeBody head fuel m.heap ()).map fun r => { m with heap := r.1 }

/-- The memory holds the queue of the session and its read position. -/
def Represents (head : α) (m : QueueMem α) (s : Session) : Prop :=
  ∃ xs, Circular m.heap head xs ∧ xs.map m.buf = s.recvQueue ∧ m.off = s.recvOffset

variable {head neo p : α} {m m' : QueueMem α} {s : Session} {xs : List α} {buf : α → Bytes}
  {c c' : RecvCall} {off fuel : ℕ}

/-! ### What it does to the queue -/

/-- What the body of the loop in `usbws_recv` does. -/
def recvTurn (buf : α → Bytes) (p : α) (s : ℕ × RecvCall) : Turn (ℕ × RecvCall) :=
  if (buf p).length ≤ s.1 then ⟨true, false, (0, s.2)⟩
  else
    let bytes := s.2.chunk ((buf p).length - s.1)
    let c := s.2.copyFrom (buf p) bytes
    let off := s.1 + bytes
    if (buf p).length ≤ off then ⟨true, decide (c.len ≤ c.total), (0, c)⟩
    else ⟨false, decide (c.len ≤ c.total), (off, c)⟩

theorem recvBody_acts : Acts (recvBody buf) (recvTurn buf) where
  keep p h s hv hd := by
    obtain ⟨k, hk⟩ := Option.isSome_iff_exists.1 hv
    obtain ⟨off, c⟩ := s
    simp only [recvTurn, recvBody, hk] at hd ⊢
    split_ifs at hd ⊢
    rfl
  delete p h h' s hv hd he := by
    obtain ⟨k, hk⟩ := Option.isSome_iff_exists.1 hv
    obtain ⟨off, c⟩ := s
    refine ⟨none, ?_⟩
    simp only [recvTurn, recvBody, hk, listDelFree, he, Option.map_some] at hd ⊢
    split_ifs at hd ⊢
    · rfl
    · rfl

omit [DecidableEq α] in
/-- The traversal of the nodes is the one of their frames. -/
theorem sweep_recvTurn :
    (sweep (recvTurn buf) xs (off, c)).1.map buf = (c.traverse (xs.map buf) off).1 ∧
      (sweep (recvTurn buf) xs (off, c)).2 = (c.traverse (xs.map buf) off).2 := by
  induction xs generalizing off c with
  | nil => exact ⟨rfl, rfl⟩
  | cons p xs ih =>
    rw [List.map_cons]
    obtain h | h | ⟨h, hr, hl⟩ | ⟨h, hl⟩ := RecvCall.frame_cases c (buf p) off
    · have ht : recvTurn buf p (off, c) = ⟨true, false, (0, c)⟩ := if_pos h
      rw [RecvCall.traverse_skip h, sweep_of_next (by rw [ht]), ht]
      exact ih
    · have ht : recvTurn buf p (off, c) =
          ⟨false, true, (off + c.len, c.copyFrom (buf p) c.len)⟩ := by
        have hc := RecvCall.chunk_part h
        simp [recvTurn, hc, show ¬ (buf p).length ≤ off by omega,
          show ¬ (buf p).length ≤ off + c.len by omega]
      rw [RecvCall.traverse_part h, sweep_of_stop (by rw [ht]), ht]
      exact ⟨rfl, rfl⟩
    · have hc := RecvCall.chunk_rest hr
      have ht : recvTurn buf p (off, c) =
          ⟨true, true, (0, c.copyFrom (buf p) ((buf p).length - off))⟩ := by
        simp [recvTurn, hc, hl, show ¬ (buf p).length ≤ off by omega,
          show (buf p).length ≤ off + ((buf p).length - off) by omega]
      rw [RecvCall.traverse_last h hr hl, sweep_of_stop (by rw [ht]), ht]
      exact ⟨rfl, rfl⟩
    · have hc := @RecvCall.chunk_rest c (buf p) off (by omega)
      have ht : recvTurn buf p (off, c) =
          ⟨true, false, (0, c.copyFrom (buf p) ((buf p).length - off))⟩ := by
        simp [recvTurn, hc, show ¬ (buf p).length ≤ off by omega,
          show (buf p).length ≤ off + ((buf p).length - off) by omega,
          show ¬ c.len ≤ c.total + ((buf p).length - off) by omega]
      rw [RecvCall.traverse_next h hl, sweep_of_next (by rw [ht]), ht]
      exact ih

omit [DecidableEq α] in
theorem sweep_close : sweep (fun (_ : α) (_ : Unit) => ⟨true, false, ()⟩) xs () = ([], ()) := by
  induction xs with
  | nil => rfl
  | cons p xs ih =>
    rw [sweep_of_next rfl]
    exact ih

theorem closeBody_acts :
    Acts (closeBody : α → _) fun (_ : α) (_ : Unit) => ⟨true, false, ()⟩ where
  keep _ _ _ _ hd := by cases hd
  delete p h h' _ _ _ he := ⟨h' p, by simp [closeBody, he]⟩

/-- `usbws_handle_recv` appends its frame. -/
theorem handleRecv_represents (hr : Represents head m s) (hn : m.heap neo = none)
    (garbage : Link α) (frame : Bytes) : ∃ m', handleRecv head m neo garbage frame = some m' ∧
      Represents head m' (s.arrive [frame]) := by
  obtain ⟨xs, hring, hq, ho⟩ := hr
  -- the new block is none of the nodes, which are valid
  have hneo : neo ∉ head :: xs := by
    intro hm
    have hv := hring.isSome hm
    simp [hn] at hv
  have hring' : Circular (Function.update m.heap neo (some garbage)) head xs := by
    refine (untouched_update m.heap neo (some garbage)).circular hring ?_
    intro x hx hm
    rw [List.mem_singleton.1 hm] at hx
    exact hneo hx
  obtain ⟨h', he, hr', -⟩ := listAddTail_spec hring' hneo (by simp)
  refine ⟨⟨h', Function.update m.buf neo frame, m.off⟩, by rw [handleRecv, he, Option.map_some],
    xs ++ [neo], hr', ?_, ho⟩
  have hmap : xs.map (Function.update m.buf neo frame) = xs.map m.buf := by
    refine List.map_congr_left ?_
    intro x hx
    have hxn : x ≠ neo := by
      rintro rfl
      exact hneo (List.mem_cons_of_mem head hx)
    exact Function.update_of_ne hxn _ _
  dsimp only
  rw [List.map_append, List.map_cons, List.map_nil, Function.update_self, hmap, hq]
  rfl

/-- The traversal in `usbws_recv` never accesses an invalid node, ends, and is that of the
session. -/
theorem recv_represents (hr : Represents head m s) (c : RecvCall)
    (hf : s.recvQueue.length < fuel) : ∃ m', recv head fuel m c = some (m', (s.recvLocked c).2) ∧
      Represents head m' (s.recvLocked c).1 := by
  obtain ⟨xs, hring, hq, ho⟩ := hr
  rw [← hq, List.length_map] at hf
  obtain ⟨h', he, hr', -⟩ :=
    @forEachSafe_spec α _ _ _ _ m.heap head xs fuel (m.off, c) (@recvBody_acts α _ m.buf) hring hf
  obtain ⟨hmap, hst⟩ := @sweep_recvTurn α xs m.buf c m.off
  rw [hst, hq, ho] at he
  rw [hq, ho] at hmap
  rw [ho] at hr'
  refine ⟨⟨h', m.buf, (c.traverse s.recvQueue s.recvOffset).2.1⟩, ?_, _, hr', hmap, rfl⟩
  rw [recv, ho, he]
  rfl

/-- The traversal in `usbws_session_close` ends and leaves an empty queue. -/
theorem close_represents (hr : Represents head m s) (hf : s.recvQueue.length < fuel) :
    ∃ m', close head fuel m = some m' ∧ Represents head m' s.close.session := by
  obtain ⟨xs, hring, hq, ho⟩ := hr
  rw [← hq, List.length_map] at hf
  obtain ⟨h', he, hr', -⟩ :=
    @forEachSafe_spec α _ _ _ _ m.heap head xs fuel () (@closeBody_acts α _) hring hf
  rw [sweep_close] at he hr'
  exact ⟨⟨h', m.buf, m.off⟩, by rw [close, he, Option.map_some], [], hr', rfl, ho⟩

/-- `list_empty(&session->recv_queue)`. -/
theorem listEmpty_represents (hr : Represents head m s) :
    listEmpty m.heap head = some s.recvQueue.isEmpty := by
  obtain ⟨xs, hring, hq, -⟩ := hr
  rw [listEmpty_spec hring, ← hq, List.isEmpty_map]

/-! ### The refinement -/

/-- What happens to a receive queue. -/
inductive Label (α : Type*) where
  /-- `usbws_handle_recv` queues a frame in a block with arbitrary links. -/
  | handleRecv (neo : α) (garbage : Link α) (frame : Bytes)
  /-- `usbws_recv` traverses the queue, which makes the call `c` the call `c'`. -/
  | recv (c c' : RecvCall)
  /-- `usbws_session_close`. -/
  | close

/-- The steps of the list code.  `malloc` gives a block that is not in use. -/
inductive Step (head : α) (m : QueueMem α) : Label α → QueueMem α → Prop
  | handleRecv {neo : α} {garbage : Link α} {frame : Bytes} {m' : QueueMem α} :
      m.heap neo = none → handleRecv head m neo garbage frame = some m' →
      Step head m (.handleRecv neo garbage frame) m'
  | recv {fuel : ℕ} {c c' : RecvCall} {m' : QueueMem α} :
      recv head fuel m c = some (m', c') → Step head m (.recv c c') m'
  | close {fuel : ℕ} {m' : QueueMem α} : close head fuel m = some m' → Step head m .close m'

/-- The system of the list code. -/
def lts (head : α) : LTS (QueueMem α) (Label α) := ⟨Step head⟩

omit [DecidableEq α] in
/-- The same for the queue of a session. -/
def sessionLts : LTS Session (Label α) where
  step s l s' :=
    match l with
    | .handleRecv _ _ frame => s' = s.arrive [frame]
    | .recv c c' => (s', c') = s.recvLocked c
    | .close => s' = s.close.session

theorem recv_mono {fuel' : ℕ} {r : QueueMem α × RecvCall} (hle : fuel ≤ fuel')
    (hr : recv head fuel m c = some r) : recv head fuel' m c = some r := by
  obtain ⟨x, hx, rfl⟩ := Option.map_eq_some_iff.1 hr
  rw [recv, forEachSafe_mono hle hx, Option.map_some]

theorem close_mono {fuel' : ℕ} (hle : fuel ≤ fuel') (hr : close head fuel m = some m') :
    close head fuel' m = some m' := by
  obtain ⟨x, hx, rfl⟩ := Option.map_eq_some_iff.1 hr
  rw [close, forEachSafe_mono hle hx, Option.map_some]

/-- A step of the list code is one of the session. -/
theorem step_refines {l : Label α} (hr : Represents head m s) (hst : (lts head).step m l m') :
    ∃ s', sessionLts.step s l s' ∧ Represents head m' s' := by
  cases hst with
  | @handleRecv neo garbage frame _ hn he =>
    obtain ⟨m₁, he₁, hr₁⟩ := handleRecv_represents hr hn garbage frame
    obtain rfl : m₁ = m' := Option.some.inj (he₁.symm.trans he)
    exact ⟨_, rfl, hr₁⟩
  | @recv fuel c c' _ he =>
    have hf : s.recvQueue.length < max fuel (s.recvQueue.length + 1) := by omega
    obtain ⟨m₁, he₁, hr₁⟩ := recv_represents hr c hf
    have hm := he₁.symm.trans (recv_mono (le_max_left _ _) he)
    simp only [Option.some.injEq, Prod.mk.injEq] at hm
    obtain ⟨rfl, rfl⟩ := hm
    exact ⟨_, rfl, hr₁⟩
  | @close fuel _ he =>
    have hf : s.recvQueue.length < max fuel (s.recvQueue.length + 1) := by omega
    obtain ⟨m₁, he₁, hr₁⟩ := close_represents hr hf
    obtain rfl : m₁ = m' := Option.some.inj (he₁.symm.trans (close_mono (le_max_left _ _) he))
    exact ⟨_, rfl, hr₁⟩

/-- The list code can always go on: no access fails and no traversal runs on. -/
structure Safe (head : α) (m : QueueMem α) : Prop where
  handleRecv : ∀ neo garbage frame, m.heap neo = none →
    ∃ m', (lts head).step m (.handleRecv neo garbage frame) m'
  recv : ∀ c, ∃ c' m', (lts head).step m (.recv c c') m'
  close : ∃ m', (lts head).step m .close m'

theorem Represents.safe (hr : Represents head m s) : Safe head m where
  handleRecv _ garbage frame hn :=
    (handleRecv_represents hr hn garbage frame).imp fun _ h => .handleRecv hn h.1
  recv c :=
    ⟨_, (recv_represents hr c (Nat.lt_succ_self _)).imp fun _ h => .recv h.1⟩
  close := (close_represents hr (Nat.lt_succ_self _)).imp fun _ h => .close h.1

/-- `usbws_session_init` makes an empty queue. -/
theorem init_represents (hv : (m.heap head).isSome = true) (now : ℤ) :
    ∃ h', initListHead m.heap head = some h' ∧
      Represents head { m with heap := h', off := 0 } (.init now) := by
  obtain ⟨h', he, hr, -⟩ := initListHead_spec hv
  exact ⟨h', he, [], hr, rfl, rfl⟩

/-- **The list code refines the receive queue.**  Every run of it is, step by step, one of the
queue of a session; the memory represents that queue in the end, and nothing has failed. -/
theorem refines {s₀ : Session} {m₀ : QueueMem α} {tr : List (LTS.Move (QueueMem α) (Label α))}
    (h₀ : Represents head m₀ s₀) (he : (lts head).Exec m₀ tr m) :
    (∃ tr' s, sessionLts.Exec s₀ tr' s ∧
      tr'.map LTS.Move.label = tr.map LTS.Move.label ∧ Represents head m s) ∧ Safe head m := by
  obtain ⟨tr', s, hex, hl, hr⟩ :=
    LTS.Exec.simulate (fun _ _ _ _ hr hst => step_refines hr hst) h₀ he
  exact ⟨⟨tr', s, hex, hl, hr⟩, hr.safe⟩

/-- The memory with an initialised list at the address 0. -/
def emptyMem : QueueMem ℕ := ⟨Function.update (fun _ => none) 0 (some ⟨0, 0⟩), fun _ => [], 0⟩

theorem emptyMem_represents (now : ℤ) : Represents 0 emptyMem (.init now) := by
  obtain ⟨h', he, hr⟩ := @init_represents ℕ _ 0 emptyMem rfl now
  have hsame : emptyMem.heap = h' := by
    cases he
    funext x
    by_cases hx : x = 0 <;> simp [emptyMem, hx]
  rw [← hsame] at hr
  exact hr

/-- A frame arrives in a block with arbitrary links. -/
theorem refines_of_handleRecv : ∃ tr m, (lts 0).Exec emptyMem tr m ∧
    tr.map LTS.Move.label = [.handleRecv 1 ⟨7, 7⟩ [1, 2]] ∧
    (∃ tr' s, sessionLts.Exec (.init 0) tr' s ∧
      tr'.map LTS.Move.label = tr.map LTS.Move.label ∧ Represents 0 m s) ∧ Safe 0 m := by
  have hr := emptyMem_represents 0
  obtain ⟨m, hst⟩ := hr.safe.handleRecv 1 ⟨7, 7⟩ [1, 2] rfl
  have he := LTS.Exec.nil.snoc hst
  exact ⟨_, m, he, rfl, refines hr he⟩

end QueueMem

end Usbws

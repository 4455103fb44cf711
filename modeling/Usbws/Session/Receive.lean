import Usbws.Data.Framed
import Usbws.Session.Basic

/-!
# Receiving

`usbws_handle_recv`, which queues a frame, and `usbws_recv`, which copies queued frames to the
buffer of its caller.

* `RecvCall` : the arguments and local variables of one `usbws_recv` call.  The memory from
  `buf` on is kept as the list of the bytes stored there, so an index that is not below `len`
  lies behind the caller's buffer.
* `RecvCall.traverse` : the `list_for_each_safe` loop over `recv_queue`.
* `Session.usbwsRecv` : a whole call on a session that is not discontinued meanwhile, given the
  frames that arrive in each of its rounds.

A traversal consumes from the front of the unread stream exactly as many bytes as it counts
(`RecvCall.traverse_unread`).  Whether it copies those bytes, and stays inside of the buffer,
depends on the read position and on the frame boundaries: `RecvCall.Aligned` and
`Framed.Straddles` say when.
-/

namespace Usbws

open Framed

/-! ### The functions -/

/-- The arguments and local variables of one `usbws_recv` call. -/
structure RecvCall where
  /-- The size of the caller's buffer. -/
  len : ℕ
  /-- Whether the call waits until `len` bytes have come. -/
  all : Bool
  /-- The number of bytes counted so far. -/
  total : ℕ := 0
  /-- The bytes stored so far from address `buf` on. -/
  dbuf : Bytes := []
  deriving DecidableEq, Repr

/-- `memcpy(dst + off, src, ...)` for an `off` at most the length of `dst`. -/
def memcpy (dst : Bytes) (off : ℕ) (src : Bytes) : Bytes :=
  dst.take off ++ src ++ dst.drop (off + src.length)

namespace RecvCall

/-- `bytes` : how much of a frame with `rem` bytes left is copied at once. -/
def chunk (c : RecvCall) (rem : ℕ) : ℕ := if rem > c.len then c.len else rem

/-- Copy `bytes` bytes of `recv_buf->buf` and count them. -/
def copyFrom (c : RecvCall) (f : Bytes) (bytes : ℕ) : RecvCall :=
  { c with dbuf := memcpy c.dbuf c.total (f.take bytes), total := c.total + bytes }

/-- The traversal of `recv_queue` from read position `off` on: the queue and the position it
leaves and the call's variables behind it. -/
def traverse : List Bytes → ℕ → RecvCall → List Bytes × ℕ × RecvCall
  | [], off, c => ([], off, c)
  | f :: q, off, c =>
    if f.length ≤ off then traverse q 0 c
    else
      let bytes := c.chunk (f.length - off)
      let c := c.copyFrom f bytes
      let off := off + bytes
      if f.length ≤ off then
        if c.len ≤ c.total then (q, 0, c) else traverse q 0 c
      else if c.len ≤ c.total then (f :: q, off, c)
      -- a frame that is neither used up nor the last one needed stays in the queue
      else
        let r := traverse q off c
        (f :: r.1, r.2)

/-- The test behind the locked section: `(!all && total > 0) || total >= len`. -/
def satisfied (c : RecvCall) : Bool := (!c.all && 0 < c.total) || c.len ≤ c.total

end RecvCall

namespace Session

/-- `usbws_handle_recv`. -/
def handleRecv (s : Session) (env : Env) (buf : Bytes) : Outcome :=
  if env.binary then
    if env.malloc then
      ⟨{ s with recvQueue := s.recvQueue ++ [buf] }, [.enqueue buf, .signalRecvQueue], 0⟩
    else ⟨s, [], -1⟩
  else ⟨s, [], 0⟩

/-- One traversal by `usbws_recv` under `recv_queue_lock`. -/
def recvLocked (s : Session) (c : RecvCall) : Session × RecvCall :=
  let r := c.traverse s.recvQueue s.recvOffset
  ({ s with recvQueue := r.1, recvOffset := r.2.1 }, r.2.2)

/-- The session after the frames `fs` have been queued. -/
def arrive (s : Session) (fs : List Bytes) : Session := { s with recvQueue := s.recvQueue ++ fs }

@[simp] theorem arrive_recvQueue (s : Session) (fs : List Bytes) :
    (s.arrive fs).recvQueue = s.recvQueue ++ fs := rfl

@[simp] theorem arrive_recvOffset (s : Session) (fs : List Bytes) :
    (s.arrive fs).recvOffset = s.recvOffset := rfl

@[simp] theorem arrive_nil (s : Session) : s.arrive [] = s := by
  simp [arrive]

@[simp] theorem arrive_arrive (s : Session) (fs fs' : List Bytes) :
    (s.arrive fs).arrive fs' = s.arrive (fs ++ fs') := by
  simp [arrive]

theorem handleRecv_session (s : Session) (env : Env) (buf : Bytes) :
    (s.handleRecv env buf).session = if env.binary && env.malloc then s.arrive [buf] else s := by
  unfold handleRecv
  cases env.binary <;> cases env.malloc <;> rfl

/-- How far a `usbws_recv` call has come. -/
inductive RecvResult where
  /-- The call is still waiting for frames. -/
  | blocked (s : Session) (c : RecvCall)
  /-- The call has returned. -/
  | returned (s : Session) (c : RecvCall) (ret : ℤ)
  deriving DecidableEq, Repr

/-- `usbws_recv` on a session that is not discontinued meanwhile.  Each round of the call begins
with the frames that arrive until it holds the lock and evaluates its inner loop condition; with
an empty queue it goes on sleeping. -/
def usbwsRecv : List (List Bytes) → Session → RecvCall → RecvResult
  | [], s, c => .blocked s c
  | fs :: rounds, s, c =>
    let s := s.arrive fs
    if s.recvQueue.isEmpty then usbwsRecv rounds s c
    else
      let r := s.recvLocked c
      if r.2.satisfied then .returned r.1 r.2 r.2.total else usbwsRecv rounds r.1 r.2

end Session

namespace RecvCall

variable {c : RecvCall} {f : Bytes} {q : List Bytes} {off : ℕ}

/-! ### One frame -/

/-- With more than `len` bytes left in a frame, `len` of them are copied. -/
theorem chunk_part (h : off + c.len < f.length) : c.chunk (f.length - off) = c.len :=
  if_pos (by omega)

/-- Otherwise all of them are. -/
theorem chunk_rest (h : f.length ≤ off + c.len) : c.chunk (f.length - off) = f.length - off :=
  if_neg (by omega)

@[simp] theorem copyFrom_len (n : ℕ) : (c.copyFrom f n).len = c.len := rfl

@[simp] theorem copyFrom_total (n : ℕ) : (c.copyFrom f n).total = c.total + n := rfl

/-- While the stored bytes are the counted ones, a copy appends to them. -/
theorem copyFrom_dbuf (h : c.dbuf.length = c.total) (f : Bytes) (n : ℕ) :
    (c.copyFrom f n).dbuf = c.dbuf ++ f.take n := by
  simp [copyFrom, memcpy, ← h]

theorem length_copyFrom_dbuf (h : c.dbuf.length = c.total) {n : ℕ} (hn : n ≤ f.length) :
    (c.copyFrom f n).dbuf.length = (c.copyFrom f n).total := by
  rw [copyFrom_dbuf h, copyFrom_total, List.length_append, h, List.length_take, min_eq_left hn]

@[simp] theorem traverse_nil : c.traverse [] off = ([], off, c) := rfl

/-- A frame that is used up is unlinked and skipped. -/
theorem traverse_skip (h : f.length ≤ off) : c.traverse (f :: q) off = c.traverse q 0 := by
  simp [traverse, h]

/-- A frame with more than `len` bytes left gives `len` of them and ends the traversal. -/
theorem traverse_part (h : off + c.len < f.length) :
    c.traverse (f :: q) off = (f :: q, off + c.len, c.copyFrom f c.len) := by
  have hc := chunk_part h
  simp [traverse, hc, show ¬ f.length ≤ off by omega, show ¬ f.length ≤ off + c.len by omega]

/-- A frame used up by the copy that completes the request is unlinked and is the last one. -/
theorem traverse_last (h : off < f.length) (hr : f.length ≤ off + c.len)
    (hl : c.len ≤ c.total + (f.length - off)) :
    c.traverse (f :: q) off = (q, 0, c.copyFrom f (f.length - off)) := by
  have hc := chunk_rest hr
  simp [traverse, hc, hl, show ¬ f.length ≤ off by omega,
    show f.length ≤ off + (f.length - off) by omega]

/-- A frame used up before the request is complete is unlinked and the traversal goes on. -/
theorem traverse_next (h : off < f.length) (hl : c.total + (f.length - off) < c.len) :
    c.traverse (f :: q) off = (c.copyFrom f (f.length - off)).traverse q 0 := by
  have hc := @chunk_rest c f off (by omega)
  simp [traverse, hc, show ¬ f.length ≤ off by omega,
    show f.length ≤ off + (f.length - off) by omega,
    show ¬ c.len ≤ c.total + (f.length - off) by omega]

/-- The four ways a traversal treats its next frame. -/
theorem frame_cases (c : RecvCall) (f : Bytes) (off : ℕ) :
    f.length ≤ off ∨ off + c.len < f.length ∨
      (off < f.length ∧ f.length ≤ off + c.len ∧ c.len ≤ c.total + (f.length - off)) ∨
      (off < f.length ∧ c.total + (f.length - off) < c.len) := by
  omega

/-! ### A whole traversal -/

/-- A traversal does not change the arguments of the call. -/
theorem traverse_args :
    (c.traverse q off).2.2.len = c.len ∧ (c.traverse q off).2.2.all = c.all := by
  induction q generalizing off c with
  | nil => exact ⟨rfl, rfl⟩
  | cons f q ih =>
    obtain h | h | ⟨h, hr, hl⟩ | ⟨h, hl⟩ := frame_cases c f off
    · rw [traverse_skip h]; exact ih
    · rw [traverse_part h]; exact ⟨rfl, rfl⟩
    · rw [traverse_last h hr hl]; exact ⟨rfl, rfl⟩
    · rw [traverse_next h hl]; exact ih

/-- A traversal only takes frames off the front of the queue. -/
theorem traverse_isSuffix : (c.traverse q off).1 <:+ q := by
  induction q generalizing off c with
  | nil => exact List.suffix_rfl
  | cons f q ih =>
    obtain h | h | ⟨h, hr, hl⟩ | ⟨h, hl⟩ := frame_cases c f off
    · rw [traverse_skip h]
      exact ih.trans (List.suffix_cons f q)
    · simp only [traverse_part h, List.suffix_rfl]
    · rw [traverse_last h hr hl]
      exact List.suffix_cons f q
    · rw [traverse_next h hl]
      exact ih.trans (List.suffix_cons f q)

/-- Copying from the front of the head frame gives the bytes at the read position. -/
def Aligned (len off : ℕ) : List Bytes → Prop
  | [] => True
  | f :: _ => f.take (min len (f.length - off)) = (f.drop off).take len

instance (len off : ℕ) : ∀ q, Decidable (Aligned len off q)
  | [] => inferInstanceAs (Decidable True)
  | f :: _ =>
    inferInstanceAs (Decidable (f.take (min len (f.length - off)) = (f.drop off).take len))

theorem aligned_zero (len : ℕ) (q : List Bytes) : Aligned len 0 q := by
  cases q with
  | nil => trivial
  | cons f q => simp [Aligned, List.take_eq_take_iff]

/-- **What a traversal does to the stream.**  It takes as many bytes from the front of the
unread stream as it counts and stores as many; it stores the bytes it takes exactly when the
head frame is aligned. -/
theorem traverse_unread (hb : c.dbuf.length = c.total) : ∃ taken copied,
    unread off q = taken ++ unread (c.traverse q off).2.1 (c.traverse q off).1 ∧
    (c.traverse q off).2.2.dbuf = c.dbuf ++ copied ∧ copied.length = taken.length ∧
    (c.traverse q off).2.2.total = c.total + taken.length ∧
    (copied = taken ↔ Aligned c.len off q) := by
  induction q generalizing off c with
  | nil => exact ⟨[], [], by simp, by simp, rfl, by simp, by simp [Aligned]⟩
  | cons f q ih =>
    obtain h | h | ⟨h, hr, hl⟩ | ⟨h, hl⟩ := frame_cases c f off
    · -- nothing is left of `f`
      rw [traverse_skip h]
      obtain ⟨taken, copied, h₁, h₂, h₃, h₄, h₅⟩ := @ih c 0 hb
      refine ⟨taken, copied, ?_, h₂, h₃, h₄, ?_⟩
      · rw [← h₁, unread_cons, List.drop_eq_nil_of_le h, unread_zero, List.nil_append]
      · have h₀ : f.length - off = 0 := by omega
        have hf : Aligned c.len off (f :: q) := by simp [Aligned, h₀, List.drop_eq_nil_of_le h]
        exact iff_of_true (h₅.2 (aligned_zero _ _)) hf
    · rw [traverse_part h]
      refine ⟨(f.drop off).take c.len, f.take c.len, ?_, copyFrom_dbuf hb f _, ?_, ?_, ?_⟩
      · rw [unread_cons, unread_cons, ← List.append_assoc, ← List.drop_drop,
          List.take_append_drop]
      · simp only [List.length_take, List.length_drop]; omega
      · simp only [copyFrom_total, List.length_take, List.length_drop]; omega
      · have hm : min c.len (f.length - off) = c.len := by omega
        simp [Aligned, hm]
    · rw [traverse_last h hr hl]
      refine ⟨f.drop off, f.take (f.length - off), by simp [unread_cons],
        copyFrom_dbuf hb f _, by simp, by simp, ?_⟩
      have hm : min c.len (f.length - off) = f.length - off := by omega
      simp [Aligned, hm, List.take_of_length_le (show (f.drop off).length ≤ c.len by simp; omega)]
    · rw [traverse_next h hl]
      have hb' := @length_copyFrom_dbuf c f hb (f.length - off) (by omega)
      obtain ⟨taken, copied, h₁, h₂, h₃, h₄, h₅⟩ := @ih (c.copyFrom f (f.length - off)) 0 hb'
      -- the frames behind the first one are read from their beginning
      obtain rfl := h₅.2 (aligned_zero _ _)
      refine ⟨f.drop off ++ copied, f.take (f.length - off) ++ copied, ?_, ?_, ?_, ?_, ?_⟩
      · rw [unread_cons, ← unread_zero q, h₁, List.append_assoc]
      · rw [h₂, copyFrom_dbuf hb, List.append_assoc]
      · simp
      · rw [h₄, copyFrom_total, List.length_append, List.length_drop, Nat.add_assoc]
      · have hm : min c.len (f.length - off) = f.length - off := by omega
        simp [Aligned, hm,
          List.take_of_length_le (show (f.drop off).length ≤ c.len by simp; omega)]

theorem length_traverse_dbuf (hb : c.dbuf.length = c.total) :
    (c.traverse q off).2.2.dbuf.length = (c.traverse q off).2.2.total := by
  obtain ⟨taken, copied, -, h₂, h₃, h₄, -⟩ := @traverse_unread c q off hb
  rw [h₂, h₄, List.length_append, hb, h₃]

/-- **How much a traversal counts.**  Unless a frame straddles the end of the request, as much
as there is, up to `len`; otherwise more than `len`. -/
theorem traverse_total (ht : c.total < c.len) :
    (¬ Straddles c.len c.total (remainders off q) →
      (c.traverse q off).2.2.total = min c.len (c.total + (remainders off q).sum)) ∧
    (Straddles c.len c.total (remainders off q) → c.len < (c.traverse q off).2.2.total) := by
  induction q generalizing off c with
  | nil => simp [remainders]; omega
  | cons f q ih =>
    simp only [remainders, straddles_cons, List.sum_cons]
    obtain h | h | ⟨h, hr, hl⟩ | ⟨h, hl⟩ := frame_cases c f off
    · have h₀ : f.length - off = 0 := by omega
      have hns : ¬ (0 < c.total ∧ c.total < c.len ∧ c.len < c.total) := by omega
      rw [traverse_skip h, h₀]
      simpa only [Nat.add_zero, Nat.zero_add, hns, false_or, remainders_zero] using
        @ih c 0 ht
    · have hn : ¬ Straddles c.len (c.total + (f.length - off)) (q.map List.length) :=
        not_straddles_of_le (by omega)
      rw [traverse_part h, copyFrom_total]
      simp only [hn, or_false]
      omega
    · have hn : ¬ Straddles c.len (c.total + (f.length - off)) (q.map List.length) :=
        not_straddles_of_le hl
      rw [traverse_last h hr hl, copyFrom_total]
      simp only [hn, or_false]
      omega
    · have hi := @ih (c.copyFrom f (f.length - off)) 0 (by simpa using hl)
      rw [traverse_next h hl]
      simp only [copyFrom_len, copyFrom_total, remainders_zero] at hi
      have hns : ¬ (0 < c.total ∧ c.total < c.len ∧ c.len < c.total + (f.length - off)) := by omega
      simpa only [hns, false_or, Nat.add_assoc] using hi

/-- A read position in order: none in an empty queue, and within the head frame otherwise. -/
def CursorOk (off : ℕ) : List Bytes → Prop
  | [] => off = 0
  | f :: _ => off = 0 ∨ off < f.length

theorem cursorOk_zero (q : List Bytes) : CursorOk 0 q := by
  cases q with
  | nil => rfl
  | cons f q => exact .inl rfl

theorem CursorOk.append (h : CursorOk off q) (fs : List Bytes) : CursorOk off (q ++ fs) := by
  cases q with
  | nil => rw [show off = 0 from h]; exact cursorOk_zero _
  | cons f q => exact h

theorem traverse_cursorOk (h : q = [] → off = 0) :
    CursorOk (c.traverse q off).2.1 (c.traverse q off).1 := by
  induction q generalizing off c with
  | nil => exact h rfl
  | cons f q ih =>
    obtain h | h | ⟨h, hr, hl⟩ | ⟨h, hl⟩ := frame_cases c f off
    · rw [traverse_skip h]; exact ih fun _ => rfl
    · rw [traverse_part h]; exact .inr h
    · rw [traverse_last h hr hl]; exact cursorOk_zero q
    · rw [traverse_next h hl]; exact ih fun _ => rfl

/-- A traversal that does not complete the request empties the queue. -/
theorem traverse_empties (h : (c.traverse q off).2.2.total < c.len) :
    (c.traverse q off).1 = [] := by
  induction q generalizing off c with
  | nil => rfl
  | cons f q ih =>
    obtain hc | hc | ⟨hc, hr, hl⟩ | ⟨hc, hl⟩ := frame_cases c f off
    · rw [traverse_skip hc] at h ⊢; exact ih h
    · rw [traverse_part hc] at h
      simp only [copyFrom_total] at h
      omega
    · rw [traverse_last hc hr hl] at h
      simp only [copyFrom_total] at h
      omega
    · rw [traverse_next hc hl] at h ⊢; exact ih h

end RecvCall

end Usbws

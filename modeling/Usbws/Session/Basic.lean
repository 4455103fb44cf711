import Mathlib.Data.Int.Basic
import Mathlib.Data.List.Basic

/-!
# Sessions

The per-connection state of `usbws_session.c`, what a callback is told by its surroundings (the
clock, the allocator, libwebsockets) and what it does to them.

* `Session` : `struct usbws_session` without its locks.  Flags of type `char` are `Bool`, `int`
  and `time_t` are `ℤ` or, where never negative, `ℕ`.
* `SendBuf` : the buffer `send_buf` points to, tagged with the `usbws_send` call that passed it.
* `Env` : the answers one callback gets: `time`, `malloc`, `lws_frame_is_binary`, `lws_write`
  and the start and stop functions of the context; and the result of a conversion to `int` that C
  leaves undefined, which differs from machine to machine.
* `Effect` : the calls that leave the session; `DataWrite` records where an
  `lws_write(..., LWS_WRITE_BINARY)` takes its bytes from.
* `Outcome` : the session, the effects and the result of one call.

A `RECEIVE` callback never carries more than the 1500 bytes announced in `usbws_protocols`, so
the conversion of its `size_t` length to the `int` field `len` of `struct usbws_recv_buf` is
exact and the length of the list is used for both.
-/

namespace Usbws

/-- The bytes of a buffer or of a frame. -/
abbrev Bytes := List UInt8

/-- The buffer passed to one `usbws_send` call. -/
structure SendBuf where
  /-- The number of the call among the calls on its session. -/
  call : ℕ
  /-- The bytes the caller provides; `len` is their number. -/
  data : Bytes
  deriving DecidableEq, Repr

namespace SendBuf

/-- The byte at address `send_buf + i`, or `none` outside of the caller's buffer. -/
def peek (b : SendBuf) (i : ℤ) : Option UInt8 := if 0 ≤ i then b.data[i.toNat]? else none

end SendBuf

/-- `struct usbws_session`. -/
structure Session where
  /-- Cleared when the session is discontinued. -/
  cont : Bool
  /-- The library has reported the socket writable and nothing was written since. -/
  writable : Bool
  /-- A ping was written and no pong has come. -/
  pinged : Bool
  /-- A ping is waiting for the socket to become writable. -/
  pingPending : Bool
  /-- The time of the last incoming traffic. -/
  stamp : ℤ
  /-- `send_buf`; `none` is the NULL pointer. -/
  sendBuf : Option SendBuf
  /-- `send_len`. -/
  sendLen : ℤ
  /-- `send_offset`. -/
  sendOffset : ℤ
  /-- `recv_queue`, each `struct usbws_recv_buf` given by its bytes. -/
  recvQueue : List Bytes
  /-- `recv_offset`, the read position in the head of the queue. -/
  recvOffset : ℕ
  deriving DecidableEq, Repr

/-- What the surroundings answer during one callback. -/
structure Env where
  /-- The clock, `time(NULL)`. -/
  now : ℤ := 0
  /-- What a difference of times that is out of the range of `int` is converted to. -/
  cast : ℤ := 0
  /-- Whether `malloc` succeeds. -/
  malloc : Bool := true
  /-- What `lws_frame_is_binary` says of the frame. -/
  binary : Bool := true
  /-- The result of the `lws_write` call, if there is one. -/
  sent : ℤ := 0
  /-- The result of the context's `start` function. -/
  start : ℤ := 0
  /-- The result of the context's `stop` function. -/
  stop : ℤ := 0
  deriving DecidableEq, Repr

/-- One `lws_write(wsi, p, bytes, LWS_WRITE_BINARY)` of the bytes at `buf + off`. -/
structure DataWrite where
  /-- `send_buf` at the call. -/
  buf : Option SendBuf
  /-- `send_offset` at the call. -/
  off : ℤ
  /-- The number of bytes offered. -/
  bytes : ℤ
  /-- What `lws_write` returned. -/
  sent : ℤ
  deriving DecidableEq, Repr

namespace DataWrite

/-- The `n` bytes from address `buf + off` on; `none` is a byte outside of the buffer. -/
def chunk (w : DataWrite) (n : ℤ) : List (Option UInt8) :=
  (List.range n.toNat).map fun i : ℕ => w.buf.bind fun b => b.peek (w.off + i)

/-- The bytes `lws_write` accepted. -/
def accepted (w : DataWrite) : List (Option UInt8) := w.chunk w.sent

/-- The documented results of `lws_write`: `-1`, or the number of bytes taken. -/
def Valid (w : DataWrite) : Prop := w.sent = -1 ∨ 0 ≤ w.sent ∧ w.sent ≤ w.bytes

/-- `lws_write` takes some of the bytes, possibly none, and does not fail. -/
def Accepting (w : DataWrite) : Prop := 0 ≤ w.sent ∧ w.sent ≤ w.bytes

instance (w : DataWrite) : Decidable w.Valid :=
  inferInstanceAs (Decidable (w.sent = -1 ∨ 0 ≤ w.sent ∧ w.sent ≤ w.bytes))

instance (w : DataWrite) : Decidable w.Accepting :=
  inferInstanceAs (Decidable (0 ≤ w.sent ∧ w.sent ≤ w.bytes))

end DataWrite

/-- The calls of the session code that are seen outside of the session. -/
inductive Effect where
  /-- `lws_write` of data. -/
  | writeBinary (w : DataWrite)
  /-- `lws_write` of a ping, with its result. -/
  | writePing (sent : ℤ)
  /-- `lws_callback_on_writable`. -/
  | callbackOnWritable
  /-- `lws_cancel_service`. -/
  | cancelService
  /-- `lws_close_reason`. -/
  | closeReason
  /-- `list_add_tail` of a frame to `recv_queue`. -/
  | enqueue (frame : Bytes)
  /-- `pthread_cond_signal` of `send_complete_cond`. -/
  | signalSendComplete
  /-- `pthread_cond_signal` of `recv_queue_cond`. -/
  | signalRecvQueue
  deriving DecidableEq, Repr

/-- The session after a call, the effects in order, and the value returned. -/
structure Outcome where
  /-- The session after the call. -/
  session : Session
  /-- What the call did outside of the session, oldest first. -/
  effects : List Effect
  /-- The value returned. -/
  ret : ℤ
  deriving DecidableEq, Repr

/-! ### Reading the effects -/

/-- The data writes among some effects. -/
def dataWrites (es : List Effect) : List DataWrite :=
  es.filterMap fun
    | .writeBinary w => some w
    | _ => none

/-- The frames queued by some effects. -/
def enqueued (es : List Effect) : List Bytes :=
  es.filterMap fun
    | .enqueue f => some f
    | _ => none

@[simp] theorem dataWrites_nil : dataWrites [] = [] := rfl

@[simp] theorem dataWrites_append (es es' : List Effect) :
    dataWrites (es ++ es') = dataWrites es ++ dataWrites es' := List.filterMap_append

/-! ### Chunks of a buffer -/

namespace DataWrite

/-- Inside of the buffer, the bytes at `buf + off` are a segment of the caller's data. -/
theorem chunk_eq {w : DataWrite} {b : SendBuf} {n : ℤ} (hb : w.buf = some b) (h₀ : 0 ≤ w.off)
    (hn : w.off + n ≤ b.data.length) :
    w.chunk n = ((b.data.drop w.off.toNat).take n.toNat).map some := by
  apply List.ext_getElem
  · simp only [chunk, List.length_map, List.length_range, List.length_take, List.length_drop]
    omega
  · intro i hi _
    have hi' : i < n.toNat := by simpa [chunk] using hi
    have hlt : w.off.toNat + i < b.data.length := by omega
    have hadd : (w.off + (i : ℤ)).toNat = w.off.toNat + i := by omega
    have hnn : 0 ≤ w.off + (i : ℤ) := by omega
    simp [chunk, hb, SendBuf.peek, hadd, hnn, List.getElem?_eq_getElem hlt]

end DataWrite

end Usbws

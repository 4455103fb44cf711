import Mathlib.Data.Int.Notation
import Mathlib.Logic.Function.Basic
import Usbws.Ctx.Basic
import Usbws.Sync.Monitor

/-!
# Opening a connection

`usbws_client_open` creates a context and a thread that services it, and waits for the outcome of
the connection, which the session callbacks on that thread notify through `client->started`.  Each
open creates a thread of its own, and nobody joins it.

* `Handshake` : the fields of `struct usbws_client` that the threads share.
* `CallbackPc`, `ThreadPc`, `OpenerPc` : the program points of the session callbacks, of
  `usbws_client` and of `usbws_client_open`, with the next statement and its operation on the
  context.
* `Opening` : the system, with SIGINT at any time.  It is given whether the C type `char` is signed.
* `Opening.exec_view` : the operations of a run on the context are a run of the operations.

The callbacks come in any order and any number of times while the thread is in `lws_service`; in
`lws_context_destroy` there may be some that stop the session, or none.
-/

namespace Usbws

/-- A notification of the opener. -/
inductive Note where
  /-- `usbws_client_notify_start`. -/
  | start
  /-- `usbws_client_notify_error`. -/
  | stop
  deriving DecidableEq, Repr

/-- The value handed to `__notify_start`. -/
def Note.val : Note → ℤ
  | start => 1
  | stop => -1

/-- The conversion of an `int` to `char`. -/
def charOfInt (v : ℤ) : BitVec 8 := .ofInt 8 v

/-- The value of a `char` in an expression, on a platform where the type is signed or not. -/
def intOfChar (signed : Bool) (c : BitVec 8) : ℤ := if signed then c.toInt else c.toNat

/-- The fields of `struct usbws_client` that the opener and the client threads share. -/
structure Handshake where
  /-- `wsi` : the connection of the thread of that number, or NULL. -/
  wsi : Option ℕ
  /-- `started`. -/
  started : BitVec 8
  /-- `lock` and `cond`. -/
  lock : Monitor ℕ
  deriving DecidableEq, Repr

/-! ### The client thread -/

/-- The program points of the session callbacks of the client; each is named by the statement to
come. -/
inductive CallbackPc where
  /-- `usbws_client_start_session`, at `client->wsi = wsi`. -/
  | setWsi
  /-- `usbws_client_stop_session`, at `client->wsi = NULL`. -/
  | clearWsi
  /-- At the two statements of `usbws_ctx_stop`. -/
  | stop
  | cancel
  /-- `__notify_start`, at the lock. -/
  | lock (n : Note)
  /-- At `client->started = val`. -/
  | store (n : Note)
  /-- At the signal. -/
  | signal
  /-- At the unlock. -/
  | unlock
  deriving DecidableEq, Repr

/-- The first statement of the callback. -/
def Note.entry : Note → CallbackPc
  | start => .setWsi
  | stop => .clearWsi

/-- The next statement of a callback on the thread `i`; behind the last one there is none. -/
def CallbackPc.next (i : ℕ) (h : Handshake) :
    CallbackPc → Option (Handshake × Option CallbackPc × Option Ctx.Op)
  | .setWsi => some ({ h with wsi := some i }, some (.lock .start), none)
  | .clearWsi => some ({ h with wsi := none }, some .stop, none)
  | .stop => some (h, some .cancel, some .stop)
  | .cancel => some (h, some (.lock .stop), none)
  | .lock n => (h.lock.lock i).map fun m => ({ h with lock := m }, some (.store n), none)
  | .store n => some ({ h with started := charOfInt n.val }, some .signal, none)
  | .signal => some ({ h with lock := h.lock.signal }, some .unlock, none)
  | .unlock => some ({ h with lock := h.lock.unlock }, none, none)

/-- The program points of `usbws_client`. -/
inductive ThreadPc where
  /-- The thread has not been created. -/
  | absent
  /-- At `while (!usbws_ctx_stopped(ctx))`. -/
  | test
  /-- In `lws_service`. -/
  | service
  /-- In a session callback there. -/
  | serving (k : CallbackPc)
  /-- Behind the loop, at `if (client->wsi)`. -/
  | discontinue
  /-- At the statements of `usbws_ctx_destroy`. -/
  | destroyTest
  | destroy
  /-- In `lws_context_destroy`. -/
  | destroying
  /-- In a session callback there. -/
  | closing (k : CallbackPc)
  | clear
  /-- `usbws_client` has returned. -/
  | returned
  deriving DecidableEq, Repr

/-- The next statement of the thread `i`; `ok` says whether `lws_service` returns 0. -/
def ThreadPc.next (i : ℕ) (c : Ctx) (h : Handshake) (ok : Bool) :
    ThreadPc → Option (Handshake × ThreadPc × Option Ctx.Op)
  | .absent | .returned => none
  | .test => some (h, if c.cont then .service else .discontinue, none)
  | .service => some (h, if ok then .test else .discontinue, none)
  | .serving k => (k.next i h).map fun r => (r.1, (r.2.1.map ThreadPc.serving).getD .service, r.2.2)
  | .discontinue => some (h, .destroyTest, none)
  | .destroyTest => some (h, if c.context.isSome then .destroy else .returned, none)
  | .destroy => some (h, .destroying, some .destroy)
  | .destroying => some (h, .clear, none)
  | .closing k =>
    (k.next i h).map fun r => (r.1, (r.2.1.map ThreadPc.closing).getD .destroying, r.2.2)
  | .clear => some (h, .returned, some .clear)

/-- Libwebsockets delivers a session callback. -/
def ThreadPc.deliver (n : Note) : ThreadPc → Option ThreadPc
  | .service => some (.serving n.entry)
  | .destroying => if n = .stop then some (.closing n.entry) else none
  | _ => none

/-- Where a callback is delivered, and where it begins. -/
theorem ThreadPc.deliver_cases {n : Note} {pc pc' : ThreadPc} (h : pc.deliver n = some pc') :
    pc = .service ∧ pc' = .serving n.entry ∨
      pc = .destroying ∧ n = .stop ∧ pc' = .closing Note.stop.entry := by
  cases pc with
  | service => exact .inl ⟨rfl, (Option.some.inj h).symm⟩
  | destroying =>
    simp only [deliver, Option.ite_none_right_eq_some, Option.some.injEq] at h
    obtain ⟨rfl, rfl⟩ := h
    exact .inr ⟨rfl, rfl, rfl⟩
  | _ => cases h

/-! ### The opener -/

/-- The program points of `usbws_client_open`. -/
inductive OpenerPc where
  /-- It has not been called. -/
  | idle
  /-- At `usbws_ctx_create`. -/
  | create
  /-- At `lws_set_proxy`. -/
  | setProxy
  /-- At `lws_client_connect_via_info`. -/
  | connect
  /-- At `calloc`. -/
  | calloc
  /-- At the two statements of `usbws_set_sigint`. -/
  | register
  | install
  /-- At `pthread_create`. -/
  | spawn
  /-- `usbws_client_wait_start`, at the lock. -/
  | waitLock
  /-- In the wait loop; the stage of the monitor says where. -/
  | waitLoop
  /-- At the unlock. -/
  | waitUnlock
  /-- At `if (client->started < 0)`. -/
  | verdict
  /-- At `free(sock)`. -/
  | freeSock
  /-- `err_destroy_context`, at the statements of `usbws_ctx_destroy`. -/
  | destroyTest
  | destroy
  | clear
  /-- It has returned a socket or NULL. -/
  | done (sock : Bool)
  deriving DecidableEq, Repr

/-- `usbws_client_open` can be called. -/
def OpenerPc.isFree : OpenerPc → Bool
  | idle | done _ => true
  | _ => false

/-- The next statement of the opener apart from `pthread_create`; `ok` is the answer of the function
that is called. -/
def OpenerPc.next (signed : Bool) (c : Ctx) (h : Handshake) (ok : Bool) :
    OpenerPc → Option (Handshake × OpenerPc × Option Ctx.Op)
  | .idle | .done _ | .spawn => none
  | .create => some (h, if ok then .setProxy else .done false, some (.create ok))
  | .setProxy => some (h, if ok then .connect else .destroyTest, none)
  | .connect => some (h, if ok then .calloc else .destroyTest, none)
  | .calloc => some (h, if ok then .register else .destroyTest, none)
  | .register => some (h, .install, some .register)
  | .install => some (h, .spawn, some .install)
  | .waitLock => h.lock.enter.map fun m => ({ h with lock := m }, .waitLoop, none)
  | .waitLoop => (h.lock.turn (h.started == 0)).map fun m =>
      ({ h with lock := m }, if m.stage = .inside then .waitUnlock else .waitLoop, none)
  | .waitUnlock => h.lock.leave.map fun m => ({ h with lock := m }, .verdict, none)
  | .verdict => some (h, if intOfChar signed h.started < 0 then .freeSock else .done true, none)
  | .freeSock => some (h, .done false, none)
  | .destroyTest => some (h, if c.context.isSome then .destroy else .done false, none)
  | .destroy => some (h, .clear, some .destroy)
  | .clear => some (h, .done false, some .clear)

/-! ### The system -/

/-- A process with a client. -/
structure Opening where
  /-- `client->ctx`. -/
  ctx : Ctx
  /-- The fields that the threads share. -/
  shake : Handshake
  /-- Where the opener is. -/
  opener : OpenerPc
  /-- Where the client threads are, numbered in the order of their creation. -/
  thread : ℕ → ThreadPc
  /-- The number of client threads created. -/
  spawned : ℕ
  /-- The number of calls of `usbws_client_open`. -/
  opens : ℕ

namespace Opening

/-- The steps of the system. -/
inductive Label where
  /-- A call of `usbws_client_open`. -/
  | call
  /-- The next statement of the opener. -/
  | opener (ok : Bool)
  /-- `pthread_create`. -/
  | spawn (ok : Bool)
  /-- The next statement of a client thread. -/
  | thread (i : ℕ) (ok : Bool)
  /-- A session callback begins on a client thread. -/
  | callback (i : ℕ) (n : Note)
  /-- A statement of the handler of SIGINT. -/
  | handler (h : Ctx.HandlerStep)
  deriving DecidableEq, Repr

/-- The successor function. -/
def next (signed : Bool) (p : Opening) : Label → Option Opening
  | .call =>
    if p.opener.isFree then some { p with opener := .create, opens := p.opens + 1 } else none
  | .opener ok => (p.opener.next signed p.ctx p.shake ok).bind fun r =>
      (p.ctx.perform r.2.2).map fun c => { p with ctx := c, shake := r.1, opener := r.2.1 }
  | .spawn ok =>
    if p.opener = .spawn then
      if ok then
        some { p with
          opener := .waitLock, thread := Function.update p.thread p.spawned .test
          spawned := p.spawned + 1 }
      else some { p with opener := .destroyTest }
    else none
  | .thread i ok => ((p.thread i).next i p.ctx p.shake ok).bind fun r =>
      (p.ctx.perform r.2.2).map fun c =>
        { p with ctx := c, shake := r.1, thread := Function.update p.thread i r.2.1 }
  | .callback i n => ((p.thread i).deliver n).map fun k =>
      { p with thread := Function.update p.thread i k }
  | .handler h => (p.ctx.handle h).map fun c => { p with ctx := c }

/-- The system. -/
def lts (signed : Bool) : LTS Opening Label := .ofNext (next signed)

/-- `usbws_client_init`. -/
def start : Opening := ⟨.init, ⟨none, 0, .free⟩, .idle, fun _ => .absent, 0, 0⟩

/-- The moves of the system. -/
abbrev Move := LTS.Move Opening Label

/-- The steps of the system one by one. -/
inductive Step (signed : Bool) (p : Opening) : Label → Opening → Prop
  | call : p.opener.isFree = true → Step signed p .call
      { p with opener := .create, opens := p.opens + 1 }
  | opener {ok : Bool} {h : Handshake} {pc : OpenerPc} {o : Option Ctx.Op} {c : Ctx} :
      p.opener.next signed p.ctx p.shake ok = some (h, pc, o) → p.ctx.perform o = some c →
      Step signed p (.opener ok) { p with ctx := c, shake := h, opener := pc }
  | spawn : p.opener = .spawn → Step signed p (.spawn true)
      { p with
        opener := .waitLock, thread := Function.update p.thread p.spawned .test
        spawned := p.spawned + 1 }
  | spawnFails : p.opener = .spawn → Step signed p (.spawn false) { p with opener := .destroyTest }
  | thread {i : ℕ} {ok : Bool} {h : Handshake} {pc : ThreadPc} {o : Option Ctx.Op} {c : Ctx} :
      (p.thread i).next i p.ctx p.shake ok = some (h, pc, o) → p.ctx.perform o = some c →
      Step signed p (.thread i ok)
        { p with ctx := c, shake := h, thread := Function.update p.thread i pc }
  | callback {i : ℕ} {n : Note} {pc : ThreadPc} : (p.thread i).deliver n = some pc →
      Step signed p (.callback i n) { p with thread := Function.update p.thread i pc }
  | handler {h : Ctx.HandlerStep} {c : Ctx} : p.ctx.handle h = some c →
      Step signed p (.handler h) { p with ctx := c }

variable {signed : Bool} {p p' : Opening} {l : Label} {tr : List Move}

theorem step_of_next (h : (lts signed).step p l p') : Step signed p l p' := by
  change next signed p l = some p' at h
  cases l with
  | call =>
    simp only [next, Option.ite_none_right_eq_some, Option.some.injEq] at h
    obtain ⟨ho, rfl⟩ := h
    exact .call ho
  | opener =>
    obtain ⟨r, hr, h⟩ := Option.bind_eq_some_iff.1 h
    obtain ⟨c, hc, rfl⟩ := Option.map_eq_some_iff.1 h
    exact .opener hr hc
  | spawn =>
    simp only [next, Option.ite_none_right_eq_some] at h
    obtain ⟨ho, h⟩ := h
    split_ifs at h with hok
    · cases h
      rw [hok]
      exact .spawn ho
    · cases h
      rw [Bool.not_eq_true] at hok
      rw [hok]
      exact .spawnFails ho
  | thread =>
    obtain ⟨r, hr, h⟩ := Option.bind_eq_some_iff.1 h
    obtain ⟨c, hc, rfl⟩ := Option.map_eq_some_iff.1 h
    exact .thread hr hc
  | callback =>
    obtain ⟨k, hk, rfl⟩ := Option.map_eq_some_iff.1 h
    exact .callback hk
  | handler =>
    obtain ⟨c, hc, rfl⟩ := Option.map_eq_some_iff.1 h
    exact .handler hc

/-- The threads to come are absent. -/
theorem absent_of_exec (he : (lts signed).Exec start tr p) (i : ℕ) (hi : p.spawned ≤ i) :
    p.thread i = .absent := by
  induction he with
  | nil => rfl
  | @snoc tr p p' l hex hst ih =>
    cases step_of_next hst with
    | call | opener | spawnFails | handler => exact ih hi
    | spawn hpc =>
      have hne : i ≠ p.spawned := by rintro rfl; exact Nat.not_succ_le_self _ hi
      simp only [Function.update_of_ne hne]
      exact ih (Nat.le_of_succ_le hi)
    | @thread j ok sh pc o c hr hc =>
      have hne : i ≠ j := by
        rintro rfl
        rw [ih hi] at hr
        cases hr
      simp only [Function.update_of_ne hne]
      exact ih hi
    | @callback j n pc hd =>
      have hne : i ≠ j := by
        rintro rfl
        rw [ih hi] at hd
        cases hd
      simp only [Function.update_of_ne hne]
      exact ih hi

/-! ### Operations on the context -/

/-- The operation of a move on the context. -/
def op (signed : Bool) (m : Move) : Option Ctx.Op :=
  match m.label with
  | .opener ok => (m.pre.opener.next signed m.pre.ctx m.pre.shake ok).bind fun r => r.2.2
  | .thread i ok => ((m.pre.thread i).next i m.pre.ctx m.pre.shake ok).bind fun r => r.2.2
  | .handler h => some (.handler h)
  | .call | .spawn _ | .callback _ _ => none

/-- The operations of a run on the context. -/
def view (signed : Bool) (tr : List Move) : List Ctx.Move :=
  LTS.project Opening.ctx (op signed) tr

/-- A move performs its operation on the context. -/
theorem perform_op (h : (lts signed).step p l p') :
    p.ctx.perform (op signed ⟨p, l, p'⟩) = some p'.ctx := by
  cases step_of_next h with
  | opener hr hc | thread hr hc => simpa only [op, hr, Option.bind_some] using hc
  | handler hc => exact hc
  | call | spawn | spawnFails | callback => rfl

/-- The operations of a run on the context are a run of the operations. -/
theorem exec_view (he : (lts signed).Exec start tr p) :
    Ctx.lts.Exec .init (view signed tr) p.ctx :=
  Ctx.exec_project (fun _ _ _ => perform_op) he

end Opening

end Usbws

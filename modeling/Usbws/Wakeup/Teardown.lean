import Usbws.Client.Open
import Usbws.Sync.Crowd
import Usbws.Wakeup.Signals

/-!
# The end of a session

`LWS_CALLBACK_CLOSED` is the last use of a session by libwebsockets, which releases it when the
handling has returned.  `usbws_session_close` and the discontinuation in it wake the threads of the
USB/IP library, but do not wait for them.  The daemon joins the thread that has lent out the
socket, in `usbws_service_stop_session`.  The client has no thread to join, and
`usbws_client_stop_session` waits for nobody.

* `Teardown` : a session with the calls of any number of threads, the functions that signal, the use
  of the socket and the handling of `CLOSED`, all statement by statement.
* `Teardown.Step` : its steps one by one.
* `Teardown.Locked` : who holds `recv_queue_lock`.
* `Teardown.Ended` : what has been done behind each statement of `usbws_session_close`.  Behind it
  the session is discontinued, and no reader traverses the queue.

`usbws_wait_recv` is a single step: it reads the queue and sleeps, and leaves no trace.
-/

namespace Usbws

/-! ### The program points -/

/-- The two programs that use sessions. -/
inductive Role where
  | daemon
  | client
  deriving DecidableEq, Repr

/-- Where a thread of the USB/IP library is. -/
inductive CallPoint where
  /-- In none of the two functions. -/
  | idle
  /-- In `usbws_recv`. -/
  | recv (pc : RecvPoint)
  /-- In `usbws_send`. -/
  | send (pc : SendPoint)
  deriving DecidableEq, Repr

/-- Behind the last statement of a function the thread is in none. -/
def CallPoint.ofRecv : RecvPoint → CallPoint
  | .idle => idle
  | pc => recv pc

/-- Behind the last statement of a function the thread is in none. -/
def CallPoint.ofSend : SendPoint → CallPoint
  | .idle => idle
  | pc => send pc

/-- Who runs one of the functions that signal. -/
inductive Runner (U T : Type*) where
  /-- The service thread, in its handling of `CLOSED`. -/
  | service
  /-- A sender, in its own broadcast. -/
  | broadcast (u : U)
  /-- Any other thread, or the service thread before. -/
  | other (t : T)
  deriving DecidableEq, Repr

/-- The use of the socket: by `usbwsd`'s thread of the session in the daemon, and in a client from
the return of `usbws_client_open` to `usbws_client_close`. -/
inductive Usage where
  /-- The socket has not been lent out yet. -/
  | none
  /-- The threads of the library may call the two functions. -/
  | lent
  /-- `usbipd_recv_pdu` has returned, or `usbws_client_close` has been called. -/
  | over
  deriving DecidableEq, Repr

/-- The program points of the handling of `CLOSED`. -/
inductive ClosedPc where
  /-- It has not been delivered. -/
  | before
  /-- In `usbws_wait_recv`. -/
  | waiting
  /-- In `usbws_session_close`. -/
  | closing
  /-- In `usbws_service_stop_session`, at `pthread_join`. -/
  | joining
  /-- In `usbws_client_stop_session`. -/
  | stopping (k : CallbackPc)
  /-- The handling has returned, and the session is released. -/
  | returned
  deriving DecidableEq, Repr

/-- `usbws_session_close` has returned. -/
def ClosedPc.past : ClosedPc → Bool
  | joining | stopping _ | returned => true
  | _ => false

/-! ### The system -/

/-- A session with all that goes on in it. -/
structure Teardown (U T : Type*) where
  /-- The session. -/
  session : Session
  /-- `send_complete_lock` and `send_complete_cond`. -/
  send : Crowd U (Runner U T)
  /-- `recv_queue_lock` and `recv_queue_cond`. -/
  recv : Crowd U (Runner U T)
  /-- A call of `usbws_session_discontinue` has completed. -/
  discontinued : Bool
  /-- Where the threads of the USB/IP library are. -/
  point : U → CallPoint
  /-- Where the functions that signal are. -/
  task : Runner U T → Task
  /-- The number of the next call of `usbws_send`. -/
  calls : ℕ
  /-- The use of the socket. -/
  usage : Usage
  /-- Where the handling of `CLOSED` is. -/
  closed : ClosedPc
  /-- The context of a client. -/
  ctx : Ctx
  /-- The fields of a client that its opener and the service thread share. -/
  shake : Handshake

namespace Teardown

variable {U T : Type*}

/-- The steps of the system. -/
inductive Label (U T : Type*) where
  /-- The socket is lent out. -/
  | lend
  /-- The use of the socket ends. -/
  | giveBack
  /-- A thread calls `usbws_recv`. -/
  | recv (u : U) (len : ℕ) (all : Bool)
  /-- A thread calls `usbws_send`, with its first assignment. -/
  | send (u : U) (data : Bytes)
  /-- The next statement of a call. -/
  | caller (u : U)
  /-- The broadcast of a sender enters `__send_data`. -/
  | request (u : U)
  /-- Another thread enters one of the functions that signal. -/
  | begin (t : T) (k : Task)
  /-- The next statement of such a function, with a waiter whom its signal wakes. -/
  | task (w : Runner U T) (sent : ℤ) (u : Option U)
  /-- `CLOSED` is delivered. -/
  | closed
  /-- The next statement of its handling. -/
  | handling

section Next

variable [DecidableEq U] [DecidableEq T] [Fintype U]

/-- What the threads share, as the waiter `u` sees it. -/
def shared (p : Teardown U T) (u : Option U) : Shared (U ⊕ Runner U T) :=
  ⟨p.session, p.send.view u, p.recv.view u, p.discontinued⟩

/-- What a step that the waiter `u` sees makes of it. -/
def setShared (p : Teardown U T) (u : Option U) (sh : Shared (U ⊕ Runner U T)) : Teardown U T :=
  { p with
    session := sh.session, send := p.send.put u sh.send, recv := p.recv.put u sh.recv
    discontinued := sh.discontinued }

/-- A signal that is the next statement of a task may wake `u`; any other statement wakes nobody. -/
def wakes (p : Teardown U T) (u : Option U) : Task → Bool
  | .completed | .sendSignal => p.send.hears u
  | .queued | .recvSignal => p.recv.hears u
  | _ => u.isNone

/-- The next statement of the handling of `CLOSED`. -/
def handle (role : Role) (p : Teardown U T) : Option (Teardown U T) :=
  match p.closed with
  | .before | .returned => none
  | .waiting =>
    some { p with closed := .closing, task := Function.update p.task .service .closing }
  | .closing =>
    if p.task .service = .idle then
      match role with
      | .daemon => some { p with closed := .joining }
      | .client => some { p with closed := .stopping .clearWsi }
    else none
  -- the thread of the session ends behind its use of the socket
  | .joining => if p.usage = .over then some { p with closed := .returned } else none
  | .stopping k => (k.next 0 p.shake).bind fun r => (p.ctx.perform r.2.2).map fun c =>
      { p with ctx := c, shake := r.1, closed := (r.2.1.map ClosedPc.stopping).getD .returned }

/-- The successor function. -/
def next (role : Role) (p : Teardown U T) : Label U T → Option (Teardown U T)
  | .lend => if p.usage = .none then some { p with usage := .lent } else none
  -- `usbipd_recv_pdu` is done with the socket when it returns, `usbws_client_close` just frees it
  | .giveBack =>
    if role = .daemon → ∀ u, p.point u = .idle then some { p with usage := .over } else none
  | .recv u len all =>
    if p.usage = .lent ∧ p.point u = .idle then
      some { p with
        point := Function.update p.point u (.recv (.outer { len := len, all := all })) }
    else none
  | .send u data =>
    if p.usage = .lent ∧ p.point u = .idle then
      let b : SendBuf := ⟨p.calls, data⟩
      some { p with
        session := p.session.setSendBuf b
        point := Function.update p.point u (.send (.bufSet b)), calls := p.calls + 1 }
    else none
  | .caller u =>
    match p.point u with
    | .idle => none
    | .recv pc => (pc.next (p.shared (some u))).map fun r =>
        { p.setShared (some u) r.1 with point := Function.update p.point u (.ofRecv r.2) }
    | .send pc =>
      -- a sender whose broadcast is in `__send_data` goes on with the task
      if p.task (.broadcast u) = .idle then
        (pc.next (p.shared (some u))).map fun r =>
          { p.setShared (some u) r.1 with point := Function.update p.point u (.ofSend r.2) }
      else none
  | .request u =>
    match p.point u with
    | .send (.request _) =>
      if p.task (.broadcast u) = .idle then
        some { p with task := Function.update p.task (.broadcast u) .writing }
      else none
    | _ => none
  | .begin t k =>
    if p.task (.other t) = .idle ∧ k.entry then
      some { p with task := Function.update p.task (.other t) k }
    else none
  | .task w sent u =>
    if p.wakes u (p.task w) then
      ((p.task w).next (p.shared u) (.inr w) sent).map fun r =>
        { p.setShared u r.1 with task := Function.update p.task w r.2 }
    else none
  | .closed => if p.closed = .before then some { p with closed := .waiting } else none
  | .handling => p.handle role

/-- The system. -/
def lts (U T : Type*) [DecidableEq U] [DecidableEq T] [Fintype U] (role : Role) :
    LTS (Teardown U T) (Label U T) := .ofNext (next role)

end Next

/-- A freshly established session. -/
def start (U T : Type*) (now : ℤ) : Teardown U T :=
  ⟨.init now, .free, .free, false, fun _ => .idle, fun _ => .idle, 0, .none, .before, .init,
    ⟨some 0, charOfInt 1, .free⟩⟩

/-- The moves of the system. -/
abbrev Move (U T : Type*) := LTS.Move (Teardown U T) (Label U T)

/-- The steps of the handling of `CLOSED` one by one. -/
inductive Handles [DecidableEq U] [DecidableEq T] (role : Role) (p : Teardown U T) :
    Teardown U T → Prop
  | wait : p.closed = .waiting → Handles role p
      { p with closed := .closing, task := Function.update p.task .service .closing }
  | join : p.closed = .closing → p.task .service = .idle → role = .daemon →
      Handles role p { p with closed := .joining }
  | stop : p.closed = .closing → p.task .service = .idle → role = .client →
      Handles role p { p with closed := .stopping .clearWsi }
  | joined : p.closed = .joining → p.usage = .over → Handles role p { p with closed := .returned }
  | stopping {k : CallbackPc} {c : Ctx} {sh : Handshake} {pc : ClosedPc} :
      p.closed = .stopping k → pc = .returned ∨ (∃ k, pc = .stopping k) →
      Handles role p { p with ctx := c, shake := sh, closed := pc }

/-- The steps of the system one by one. -/
inductive Step [DecidableEq U] [DecidableEq T] [Fintype U] (role : Role) (p : Teardown U T) :
    Label U T → Teardown U T → Prop
  | lend : p.usage = .none → Step role p .lend { p with usage := .lent }
  | giveBack : (role = .daemon → ∀ u, p.point u = .idle) →
      Step role p .giveBack { p with usage := .over }
  | recv {u : U} {len : ℕ} {all : Bool} : p.usage = .lent → p.point u = .idle →
      Step role p (.recv u len all) { p with
        point := Function.update p.point u (.recv (.outer { len := len, all := all })) }
  | send {u : U} {data : Bytes} {s : Session} {b : SendBuf} : p.usage = .lent →
      p.point u = .idle → s.cont = p.session.cont → Step role p (.send u data) { p with
        session := s, point := Function.update p.point u (.send (.bufSet b)), calls := p.calls + 1 }
  | reads {u : U} {pc pc' : RecvPoint} {sh : Shared (U ⊕ Runner U T)} : p.point u = .recv pc →
      pc.next (p.shared (some u)) = some (sh, pc') → Step role p (.caller u)
        { p.setShared (some u) sh with point := Function.update p.point u (.ofRecv pc') }
  | sends {u : U} {pc pc' : SendPoint} {sh : Shared (U ⊕ Runner U T)} : p.point u = .send pc →
      pc.next (p.shared (some u)) = some (sh, pc') → Step role p (.caller u)
        { p.setShared (some u) sh with point := Function.update p.point u (.ofSend pc') }
  | request {u : U} : p.task (.broadcast u) = .idle → Step role p (.request u)
      { p with task := Function.update p.task (.broadcast u) .writing }
  | begin {t : T} {k : Task} : p.task (.other t) = .idle → k.entry = true →
      Step role p (.begin t k) { p with task := Function.update p.task (.other t) k }
  | task {w : Runner U T} {sent : ℤ} {u : Option U} {sh : Shared (U ⊕ Runner U T)} {k : Task} :
      (p.task w).next (p.shared u) (.inr w) sent = some (sh, k) → Step role p (.task w sent u)
        { p.setShared u sh with task := Function.update p.task w k }
  | closed : p.closed = .before → Step role p .closed { p with closed := .waiting }
  | handling {p' : Teardown U T} : p.Handles role p' → Step role p .handling p'

variable [DecidableEq U] [DecidableEq T] {role : Role} {p p' : Teardown U T}
  {l : Label U T} {tr : List (Move U T)}

theorem handles_of_handle (h : p.handle role = some p') : p.Handles role p' := by
  unfold Teardown.handle at h
  split at h
  · cases h
  · cases h
  · rename_i hc
    cases h
    exact .wait hc
  · rename_i hc
    simp only [Option.ite_none_right_eq_some] at h
    obtain ⟨ht, h⟩ := h
    cases role with
    | daemon => cases h; exact .join hc ht rfl
    | client => cases h; exact .stop hc ht rfl
  · rename_i hc
    simp only [Option.ite_none_right_eq_some, Option.some.injEq] at h
    obtain ⟨hu, rfl⟩ := h
    exact .joined hc hu
  · rename_i k hc
    obtain ⟨r, -, h⟩ := Option.bind_eq_some_iff.1 h
    obtain ⟨c, -, rfl⟩ := Option.map_eq_some_iff.1 h
    refine .stopping hc ?_
    cases r.2.1 with
    | none => exact .inl rfl
    | some k => exact .inr ⟨k, rfl⟩

variable [Fintype U]

theorem step_of_next (h : (lts U T role).step p l p') : Step role p l p' := by
  change next role p l = some p' at h
  cases l with
  | lend =>
    simp only [next, Option.ite_none_right_eq_some, Option.some.injEq] at h
    obtain ⟨hu, rfl⟩ := h
    exact .lend hu
  | giveBack =>
    simp only [next, Option.ite_none_right_eq_some, Option.some.injEq] at h
    obtain ⟨hu, rfl⟩ := h
    exact .giveBack hu
  | recv =>
    simp only [next, Option.ite_none_right_eq_some, Option.some.injEq] at h
    obtain ⟨⟨hu, hi⟩, rfl⟩ := h
    exact .recv hu hi
  | send =>
    simp only [next, Option.ite_none_right_eq_some, Option.some.injEq] at h
    obtain ⟨⟨hu, hi⟩, rfl⟩ := h
    exact .send hu hi rfl
  | caller u =>
    simp only [next] at h
    split at h
    · cases h
    · rename_i pc hp
      obtain ⟨r, hr, rfl⟩ := Option.map_eq_some_iff.1 h
      exact .reads hp hr
    · rename_i pc hp
      simp only [Option.ite_none_right_eq_some, Option.map_eq_some_iff] at h
      obtain ⟨-, r, hr, rfl⟩ := h
      exact .sends hp hr
  | request =>
    simp only [next] at h
    split at h
    · simp only [Option.ite_none_right_eq_some, Option.some.injEq] at h
      obtain ⟨ht, rfl⟩ := h
      exact .request ht
    · cases h
  | begin =>
    simp only [next, Option.ite_none_right_eq_some, Option.some.injEq] at h
    obtain ⟨⟨ht, hk⟩, rfl⟩ := h
    exact .begin ht hk
  | task =>
    simp only [next, Option.ite_none_right_eq_some, Option.map_eq_some_iff] at h
    obtain ⟨-, r, hr, rfl⟩ := h
    exact .task hr
  | closed =>
    simp only [next, Option.ite_none_right_eq_some, Option.some.injEq] at h
    obtain ⟨hc, rfl⟩ := h
    exact .closed hc
  | handling => exact .handling (handles_of_handle h)

end Teardown

/-! ### Who holds the lock of the queue -/

/-- A reader traverses the queue only of a session that continues. -/
theorem RecvPoint.cont_of_copy {N : Type*} {sh sh' : Shared N} {pc : RecvPoint} {c : RecvCall}
    (h : pc.next sh = some (sh', .copy c)) : sh.session.cont = true := by
  cases pc with
  | check c' =>
    simp only [RecvPoint.next, Option.some.injEq, Prod.mk.injEq] at h
    obtain ⟨-, h⟩ := h
    by_contra hn
    simp [hn] at h
  | outer | judge => 
    simp only [RecvPoint.next, Option.some.injEq, Prod.mk.injEq] at h
    obtain ⟨-, h⟩ := h
    split_ifs at h
  | loop =>
    obtain ⟨m, -, hr⟩ := Option.map_eq_some_iff.1 h
    simp only [Prod.mk.injEq] at hr
    obtain ⟨-, hr⟩ := hr
    split_ifs at hr
  | locking | failing | unlocking =>
    obtain ⟨m, -, hr⟩ := Option.map_eq_some_iff.1 h
    cases hr
  | _ => cases h

/-- Where a thread is with respect to the inner loop of `usbws_recv`. -/
def CallPoint.recvPlace : CallPoint → Place
  | recv pc => pc.place
  | idle | send _ => .outside

theorem CallPoint.recvPlace_ofRecv (pc : RecvPoint) : (ofRecv pc).recvPlace = pc.place := by
  cases pc <;> rfl

theorem CallPoint.recvPlace_ofSend (pc : SendPoint) : (ofSend pc).recvPlace = .outside := by
  cases pc <;> rfl

theorem CallPoint.recv_of_ofRecv {pc pc' : RecvPoint} (h : ofRecv pc = recv pc') : pc' = pc := by
  cases pc <;> cases h <;> rfl

theorem CallPoint.ofSend_ne {pc : SendPoint} {pc' : RecvPoint} : ofSend pc ≠ recv pc' := by
  cases pc <;> nofun

namespace Teardown

variable {U T : Type*} [DecidableEq U] [DecidableEq T] [Fintype U] {role : Role}
  {p p' : Teardown U T} {l : Label U T} {tr : List (Move U T)}

omit [DecidableEq U] [DecidableEq T] [Fintype U] in
/-- Who holds the lock of the queue. -/
structure Locked (p : Teardown U T) : Prop where
  recv : p.recv.Ok
  task : ∀ w, (p.task w).holdsRecv = true → p.recv.owner = some (.inr w)
  place : ∀ u, (p.point u).recvPlace.Ok (p.recv.stage u)

omit [DecidableEq U] [DecidableEq T] [Fintype U] in
theorem start_locked (now : ℤ) : (start U T now).Locked := ⟨Crowd.free_ok, nofun, fun _ => rfl⟩

omit [Fintype U] in
/-- A task begins outside of the lock. -/
theorem Locked.begin (h : p.Locked) {w : Runner U T} {k : Task} {c : ClosedPc}
    (hk : k.holdsRecv = false) :
    Locked { p with task := Function.update p.task w k, closed := c } := by
  refine ⟨h.recv, fun w' hw' => ?_, h.place⟩
  simp only [Function.update_apply] at hw'
  split_ifs at hw'
  · rw [hk] at hw'
    cases hw'
  · exact h.task w' hw'

theorem Locked.step (h : p.Locked) (hst : (lts U T role).step p l p') : p'.Locked := by
  cases step_of_next hst with
  | lend | giveBack | closed => exact ⟨h.recv, h.task, h.place⟩
  | @recv u _ _ _ hi | @send u _ _ _ _ hi =>
    refine ⟨h.recv, h.task, fun v => ?_⟩
    simp only [Function.update_apply]
    split_ifs with hv
    · have hu := h.place u
      rw [hi] at hu
      exact hv ▸ hu
    · exact h.place v
  | @reads u pc pc' sh hp hr =>
    obtain ⟨hok, hown⟩ := h.recv.waits (RecvPoint.step_of_next hr).recv
    refine ⟨hok, fun w hw => hown _ nofun (h.task w hw), fun v => ?_⟩
    simp only [Function.update_apply]
    split_ifs with hv
    · subst hv
      have hu := h.place v
      rw [hp] at hu
      rw [CallPoint.recvPlace_ofRecv, setShared, Crowd.put_stage_self]
      exact (RecvPoint.runs_of_next hr).ok hu
    · rw [setShared, Crowd.put_stage_of_ne fun hn => hv (Option.some.inj hn).symm]
      exact h.place v
  | @sends u pc pc' sh hp hr =>
    have hk : (p.setShared (some u) sh).recv = p.recv := by
      simp only [setShared, (SendPoint.step_of_next hr).recv, shared, Crowd.put_view]
    refine ⟨hk ▸ h.recv, hk ▸ h.task, fun v => ?_⟩
    simp only [Function.update_apply, hk]
    split_ifs with hv
    · have hu := h.place v
      rw [hv, hp] at hu
      rw [CallPoint.recvPlace_ofSend, hv]
      exact hu
    · exact h.place v
  | request => exact h.begin rfl
  | begin _ hk => exact h.begin (Task.holdsRecv_of_entry hk)
  | @task w sent u sh k hk =>
    obtain ⟨hok, hown, hothers⟩ := h.recv.uses (Task.uses_recv hk) (h.task w)
    refine ⟨hok, fun w' hw' => ?_, fun v => Crowd.place_of_uses (Task.uses_recv hk) (h.place v)⟩
    simp only [Function.update_apply] at hw'
    split_ifs at hw' with hw
    · exact hw ▸ hown hw'
    · exact hothers _ (fun hn => hw (Sum.inr.inj hn)) (h.task w' hw')
  | handling hh =>
    cases hh with
    | wait => exact h.begin rfl
    | _ => exact ⟨h.recv, h.task, h.place⟩

/-! ### What `usbws_session_close` has done -/

/-- `usbws_session_close` is at one of the points `f`, or it has returned. -/
def Behind (f : Task → Bool) (p : Teardown U T) : Prop :=
  p.closed.past = true ∨ p.closed = .closing ∧ f (p.task .service) = true

/-- What has been done behind each statement of `usbws_session_close`. -/
structure Ended (p : Teardown U T) : Prop where
  service : p.closed = .closing → (p.task .service).inClose = true
  cont : p.Behind Task.pastCont → p.session.cont = false
  /-- The lock of the queue is free when `usbws_session_discontinue` takes it. -/
  copy : p.Behind Task.pastRecvLock → ∀ u c, p.point u ≠ .recv (.copy c)

omit [DecidableEq U] [DecidableEq T] [Fintype U] in
theorem start_ended (now : ℤ) : (start U T now).Ended where
  service h := by cases h
  cont h := by rcases h with h | ⟨h, -⟩ <;> cases h
  copy _ _ _ h := by cases h

omit [DecidableEq U] [DecidableEq T] [Fintype U] in
theorem Behind.pastCont (h : p.Behind Task.pastRecvLock) : p.Behind Task.pastCont := by
  refine h.imp_right fun ⟨hc, hk⟩ => ⟨hc, ?_⟩
  cases hs : p.task .service <;> rw [hs] at hk <;> first | rfl | cases hk

omit [DecidableEq U] [DecidableEq T] [Fintype U] in
/-- What leaves the handling alone, continues nothing and begins no traversal. -/
theorem Ended.of_point (h : p.Ended) (hc : p'.closed = p.closed)
    (ht : p'.task .service = p.task .service)
    (hs : p.session.cont = false → p'.session.cont = false)
    (hp : ∀ u c, p'.point u = .recv (.copy c) →
      p.point u = .recv (.copy c) ∨ p.session.cont = true) : p'.Ended := by
  have hb : ∀ f, p'.Behind f ↔ p.Behind f := fun f => by rw [Behind, Behind, hc, ht]
  refine ⟨fun h' => ht ▸ h.service (hc ▸ h'), fun h' => hs (h.cont ((hb _).1 h')),
    fun h' u c hn => ?_⟩
  have hpre := (hb _).1 h'
  rcases hp u c hn with hn | hn
  · exact h.copy hpre u c hn
  · rw [h.cont hpre.pastCont] at hn
    cases hn

omit [Fintype U] in
/-- A statement of the handling. -/
theorem Ended.handles (h : p.Ended) (hh : p.Handles role p') : p'.Ended := by
  cases hh with
  | wait =>
    have ht : Function.update p.task .service .closing .service = .closing := by simp
    refine ⟨fun _ => congrArg Task.inClose ht, ?_, ?_⟩
    · rintro (hb | ⟨-, hb⟩)
      · cases hb
      · cases (congrArg Task.pastCont ht).symm.trans hb
    · rintro (hb | ⟨-, hb⟩)
      · cases hb
      · cases (congrArg Task.pastRecvLock ht).symm.trans hb
  | join hc ht | stop hc ht =>
    have hb : ∀ f : Task → Bool, f .idle = true → p.Behind f := fun f hf => .inr ⟨hc, ht ▸ hf⟩
    exact ⟨nofun, fun _ => h.cont (hb _ rfl), fun _ => h.copy (hb _ rfl)⟩
  | joined hc =>
    have hb : ∀ f : Task → Bool, p.Behind f := fun f => .inl (by rw [hc]; rfl)
    exact ⟨nofun, fun _ => h.cont (hb _), fun _ => h.copy (hb _)⟩
  | stopping hc hpc =>
    have hb : ∀ f : Task → Bool, p.Behind f := fun f => .inl (by rw [hc]; rfl)
    refine ⟨fun hn => ?_, fun _ => h.cont (hb _), fun _ => h.copy (hb _)⟩
    rcases hpc with rfl | ⟨k, rfl⟩ <;> cases hn

omit [Fintype U] in
/-- A statement of `usbws_session_close`, which then may hold the lock of the queue. -/
theorem Ended.service_next (h : p.Ended) (hl' : p'.Locked) {sh : Shared (U ⊕ Runner U T)}
    {u : Option U} {sent : ℤ} {k : Task}
    (hk : (p.task .service).next (p.shared u) (.inr .service) sent = some (sh, k))
    (hp' : p' = { p.setShared u sh with task := Function.update p.task .service k }) :
    p'.Ended := by
  have ht : p'.task .service = k := by simp [hp']
  have hc : p'.closed = p.closed := by rw [hp']; rfl
  have hs : p'.session = sh.session := by rw [hp']; rfl
  have hpoint : p'.point = p.point := by rw [hp']; rfl
  have hcont := (Task.cont_of_next hk).1
  refine ⟨fun h' => ?_, fun hb => ?_, fun hb v c hn => ?_⟩
  · rw [ht]
    exact (Task.inClose_of_next hk (h.service (hc ▸ h'))).1
  · rw [hs]
    rcases hb with hb | ⟨hb, hkc⟩
    · exact hcont (h.cont (.inl (hc ▸ hb)))
    · rw [hc] at hb
      rw [ht] at hkc
      rcases (Task.inClose_of_next hk (h.service hb)).2.1 hkc with hpre | hpost
      · exact hcont (h.cont (.inr ⟨hb, hpre⟩))
      · exact hpost
  · rcases hb with hb | ⟨hb, hkc⟩
    · exact h.copy (.inl (hc ▸ hb)) v c (hpoint ▸ hn)
    · rw [hc] at hb
      rw [ht] at hkc
      rcases (Task.inClose_of_next hk (h.service hb)).2.2 hkc with hpre | hpost
      · exact h.copy (.inr ⟨hb, hpre⟩) v c (hpoint ▸ hn)
      · -- the service thread has the lock now, so no reader is behind its loop
        have hown := hl'.task .service (ht ▸ hpost)
        have hplace := hl'.place v
        rw [hn] at hplace
        have hread := (hl'.recv v).2 (by rw [show p'.recv.stage v = .inside from hplace]; rfl)
        rw [hown] at hread
        cases hread

theorem Ended.step (h : p.Ended) (hl' : p'.Locked) (hst : (lts U T role).step p l p') :
    p'.Ended := by
  cases step_of_next hst with
  | lend | giveBack => exact h.of_point rfl rfl id fun _ _ => .inl
  | closed hc =>
    refine ⟨nofun, ?_, ?_⟩
    all_goals rintro (hb | ⟨hb, -⟩) <;> cases hb
  | recv =>
    refine h.of_point rfl rfl id fun v c hn => ?_
    simp only [Function.update_apply] at hn
    split_ifs at hn
    · cases hn
    · exact .inl hn
  | send _ _ hs =>
    refine h.of_point rfl rfl (fun hc => hs.trans hc) fun v c hn => ?_
    simp only [Function.update_apply] at hn
    split_ifs at hn
    exact .inl hn
  | @reads u pc pc' sh hp hr =>
    refine h.of_point rfl rfl (fun hc => (RecvPoint.step_of_next hr).cont.trans hc) fun v c hn => ?_
    simp only [Function.update_apply] at hn
    split_ifs at hn
    · cases CallPoint.recv_of_ofRecv hn
      exact .inr (RecvPoint.cont_of_copy hr)
    · exact .inl hn
  | @sends u pc pc' sh hp hr =>
    refine h.of_point rfl rfl (fun hc => (SendPoint.step_of_next hr).cont.trans hc) fun v c hn => ?_
    simp only [Function.update_apply] at hn
    split_ifs at hn
    · exact absurd hn CallPoint.ofSend_ne
    · exact .inl hn
  | request | begin =>
    exact h.of_point rfl (by simp) id fun _ _ => .inl
  | @task w sent u sh k hk =>
    by_cases hw : w = .service
    · subst hw
      exact h.service_next hl' hk rfl
    · exact h.of_point rfl (Function.update_of_ne (fun hn => hw hn.symm) ..)
        (Task.cont_of_next hk).1 fun _ _ => .inl
  | handling hh => exact h.handles hh

end Teardown

end Usbws

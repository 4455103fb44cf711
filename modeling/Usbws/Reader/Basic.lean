import Usbws.Lts.Basic
import Usbws.Session.Callback

/-!
# A session and its reader

One reader thread calls `usbws_recv` while the service thread is handed frames and anyone may
discontinue the session.  A binary frame for which `malloc` fails is dropped, and the session goes
on without it.  `cont` is tested at three places of `usbws_recv`, outside and inside of
`recv_queue_lock`, and may change between any two of them, so the program points around the tests
are kept apart (`RecvPc`).  The traversal is one step: it runs under the lock and reads nothing that
others change meanwhile.

`pthread_cond_wait` gives the lock back; its return, by a signal or without one, is the step
from `lock` to `inner` that also takes the lock the first time.

`Reader.Step` lists the steps, `Reader.Ok` is what every step keeps, and `Session.receiving` is the
part of the session they depend on.
-/

namespace Usbws

open Framed

/-- The program points of the reader. -/
inductive RecvPc where
  /-- Not in `usbws_recv`. -/
  | idle
  /-- At `while (session->cont)`. -/
  | outer (c : RecvCall)
  /-- About to take `recv_queue_lock`, or asleep in `pthread_cond_wait`. -/
  | lock (c : RecvCall)
  /-- At `while (session->cont && list_empty(...))`, holding the lock. -/
  | inner (c : RecvCall)
  /-- At `if (!session->cont)`, holding the lock. -/
  | check (c : RecvCall)
  /-- At the traversal, holding the lock. -/
  | copy (c : RecvCall)
  /-- At `return ret`. -/
  | done (c : RecvCall) (ret : ℤ)
  deriving DecidableEq, Repr

namespace RecvPc

/-- The reader holds `recv_queue_lock`. -/
def locked : RecvPc → Bool
  | inner _ | check _ | copy _ => true
  | _ => false

/-- The call in progress. -/
def call : RecvPc → Option RecvCall
  | idle => none
  | outer c | lock c | inner c | check c | copy c | done c _ => some c

/-- The reader is at the test of the outer loop. -/
def isOuter : RecvPc → Bool
  | outer _ => true
  | _ => false

/-- The call at its `return`, with the value returned. -/
def returning : RecvPc → Option (RecvCall × ℤ)
  | done c ret => some (c, ret)
  | _ => none

/-- The call in progress, or an empty one. -/
def current (pc : RecvPc) : RecvCall := pc.call.getD { len := 0, all := false }

end RecvPc

/-- A session with its reader. -/
structure Reader where
  /-- The shared session. -/
  session : Session
  /-- Where the reader is. -/
  pc : RecvPc
  deriving DecidableEq, Repr

namespace Reader

/-- What can happen to a session and its reader. -/
inductive Label where
  /-- A `RECEIVE` callback. -/
  | handleRecv (env : Env) (frame : Bytes)
  /-- Some thread runs `session->cont = 0`. -/
  | discontinue
  /-- The reader enters `usbws_recv`. -/
  | call (len : ℕ) (all : Bool)
  /-- The reader makes its next step inside of `usbws_recv`. -/
  | run
  /-- The reader returns from `usbws_recv`. -/
  | ret
  deriving DecidableEq, Repr

/-- The next step of `usbws_recv`. -/
def advance (s : Session) : RecvPc → Option Reader
  | .idle | .done _ _ => none
  | .outer c => some ⟨s, if s.cont then .lock c else .done c c.total⟩
  | .lock c => some ⟨s, .inner c⟩
  | .inner c => some ⟨s, if s.cont && s.recvQueue.isEmpty then .lock c else .check c⟩
  | .check c => some ⟨s, if s.cont then .copy c else .done c (-1)⟩
  | .copy c =>
    let r := s.recvLocked c
    some ⟨r.1, if r.2.satisfied then .done r.2 r.2.total else .outer r.2⟩

/-- The successor function of the system. -/
def next (r : Reader) : Label → Option Reader
  | .handleRecv env f =>
    -- only a frame that is queued waits for `recv_queue_lock`
    if (env.binary && env.malloc) = true ∧ r.pc.locked = true then none
    else some { r with session := (r.session.handleRecv env f).session }
  | .discontinue => some { r with session := r.session.discontinue.session }
  | .call len all =>
    if r.pc = .idle ∧ 0 < len then some { r with pc := .outer { len := len, all := all } } else none
  | .run => advance r.session r.pc
  | .ret =>
    match r.pc with
    | .done _ _ => some { r with pc := .idle }
    | _ => none

/-- The system. -/
def lts : LTS Reader Label := .ofNext next

/-- A freshly established session whose reader has not called yet. -/
def start (now : ℤ) : Reader := ⟨.init now, .idle⟩

/-- The moves of the system. -/
abbrev Move := LTS.Move Reader Label

/-! ### What a run has delivered and returned -/

/-- The concatenation of the binary frames delivered in a run. -/
def delivered : List Move → Bytes
  | [] => []
  | m :: tr =>
    match m.label with
    | .handleRecv env f => if env.binary then delivered tr ++ f else delivered tr
    | _ => delivered tr

/-- The concatenation of those that were queued. -/
def queued : List Move → Bytes
  | [] => []
  | m :: tr =>
    match m.label with
    | .handleRecv env f => if env.binary && env.malloc then queued tr ++ f else queued tr
    | _ => queued tr

/-- The move loses no data of a binary frame for want of memory. -/
def Kept (m : Move) : Prop :=
  match m.label with
  | .handleRecv env f => env.binary = true → env.malloc = true ∨ f = []
  | _ => True

instance : DecidablePred Kept := fun m => by
  unfold Kept
  split <;> infer_instance

/-- The finished calls of a run with the values they returned, latest first. -/
def returns : List Move → List (RecvCall × ℤ)
  | [] => []
  | m :: tr =>
    match m.label, m.pre.pc with
    | .ret, .done c v => (c, v) :: returns tr
    | _, _ => returns tr

/-! ### The steps -/

/-- The steps of the system one by one. -/
inductive Step : Reader → Label → Reader → Prop
  | arrive {s : Session} {pc : RecvPc} {env : Env} {f : Bytes} :
      (env.binary && env.malloc) = true → pc.locked = false →
      Step ⟨s, pc⟩ (.handleRecv env f) ⟨s.arrive [f], pc⟩
  | refuse {s : Session} {pc : RecvPc} {env : Env} {f : Bytes} :
      (env.binary && env.malloc) = false → Step ⟨s, pc⟩ (.handleRecv env f) ⟨s, pc⟩
  | discontinue {s : Session} {pc : RecvPc} :
      Step ⟨s, pc⟩ .discontinue ⟨{ s with cont := false }, pc⟩
  | call {s : Session} {len : ℕ} {all : Bool} : 0 < len →
      Step ⟨s, .idle⟩ (.call len all) ⟨s, .outer { len := len, all := all }⟩
  | enter {s : Session} {c : RecvCall} : s.cont = true → Step ⟨s, .outer c⟩ .run ⟨s, .lock c⟩
  | leave {s : Session} {c : RecvCall} : s.cont = false →
      Step ⟨s, .outer c⟩ .run ⟨s, .done c c.total⟩
  | acquire {s : Session} {c : RecvCall} : Step ⟨s, .lock c⟩ .run ⟨s, .inner c⟩
  | wait {s : Session} {c : RecvCall} : s.cont = true → s.recvQueue = [] →
      Step ⟨s, .inner c⟩ .run ⟨s, .lock c⟩
  | awake {s : Session} {c : RecvCall} : s.cont = false ∨ s.recvQueue ≠ [] →
      Step ⟨s, .inner c⟩ .run ⟨s, .check c⟩
  | go {s : Session} {c : RecvCall} : s.cont = true → Step ⟨s, .check c⟩ .run ⟨s, .copy c⟩
  | fail {s : Session} {c : RecvCall} : s.cont = false →
      Step ⟨s, .check c⟩ .run ⟨s, .done c (-1)⟩
  | finish {s : Session} {c : RecvCall} : (s.recvLocked c).2.satisfied = true →
      Step ⟨s, .copy c⟩ .run
        ⟨(s.recvLocked c).1, .done (s.recvLocked c).2 (s.recvLocked c).2.total⟩
  | again {s : Session} {c : RecvCall} : (s.recvLocked c).2.satisfied = false →
      Step ⟨s, .copy c⟩ .run ⟨(s.recvLocked c).1, .outer (s.recvLocked c).2⟩
  | ret {s : Session} {c : RecvCall} {v : ℤ} : Step ⟨s, .done c v⟩ .ret ⟨s, .idle⟩

theorem step_of_next {r r' : Reader} {l : Label} (h : lts.step r l r') : Step r l r' := by
  obtain ⟨s, pc⟩ := r
  change next ⟨s, pc⟩ l = some r' at h
  cases l with
  | handleRecv env f =>
    simp only [next, Option.ite_none_left_eq_some, Option.some.injEq,
      Session.handleRecv_session] at h
    obtain ⟨hl, rfl⟩ := h
    by_cases hq : (env.binary && env.malloc) = true
    · rw [if_pos hq]
      exact .arrive hq (by simpa [hq] using hl)
    · rw [if_neg hq]
      exact .refuse (by simpa using hq)
  | discontinue => cases h; exact .discontinue
  | call len all =>
    simp only [next, Option.ite_none_right_eq_some, Option.some.injEq] at h
    obtain ⟨⟨rfl, hl⟩, rfl⟩ := h
    exact .call hl
  | run =>
    cases pc with
    | idle | done => cases h
    | outer c =>
      simp only [next, advance, Option.some.injEq] at h
      split_ifs at h with hc <;> subst h
      · exact .enter hc
      · exact .leave (by simpa using hc)
    | lock c => cases h; exact .acquire
    | inner c =>
      simp only [next, advance, Option.some.injEq] at h
      split_ifs at h with hw <;> subst h
      · simp only [Bool.and_eq_true, List.isEmpty_iff] at hw
        exact .wait hw.1 hw.2
      · refine .awake ?_
        cases hc : s.cont
        · exact .inl rfl
        · exact .inr (by simpa [hc] using hw)
    | check c =>
      simp only [next, advance, Option.some.injEq] at h
      split_ifs at h with hc <;> subst h
      · exact .go hc
      · exact .fail (by simpa using hc)
    | copy c =>
      simp only [next, advance, Option.some.injEq] at h
      split_ifs at h with hs <;> subst h
      · exact .finish hs
      · exact .again (by simpa using hs)
  | ret =>
    cases pc with
    | done c v => cases h; exact .ret
    | _ => cases h

/-- No step continues a discontinued session. -/
theorem cont_of_step {r r' : Reader} {l : Label} (h : lts.step r l r')
    (hc : r'.session.cont = true) : r.session.cont = true := by
  cases step_of_next h with
  | discontinue => cases hc
  | _ => exact hc

/-- A run that loses no data queues all that is delivered. -/
theorem queued_eq_delivered {tr : List Move} (h : ∀ m ∈ tr, Kept m) : queued tr = delivered tr := by
  induction tr with
  | nil => rfl
  | cons m tr ih =>
    rw [List.forall_mem_cons] at h
    obtain ⟨r, l, r'⟩ := m
    cases l with
    | handleRecv env f =>
      have hk : env.binary = true → env.malloc = true ∨ f = [] := h.1
      simp only [queued, delivered, ih h.2]
      cases hb : env.binary
      · rfl
      · obtain hm | rfl := hk hb
        · simp [hm]
        · simp
    | _ => exact ih h.2

theorem length_queued_le (tr : List Move) : (queued tr).length ≤ (delivered tr).length := by
  induction tr with
  | nil => exact le_rfl
  | cons m tr ih =>
    obtain ⟨r, l, r'⟩ := m
    cases l with
    | handleRecv env f =>
      simp only [queued, delivered]
      cases env.binary <;> cases env.malloc <;> simp <;> omega
    | _ => exact ih

/-- A run that loses data queues less than is delivered. -/
theorem length_queued_lt {tr : List Move} (h : ¬ ∀ m ∈ tr, Kept m) :
    (queued tr).length < (delivered tr).length := by
  induction tr with
  | nil => simp at h
  | cons m tr ih =>
    obtain ⟨r, l, r'⟩ := m
    rw [List.forall_mem_cons] at h
    by_cases hk : Kept ⟨r, l, r'⟩
    · -- the data was lost earlier
      have hlt := ih fun hm => h ⟨hk, hm⟩
      cases l with
      | handleRecv env f =>
        simp only [queued, delivered]
        cases env.binary <;> cases env.malloc <;> simp <;> omega
      | _ => exact hlt
    · cases l with
      | handleRecv env f =>
        simp only [Kept, Classical.not_imp, not_or, Bool.not_eq_true] at hk
        obtain ⟨hb, hm, hf⟩ := hk
        have hle := length_queued_le tr
        have hpos := List.length_pos_iff.2 hf
        simp only [queued, delivered, hb, hm, Bool.and_false, Bool.false_eq_true, if_false, if_true,
          List.length_append]
        omega
      | _ => exact absurd trivial hk

/-! ### The invariant -/

/-- What holds of a session and its reader at every time. -/
structure Ok (r : Reader) : Prop where
  /-- The read position lies within the head of the queue. -/
  cursor : RecvCall.CursorOk r.session.recvOffset r.session.recvQueue
  /-- The stored bytes are the counted ones. -/
  stored : ∀ c, r.pc.call = some c → 0 < c.len ∧ c.dbuf.length = c.total
  /-- A call that is not about to return has not got its bytes yet. -/
  pending : ∀ c, r.pc.call = some c → (∀ v, r.pc ≠ .done c v) → c.total < c.len

theorem start_ok (now : ℤ) : (start now).Ok :=
  ⟨rfl, (fun _ h => by cases h), (fun _ h => by cases h)⟩

/-- A call that goes on after a traversal still lacks bytes. -/
theorem total_lt_of_not_satisfied {c : RecvCall} (h : c.satisfied = false) : c.total < c.len := by
  simp only [RecvCall.satisfied, Bool.or_eq_false_iff, decide_eq_false_iff_not, not_le] at h
  exact h.2

/-- The invariant for a call in progress: it is kept while the reader only moves on. -/
theorem Ok.move {s : Session} {pc pc' : RecvPc} {c : RecvCall} (h : Ok ⟨s, pc⟩)
    (hc : pc.call = some c) (hc' : pc'.call = some c) (hp : ∀ v, pc ≠ .done c v) : Ok ⟨s, pc'⟩ := by
  refine ⟨h.cursor, fun c' hc'' => ?_, fun c' hc'' _ => ?_⟩
  · obtain rfl : c = c' := by rw [hc'] at hc''; exact Option.some.inj hc''
    exact h.stored c hc
  · obtain rfl : c = c' := by rw [hc'] at hc''; exact Option.some.inj hc''
    exact h.pending c hc hp

/-- The queue and the call behind a traversal are in order again. -/
theorem Ok.recvLocked {s : Session} {c : RecvCall} (h : Ok ⟨s, .copy c⟩) :
    RecvCall.CursorOk (s.recvLocked c).1.recvOffset (s.recvLocked c).1.recvQueue ∧
      0 < (s.recvLocked c).2.len ∧
      (s.recvLocked c).2.dbuf.length = (s.recvLocked c).2.total := by
  have hc := h.stored c rfl
  refine ⟨RecvCall.traverse_cursorOk fun hq => ?_, ?_, RecvCall.length_traverse_dbuf hc.2⟩
  · have := h.cursor
    rwa [hq] at this
  · have hl : (s.recvLocked c).2.len = c.len := RecvCall.traverse_args.1
    rw [hl]
    exact hc.1

theorem Ok.step {r r' : Reader} {l : Label} (h : r.Ok) (hst : lts.step r l r') : r'.Ok := by
  cases step_of_next hst with
  | arrive _ _ => exact ⟨h.cursor.append _, h.stored, h.pending⟩
  | refuse => exact h
  | discontinue => exact ⟨h.cursor, h.stored, h.pending⟩
  | call hl =>
    refine ⟨h.cursor, ?_, ?_⟩
    · rintro c hc; cases hc; exact ⟨hl, rfl⟩
    · rintro c hc -; cases hc; exact hl
  | enter | leave | acquire | wait | awake | go | fail =>
    exact h.move rfl rfl fun v hv => by cases hv
  | finish hs =>
    obtain ⟨hq, hl, hb⟩ := h.recvLocked
    refine ⟨hq, ?_, ?_⟩
    · rintro c hc; cases hc; exact ⟨hl, hb⟩
    · rintro c hc hd; cases hc; exact absurd rfl (hd _)
  | again hs =>
    obtain ⟨hq, hl, hb⟩ := h.recvLocked
    refine ⟨hq, ?_, ?_⟩
    · rintro c hc; cases hc; exact ⟨hl, hb⟩
    · rintro c hc -; cases hc; exact total_lt_of_not_satisfied hs
  | ret => exact ⟨h.cursor, (fun _ h => by cases h), (fun _ h => by cases h)⟩

theorem Ok.exec {r₀ r : Reader} {tr : List Move} (h : r₀.Ok) (he : lts.Exec r₀ tr r) : r.Ok :=
  he.invariant h fun _ _ _ => Ok.step

end Reader

/-! ### The part of the reader -/

/-- The part of a session that the reader sees; the rest is as in a new session. -/
def Session.receiving (s : Session) : Session :=
  { Session.init 0 with cont := s.cont, recvQueue := s.recvQueue, recvOffset := s.recvOffset }

/-- The reader depends on nothing else of its session. -/
theorem Reader.step_receiving {r r' : Reader} {l : Reader.Label} (h : Reader.lts.step r l r') :
    Reader.lts.step ⟨r.session.receiving, r.pc⟩ l ⟨r'.session.receiving, r'.pc⟩ := by
  obtain ⟨s, pc⟩ := r
  change Reader.next _ _ = _ at h ⊢
  cases l with
  | handleRecv env f =>
    simp only [Reader.next, Option.ite_none_left_eq_some, Option.some.injEq,
      Session.handleRecv_session] at h ⊢
    obtain ⟨hl, rfl⟩ := h
    refine ⟨hl, ?_⟩
    split_ifs <;> rfl
  | discontinue => cases h; rfl
  | call =>
    simp only [Reader.next, Option.ite_none_right_eq_some, Option.some.injEq] at h ⊢
    obtain ⟨hl, rfl⟩ := h
    exact ⟨hl, rfl⟩
  | run =>
    cases pc with
    | idle | done => cases h
    | outer | lock | inner | check | copy => cases h; rfl
  | ret =>
    cases pc with
    | done => cases h; rfl
    | _ => cases h

end Usbws

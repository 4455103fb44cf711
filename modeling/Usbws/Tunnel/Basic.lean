import Mathlib.Logic.Function.Basic
import Usbws.Conn.Incoming
import Usbws.Reader.Integrity

/-!
# The two ends of a connection

A USB/IP byte stream goes through a connection in either direction: what `usbws_send` writes on one
side is handed to `usbws_handle_recv` on the other one, where `usbws_recv` reads it.  The library
keeps the order of the bytes, and hands them over in frames of its own choice, of at most
`rx_buffer_size` bytes.

* `Side`, `Endpoint` : the daemon and the client, each a session with its sender and its reader.
* `Tunnel` : the two endpoints with the bytes on their way.
* `Tunnel.conn_exec` : each side sees a run of a connection.
* `Tunnel.reader_exec` : as long as its session continues, it sees a run of a reader.
-/

namespace Usbws

open Framed

/-- The two ends of a connection. -/
inductive Side where
  | daemon
  | client
  deriving DecidableEq, Repr

namespace Side

/-- The other end. -/
def peer : Side → Side
  | daemon => client
  | client => daemon

/-- The callback reason for an incoming frame. -/
def receive : Side → Reason
  | daemon => .receive
  | client => .clientReceive

@[simp] theorem peer_peer (s : Side) : s.peer.peer = s := by cases s <;> rfl

@[simp] theorem receives_receive (s : Side) : s.receive.receives = true := by cases s <;> rfl

@[simp] theorem opens_receive (s : Side) : s.receive.opens = false := by cases s <;> rfl

end Side

/-- A session with its sender and its reader. -/
structure Endpoint where
  /-- The session with its sender. -/
  conn : Conn
  /-- Where the reader is. -/
  pc : RecvPc
  deriving DecidableEq, Repr

namespace Endpoint

/-- A freshly established session on which nobody has called yet. -/
def start (now : ℤ) : Endpoint := ⟨.start now, .idle⟩

/-- The session and its reader. -/
def reader (x : Endpoint) : Reader := ⟨x.conn.session, x.pc⟩

/-- What the reader sees. -/
def reading (x : Endpoint) : Reader := ⟨x.conn.session.receiving, x.pc⟩

end Endpoint

/-- The bytes that `lws_write` accepts at an event.  A byte from outside of the caller's buffer, of
which nothing is known, counts as 0. -/
def Conn.sentBytes (pingPong : ℤ) (k : Conn) (e : Event) : Bytes :=
  ((k.writes pingPong e).flatMap DataWrite.accepted).map fun b => b.getD 0

/-- The two ends of a connection with what is between them. -/
structure Tunnel where
  /-- The two ends. -/
  ends : Side → Endpoint
  /-- The bytes accepted on a side that have not been handed to the other one yet. -/
  transit : Side → Bytes

namespace Tunnel

/-- What can happen to a tunnel. -/
inductive Label where
  /-- An event of a connection that concerns neither an incoming frame nor the reader. -/
  | own (s : Side) (e : Event)
  /-- The library hands the next `n` bytes to a side in one frame. -/
  | deliver (s : Side) (env : Env) (n : ℕ)
  /-- The reader of a side enters `usbws_recv`. -/
  | call (s : Side) (len : ℕ) (all : Bool)
  /-- It makes its next step inside of `usbws_recv`. -/
  | run (s : Side)
  /-- It returns from `usbws_recv`. -/
  | ret (s : Side)
  deriving DecidableEq, Repr

/-- The event concerns neither an incoming frame nor the reader. -/
def isOwn : Event → Bool
  | .recv _ => false
  | .callback reason _ _ => !reason.receives
  | _ => true

/-- The side whose reader makes a step, and its own label. -/
def Label.reads : Label → Option (Side × Reader.Label)
  | .own _ _ | .deliver _ _ _ => none
  | .call s len all => some (s, .call len all)
  | .run s => some (s, .run)
  | .ret s => some (s, .ret)

/-- `rx_buffer_size` in `usbws_protocols`. -/
def rxBufferSize : ℕ := 1500

/-- The next `n` bytes for a side. -/
def frame (t : Tunnel) (s : Side) (n : ℕ) : Bytes := (t.transit s.peer).take n

/-- Replace an end. -/
def setEnd (t : Tunnel) (s : Side) (x : Endpoint) : Tunnel :=
  { t with ends := Function.update t.ends s x }

/-- Replace what is on its way from a side. -/
def setTransit (t : Tunnel) (s : Side) (bs : Bytes) : Tunnel :=
  { t with transit := Function.update t.transit s bs }

/-- The reader of a side makes a step. -/
def read (t : Tunnel) (s : Side) (l : Reader.Label) : Option Tunnel :=
  (Reader.next (t.ends s).reader l).map fun r =>
    t.setEnd s ⟨{ (t.ends s).conn with session := r.session }, r.pc⟩

/-- The successor function; the two sides may have different intervals. -/
def next (pingPong : Side → ℤ) (t : Tunnel) : Label → Option Tunnel
  | .own s e =>
    if isOwn e then
      ((t.ends s).conn.next (pingPong s) DataWrite.Accepting e).map fun k =>
        (t.setEnd s { t.ends s with conn := k }).setTransit s
          (t.transit s ++ (t.ends s).conn.sentBytes (pingPong s) e)
    else none
  | .deliver s env n =>
    -- a frame that is queued waits for `recv_queue_lock`
    if env.binary = true ∧ n ≤ rxBufferSize ∧ n ≤ (t.transit s.peer).length ∧
        (env.malloc = true → (t.ends s).pc.locked = false) then
      ((t.ends s).conn.next (pingPong s) DataWrite.Accepting
          (.callback s.receive env (t.frame s n))).map fun k =>
        (t.setEnd s { t.ends s with conn := k }).setTransit s.peer ((t.transit s.peer).drop n)
    else none
  | .call s len all => t.read s (.call len all)
  | .run s => t.read s .run
  | .ret s => t.read s .ret

/-- The system. -/
def lts (pingPong : Side → ℤ) : LTS Tunnel Label := .ofNext (next pingPong)

/-- A freshly established connection. -/
def start (now : Side → ℤ) : Tunnel := ⟨fun s => .start (now s), fun _ => []⟩

/-- The moves of the system. -/
abbrev Move := LTS.Move Tunnel Label

/-! ### The steps -/

/-- The steps of the system one by one. -/
inductive Step (pingPong : Side → ℤ) (t : Tunnel) : Label → Tunnel → Prop
  | own {s : Side} {e : Event} {k : Conn} : isOwn e = true →
      (Conn.lts (pingPong s) DataWrite.Accepting).step (t.ends s).conn e k →
      Step pingPong t (.own s e) ((t.setEnd s { t.ends s with conn := k }).setTransit s
        (t.transit s ++ (t.ends s).conn.sentBytes (pingPong s) e))
  | deliver {s : Side} {env : Env} {n : ℕ} {k : Conn} : env.binary = true →
      n ≤ (t.transit s.peer).length → (env.malloc = true → (t.ends s).pc.locked = false) →
      (Conn.lts (pingPong s) DataWrite.Accepting).step (t.ends s).conn
        (.callback s.receive env (t.frame s n)) k →
      Step pingPong t (.deliver s env n) ((t.setEnd s { t.ends s with conn := k }).setTransit s.peer
        ((t.transit s.peer).drop n))
  | reader {l : Label} {s : Side} {l' : Reader.Label} {r : Reader} : l.reads = some (s, l') →
      Reader.lts.step (t.ends s).reader l' r →
      Step pingPong t l (t.setEnd s ⟨{ (t.ends s).conn with session := r.session }, r.pc⟩)

variable {pingPong : Side → ℤ} {t t' : Tunnel} {l : Label} {s : Side} {tr : List Move}

theorem step_of_read {l' : Reader.Label} (hl : l.reads = some (s, l'))
    (h : t.read s l' = some t') : Step pingPong t l t' := by
  obtain ⟨r, hr, rfl⟩ := Option.map_eq_some_iff.1 h
  exact .reader hl hr

theorem step_of_next (h : (lts pingPong).step t l t') : Step pingPong t l t' := by
  change next pingPong t l = some t' at h
  cases l with
  | own s e =>
    simp only [next, Option.ite_none_right_eq_some] at h
    obtain ⟨k, hk, rfl⟩ := Option.map_eq_some_iff.1 h.2
    exact .own h.1 hk
  | deliver s env n =>
    simp only [next, Option.ite_none_right_eq_some] at h
    obtain ⟨k, hk, rfl⟩ := Option.map_eq_some_iff.1 h.2
    exact .deliver h.1.1 h.1.2.2.1 h.1.2.2.2 hk
  | call | run | ret => exact step_of_read rfl h

/-! ### What the two ends see -/

/-- The event of the connection of the side `s` in a move. -/
def connEvent (s : Side) (m : Move) : Option Event :=
  match m.label with
  | .own s' e => if s' = s then some e else none
  | .deliver s' env n =>
    if s' = s then some (.callback s'.receive env (m.pre.frame s' n)) else none
  | .run s' =>
    match (m.pre.ends s').pc with
    | .copy c => if s' = s then some (.recv c) else none
    | _ => none
  | _ => none

/-- What the connection of a side sees of a run. -/
def connView (s : Side) (tr : List Move) : List Conn.Move :=
  LTS.project (fun t => (t.ends s).conn) (connEvent s) tr

/-- The label of the reader of the side `s` in a move, while its session continues. -/
def readerLabel (s : Side) (m : Move) : Option Reader.Label :=
  match m.label with
  | .deliver s' env n => if s' = s then some (.handleRecv env (m.pre.frame s' n)) else none
  | l => l.reads.bind fun x => if x.1 = s then some x.2 else none

/-- What the reader of a side sees of a run. -/
def readerView (s : Side) (tr : List Move) : List Reader.Move :=
  LTS.project (fun t => (t.ends s).reading) (readerLabel s) tr

@[simp] theorem setEnd_ends (t : Tunnel) (s : Side) (x : Endpoint) :
    (t.setEnd s x).ends s = x := by
  simp [setEnd]

theorem setEnd_ends_of_ne (t : Tunnel) {s s' : Side} (h : s' ≠ s) (x : Endpoint) :
    (t.setEnd s x).ends s' = t.ends s' :=
  Function.update_of_ne h _ _

@[simp] theorem setEnd_transit (t : Tunnel) (s : Side) (x : Endpoint) :
    (t.setEnd s x).transit = t.transit := rfl

@[simp] theorem setTransit_ends (t : Tunnel) (s : Side) (bs : Bytes) :
    (t.setTransit s bs).ends = t.ends := rfl

@[simp] theorem setTransit_transit (t : Tunnel) (s : Side) (bs : Bytes) :
    (t.setTransit s bs).transit s = bs := by
  simp [setTransit]

theorem setTransit_transit_of_ne (t : Tunnel) {s s' : Side} (h : s' ≠ s) (bs : Bytes) :
    (t.setTransit s bs).transit s' = t.transit s' :=
  Function.update_of_ne h _ _

/-- A step of a reader changes its connection only by a traversal of the queue. -/
theorem conn_of_read {x : Endpoint} {r : Reader} {l' : Reader.Label}
    (hl : l.reads = some (s, l')) (h : Reader.lts.step x.reader l' r) :
    (∃ c, l = .run s ∧ x.pc = .copy c ∧ r.session = (x.conn.session.recvLocked c).1) ∨
      (∀ c, l = .run s → x.pc ≠ .copy c) ∧ r.session = x.conn.session := by
  obtain ⟨k, pc⟩ := x
  have hst := Reader.step_of_next h
  cases l with
  | own | deliver => cases hl
  | call | ret =>
    cases hl
    cases hst
    exact .inr ⟨(fun _ hn => by cases hn), rfl⟩
  | run =>
    cases hl
    cases hst with
    | enter | leave | acquire | wait | awake | go | fail =>
      exact .inr ⟨(fun _ _ hn => by cases hn), rfl⟩
    | finish | again => exact .inl ⟨_, rfl, rfl, rfl⟩

/-- **Each side sees a run of a connection.** -/
theorem conn_exec {t₀ : Tunnel} (h : (lts pingPong).Exec t₀ tr t) (s : Side) :
    (Conn.lts (pingPong s) DataWrite.Accepting).Exec (t₀.ends s).conn (connView s tr)
      (t.ends s).conn := by
  refine h.project (fun t => (t.ends s).conn) (connEvent s) ?_ ?_
  · intro t l t' hst e he
    cases step_of_next hst with
    | @own s' e' k _ hk =>
      simp only [connEvent, Option.mem_def, Option.ite_none_right_eq_some, Option.some.injEq] at he
      obtain ⟨rfl, rfl⟩ := he
      simpa using hk
    | @deliver s' env n k _ _ _ hk =>
      simp only [connEvent, Option.mem_def, Option.ite_none_right_eq_some, Option.some.injEq] at he
      obtain ⟨rfl, rfl⟩ := he
      simpa using hk
    | @reader _ s' l' r hl hr =>
      rcases conn_of_read hl hr with ⟨c, rfl, hpc, hs⟩ | ⟨hpc, -⟩
      · simp only [connEvent, hpc, Option.mem_def, Option.ite_none_right_eq_some,
          Option.some.injEq] at he
        obtain ⟨rfl, rfl⟩ := he
        simp only [setEnd_ends, hs]
        change Conn.next _ _ _ _ = _
        simp [Conn.next, Conn.writes, Conn.outcome]
      · unfold connEvent at he
        cases l with
        | own | deliver => cases hl
        | call | ret => cases he
        | run =>
          cases hl
          dsimp only at he
          split at he
          · rename_i c hc
            exact absurd hc (hpc c rfl)
          · cases he
  · intro t l t' hst he
    cases step_of_next hst with
    | @own s' e' k _ hk | @deliver s' env n k _ _ _ hk =>
      simp only [connEvent, ite_eq_right_iff, reduceCtorEq, imp_false] at he
      rw [setTransit_ends, setEnd_ends_of_ne t (Ne.symm he)]
    | @reader _ s' l' r hl hr =>
      by_cases hs : s' = s
      · subst hs
        rcases conn_of_read hl hr with ⟨c, rfl, hpc, -⟩ | ⟨-, hsame⟩
        · simp [connEvent, hpc] at he
        · simp only [setEnd_ends, hsame]
      · rw [setEnd_ends_of_ne t (Ne.symm hs)]

/-- No step continues a discontinued session. -/
theorem cont_of_step (h : (lts pingPong).step t l t') (s : Side)
    (hc : (t'.ends s).conn.session.cont = true) : (t.ends s).conn.session.cont = true := by
  cases step_of_next h with
  | @own s' e k _ hk | @deliver s' env n k _ _ _ hk =>
    by_cases hs : s = s'
    · subst hs
      rw [setTransit_ends, setEnd_ends] at hc
      exact Conn.cont_of_step hk hc
    · rwa [setTransit_ends, setEnd_ends_of_ne t hs] at hc
  | @reader _ s' l' r hl hr =>
    by_cases hs : s = s'
    · subst hs
      rw [setEnd_ends] at hc
      exact Reader.cont_of_step hr hc
    · rwa [setEnd_ends_of_ne t hs] at hc

/-- No callback moves the read position. -/
theorem recvOffset_of_callback {pp : ℤ} {reason : Reason} {env : Env} {buf : Bytes} {x : Session}
    (ho : reason.opens = false) :
    (x.handleSession pp env reason buf).session.recvOffset = x.recvOffset := by
  cases reason with
  | established | clientEstablished => cases ho
  | closed | clientConnectionError | other => rfl
  | receive | clientReceive =>
    simp only [Session.handleSession, Session.handleRecv, Session.handled]
    split_ifs <;> rfl
  | receivePong =>
    simp only [Session.handleSession]
    split_ifs <;> rfl
  | serverWriteable | clientWriteable => exact Session.handleWritable_keeps.recvOffset
  | sendRequest => exact Session.handleSendRequest_keeps.recvOffset
  | healthCheck =>
    simp only [Session.handleSession, Session.checkSession]
    split_ifs
    · exact Session.usbwsSendPing_keeps.recvOffset
    · rfl
    · exact Session.usbwsSendPing_keeps.recvOffset
    · exact Session.usbwsSendPing_keeps.recvOffset
    · rfl

/-- An event that delivers no frame and is no traversal leaves alone what the reader of a
continuing session sees. -/
theorem receiving_of_own {ok : DataWrite → Prop} [DecidablePred ok] {pp : ℤ} {k k' : Conn}
    {e : Event} (h : (Conn.lts pp ok).step k e k') (ho : isOwn e = true)
    (hc : k'.session.cont = true) : k'.session.receiving = k.session.receiving := by
  have hcont := Conn.cont_of_step h hc
  cases Conn.step_of_next h with
  | send | leave | ret => rfl
  | recv => cases ho
  | shutdown => cases hc
  | @callback reason env buf hopen =>
    have hr : reason.receives = false := by simpa [isOwn] using ho
    unfold Session.receiving
    rw [Conn.recvQueue_of_callback hopen hr hc, recvOffset_of_callback hopen, hc, hcont]

/-- A frame that is delivered is queued if there is memory for it. -/
theorem receiving_of_deliver {ok : DataWrite → Prop} [DecidablePred ok] {pp : ℤ} {k k' : Conn}
    {reason : Reason} {env : Env} {f : Bytes} (hr : reason.receives = true)
    (hb : env.binary = true) (h : (Conn.lts pp ok).step k (.callback reason env f) k') :
    k'.session.receiving =
      if env.malloc then k.session.receiving.arrive [f] else k.session.receiving := by
  cases Conn.step_of_next h with
  | callback hopen =>
    obtain ⟨hc, hq⟩ := @Conn.receive_step pp reason env f k.session hr
    unfold Session.receiving
    rw [hc, hq, recvOffset_of_callback hopen, hb]
    cases env.malloc <;> simp [Session.arrive]

/-- **As long as its session continues, each side sees a run of a reader.** -/
theorem reader_exec {now : Side → ℤ} (h : (lts pingPong).Exec (start now) tr t) (s : Side)
    (hc : (t.ends s).conn.session.cont = true) :
    Reader.lts.Exec (Reader.start 0) (readerView s tr) (t.ends s).reading := by
  have hcont := h.forall_of_last (fun _ _ _ hst => cont_of_step hst s) hc
  refine h.project_of_moves (fun t => (t.ends s).reading) (readerLabel s) hcont ?_ ?_
  · intro t l t' hst hC e he
    cases step_of_next hst with
    | own => cases he
    | @deliver s' env n k hb _ hlock hk =>
      simp only [readerLabel, Option.mem_def, Option.ite_none_right_eq_some,
        Option.some.injEq] at he
      obtain ⟨rfl, rfl⟩ := he
      have hq := receiving_of_deliver (by simp) hb hk
      change Reader.next _ _ = _
      simp only [Endpoint.reading, setTransit_ends, setEnd_ends, hq]
      cases hm : env.malloc
      · simp [Reader.next, hm, Session.handleRecv_session]
      · simp [Reader.next, hb, hm, hlock hm, Session.handleRecv_session]
    | @reader _ s' l' r hl hr =>
      have he' : l.reads.bind (fun x => if x.1 = s then some x.2 else none) = some e := by
        cases l with
        | own | deliver => cases hl
        | call | run | ret => exact he
      simp only [hl, Option.bind_some, Option.ite_none_right_eq_some, Option.some.injEq] at he'
      obtain ⟨rfl, rfl⟩ := he'
      simpa only [Endpoint.reading, Endpoint.reader, setEnd_ends] using Reader.step_receiving hr
  · intro t l t' hst hC he
    cases step_of_next hst with
    | @own s' e k ho hk =>
      by_cases hs : s = s'
      · subst hs
        have hc' : k.session.cont = true := by simpa using hC.2
        simp only [Endpoint.reading, setTransit_ends, setEnd_ends, receiving_of_own hk ho hc']
      · rw [setTransit_ends, setEnd_ends_of_ne t hs]
    | @deliver s' env n k hb _ _ hk =>
      have hs : s' ≠ s := by simpa [readerLabel] using he
      rw [setTransit_ends, setEnd_ends_of_ne t (Ne.symm hs)]
    | @reader _ s' l' r hl hr =>
      have he' : l.reads.bind (fun x => if x.1 = s then some x.2 else none) = none := by
        cases l with
        | own | deliver => cases hl
        | call | run | ret => exact he
      have hs : s ≠ s' := by
        rintro rfl
        simp [hl] at he'
      rw [setEnd_ends_of_ne t hs]

end Tunnel

end Usbws

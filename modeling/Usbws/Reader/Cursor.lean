import Mathlib.Algebra.BigOperators.Group.Finset.Piecewise
import Mathlib.Data.Fintype.Basic
import Usbws.Reader.Basic

/-!
# The read position

Any number of threads call `usbws_recv` on a session while the service thread queues frames.  They
share the queue and the read position `recv_offset`, and each of them holds `recv_queue_lock` for a
whole traversal.

* `Visit`, `RecvCall.visits` : what a traversal does with the frames one by one.
* `Visit.Sound` : something is copied whenever there is a copy, and a frame is unlinked only when it
  is used up or empty.
* `Readers` : a session with its readers.
* `Readers.cursor_invariant` : the invariant of the queue and the read position, and what follows
  from it for every traversal.
-/

namespace Usbws

open Framed

/-! ### The frames of a traversal -/

/-- What a traversal does with a frame. -/
structure Visit where
  frame : Bytes
  /-- `recv_offset` when the traversal comes to the frame. -/
  off : ℕ
  /-- `bytes`, if there is a copy. -/
  copied : Option ℕ
  /-- The frame is unlinked and freed. -/
  unlinked : Bool
  deriving DecidableEq, Repr

/-- There are bytes left whenever there is a copy, and a frame that is unlinked has been used up; if
there was no copy it is empty. -/
structure Visit.Sound (v : Visit) : Prop where
  rem_pos : v.copied ≠ none → 0 < v.frame.length - v.off
  used_up : v.unlinked = true → v.off + v.copied.getD 0 = v.frame.length
  empty : v.copied = none → v.frame = []

namespace RecvCall

/-- The frames that a traversal visits. -/
def visits : List Bytes → ℕ → RecvCall → List Visit
  | [], _, _ => []
  | f :: q, off, c =>
    if f.length ≤ off then ⟨f, off, none, true⟩ :: visits q 0 c
    else
      let bytes := c.chunk (f.length - off)
      let c := c.copyFrom f bytes
      if f.length ≤ off + bytes then
        ⟨f, off, some bytes, true⟩ :: if c.len ≤ c.total then [] else visits q 0 c
      else
        ⟨f, off, some bytes, false⟩ ::
          if c.len ≤ c.total then [] else visits q (off + bytes) c

variable {c : RecvCall} {f : Bytes} {q : List Bytes} {off : ℕ}

theorem visits_skip (h : f.length ≤ off) :
    c.visits (f :: q) off = ⟨f, off, none, true⟩ :: c.visits q 0 := by
  simp [visits, h]

theorem visits_part (h : off + c.len < f.length) :
    c.visits (f :: q) off = [⟨f, off, some c.len, false⟩] := by
  have hc := chunk_part h
  simp [visits, hc, show ¬ f.length ≤ off by omega, show ¬ f.length ≤ off + c.len by omega]

theorem visits_last (h : off < f.length) (hr : f.length ≤ off + c.len)
    (hl : c.len ≤ c.total + (f.length - off)) :
    c.visits (f :: q) off = [⟨f, off, some (f.length - off), true⟩] := by
  have hc := chunk_rest hr
  simp [visits, hc, hl, show ¬ f.length ≤ off by omega,
    show f.length ≤ off + (f.length - off) by omega]

theorem visits_next (h : off < f.length) (hl : c.total + (f.length - off) < c.len) :
    c.visits (f :: q) off = ⟨f, off, some (f.length - off), true⟩ ::
      (c.copyFrom f (f.length - off)).visits q 0 := by
  have hc := @chunk_rest c f off (by omega)
  simp [visits, hc, show ¬ f.length ≤ off by omega,
    show f.length ≤ off + (f.length - off) by omega,
    show ¬ c.len ≤ c.total + (f.length - off) by omega]

/-- **The visits account for the traversal**: the frames that are not unlinked stay in the queue, in
front of those not visited, and the bytes copied are counted. -/
theorem traverse_visits :
    (c.visits q off).map Visit.frame = q.take (c.visits q off).length ∧
      (c.traverse q off).1 = ((c.visits q off).filter fun v => !v.unlinked).map Visit.frame ++
        q.drop (c.visits q off).length ∧
      (c.traverse q off).2.2.total =
        c.total + ((c.visits q off).map fun v => v.copied.getD 0).sum := by
  induction q generalizing off c with
  | nil => simp [visits]
  | cons f q ih =>
    obtain h | h | ⟨h, hr, hl⟩ | ⟨h, hl⟩ := frame_cases c f off
    · rw [traverse_skip h, visits_skip h]
      simpa using @ih c 0
    · rw [traverse_part h, visits_part h]
      simp
    · rw [traverse_last h hr hl, visits_last h hr hl]
      simp
    · rw [traverse_next h hl, visits_next h hl]
      simpa [Nat.add_assoc] using @ih (c.copyFrom f (f.length - off)) 0

/-- With the read position in order a traversal treats every frame properly. -/
theorem visits_sound (h : CursorOk off q) : ∀ v ∈ c.visits q off, v.Sound := by
  induction q generalizing off c with
  | nil => simp [visits]
  | cons f q ih =>
    obtain hc | hc | ⟨hc, hr, hl⟩ | ⟨hc, hl⟩ := frame_cases c f off
    · rw [visits_skip hc, List.forall_mem_cons]
      have hoff : off = 0 := h.resolve_right (by omega)
      have hf : f.length = 0 := by omega
      refine ⟨⟨fun hn => absurd rfl hn, ?_, fun _ => List.length_eq_zero_iff.1 hf⟩,
        ih (cursorOk_zero q)⟩
      intro
      simp only [Option.getD_none]
      omega
    · rw [visits_part hc, List.forall_mem_singleton]
      refine ⟨?_, (fun hn => by cases hn), fun hn => by cases hn⟩
      intro
      dsimp only
      omega
    · rw [visits_last hc hr hl, List.forall_mem_singleton]
      refine ⟨?_, ?_, fun hn => by cases hn⟩
      · intro
        dsimp only
        omega
      · intro
        simp only [Option.getD_some]
        omega
    · rw [visits_next hc hl, List.forall_mem_cons]
      refine ⟨⟨?_, ?_, fun hn => by cases hn⟩, ih (cursorOk_zero q)⟩
      · intro
        dsimp only
        omega
      · intro
        simp only [Option.getD_some]
        omega

/-- A read position in order does not lie behind the queued frames. -/
theorem CursorOk.offset_le (h : CursorOk off q) : off ≤ (q.map List.length).sum := by
  cases q with
  | nil => exact le_of_eq h
  | cons f q =>
    rw [List.map_cons, List.sum_cons]
    rcases h with h | h <;> omega

/-- With the read position in order, what a traversal counts is what it takes off the queue. -/
theorem traverse_bytes (h : CursorOk off q) :
    (c.traverse q off).2.2.total +
      (((c.traverse q off).1.map List.length).sum - (c.traverse q off).2.1) =
        c.total + ((q.map List.length).sum - off) := by
  induction q generalizing off c with
  | nil =>
    rw [show off = 0 from h]
    rfl
  | cons f q ih =>
    simp only [List.map_cons, List.sum_cons]
    obtain hc | hc | ⟨hc, hr, hl⟩ | ⟨hc, hl⟩ := frame_cases c f off
    · have hoff : off = 0 := h.resolve_right (by omega)
      rw [traverse_skip hc, ih (cursorOk_zero q)]
      omega
    · rw [traverse_part hc]
      simp only [copyFrom_total, List.map_cons, List.sum_cons]
      omega
    · rw [traverse_last hc hr hl]
      simp only [copyFrom_total]
      omega
    · rw [traverse_next hc hl, ih (cursorOk_zero q), copyFrom_total]
      omega

end RecvCall

/-- A traversal takes frames only off the front of the queue, leaves the read position in order, and
counts what it takes. -/
theorem Session.recvLocked_cursor {s : Session} {c : RecvCall}
    (h : RecvCall.CursorOk s.recvOffset s.recvQueue) :
    (s.recvLocked c).1.recvQueue <:+ s.recvQueue ∧
      RecvCall.CursorOk (s.recvLocked c).1.recvOffset (s.recvLocked c).1.recvQueue ∧
      (s.recvLocked c).2.total +
        (((s.recvLocked c).1.recvQueue.map List.length).sum - (s.recvLocked c).1.recvOffset) =
          c.total + ((s.recvQueue.map List.length).sum - s.recvOffset) := by
  refine ⟨RecvCall.traverse_isSuffix, RecvCall.traverse_cursorOk ?_, RecvCall.traverse_bytes h⟩
  intro hq
  rwa [hq] at h

/-! ### The system -/

/-- The thread is about to take `recv_queue_lock`. -/
def RecvPc.isLock : RecvPc → Bool
  | lock _ => true
  | _ => false

/-- A session with the threads `T` that call `usbws_recv` on it. -/
structure Readers (T : Type*) where
  /-- The shared session. -/
  session : Session
  /-- Where each thread is. -/
  pcs : T → RecvPc

namespace Readers

/-- What can happen to a session and its readers. -/
inductive Label (T : Type*) where
  /-- A `RECEIVE` callback. -/
  | handleRecv (env : Env) (frame : Bytes)
  /-- Some thread runs `session->cont = 0`. -/
  | discontinue
  /-- A thread enters `usbws_recv`. -/
  | call (t : T) (len : ℕ) (all : Bool)
  /-- A thread makes its next step inside of `usbws_recv`. -/
  | run (t : T)
  /-- A thread returns from `usbws_recv`. -/
  | ret (t : T)
  deriving DecidableEq, Repr

variable {T : Type*}

/-- No thread holds `recv_queue_lock`. -/
def Unlocked (p : Readers T) : Prop := ∀ t, (p.pcs t).locked = false

instance [Fintype T] (p : Readers T) : Decidable p.Unlocked :=
  inferInstanceAs (Decidable (∀ t, (p.pcs t).locked = false))

/-- One thread makes a step. -/
def perform [DecidableEq T] (p : Readers T) (t : T) (l : Reader.Label) : Option (Readers T) :=
  (Reader.next ⟨p.session, p.pcs t⟩ l).map fun r => ⟨r.session, Function.update p.pcs t r.pc⟩

/-- The successor function. -/
def next [DecidableEq T] [Fintype T] (p : Readers T) : Label T → Option (Readers T)
  | .handleRecv env f =>
    if (env.binary && env.malloc) = true ∧ ¬ p.Unlocked then none
    else some { p with session := (p.session.handleRecv env f).session }
  | .discontinue => some { p with session := p.session.discontinue.session }
  | .call t len all => p.perform t (.call len all)
  | .run t => if (p.pcs t).isLock = true ∧ ¬ p.Unlocked then none else p.perform t .run
  | .ret t => p.perform t .ret

/-- The system. -/
def lts [DecidableEq T] [Fintype T] : LTS (Readers T) (Label T) := .ofNext next

/-- A freshly established session on which nobody has called yet. -/
def start (now : ℤ) : Readers T := ⟨.init now, fun _ => .idle⟩

/-- The moves of the system. -/
abbrev Move (T : Type*) := LTS.Move (Readers T) (Label T)

/-- The frames queued in a run, in the order of their arrival. -/
def queued : List (Move T) → List Bytes
  | [] => []
  | m :: tr =>
    match m.label with
    | .handleRecv env f => if env.binary && env.malloc then queued tr ++ [f] else queued tr
    | _ => queued tr

/-- The bytes counted by the calls that have returned. -/
def finished : List (Move T) → ℕ
  | [] => 0
  | m :: tr =>
    match m.label with
    | .ret t => finished tr + (m.pre.pcs t).current.total
    | _ => finished tr

/-- The bytes counted by the calls in progress. -/
def pending [Fintype T] (p : Readers T) : ℕ := ∑ t, (p.pcs t).current.total

/-- The invariant of the queue and the read position. -/
structure CursorInv [Fintype T] (tr : List (Move T)) (p : Readers T) : Prop where
  /-- The queue is what came last. -/
  suffix : p.session.recvQueue <:+ queued tr
  /-- The read position is 0 in an empty queue, and 0 or within the head otherwise. -/
  cursor : RecvCall.CursorOk p.session.recvOffset p.session.recvQueue
  /-- No byte is counted twice, and none is lost. -/
  bytes : finished tr + p.pending +
    ((p.session.recvQueue.map List.length).sum - p.session.recvOffset) =
      ((queued tr).map List.length).sum

/-- The traversal of a move, if it is one, treats every frame properly: it leaves the frames that it
does not unlink, counts what it copies, and empties the queue or fills its request. -/
def TraversalOk (m : Move T) : Prop :=
  ∀ t c, m.label = .run t → m.pre.pcs t = .copy c →
    let vs := c.visits m.pre.session.recvQueue m.pre.session.recvOffset
    (∀ v ∈ vs, v.Sound) ∧
      m.post.session.recvQueue = (vs.filter fun v => !v.unlinked).map Visit.frame ++
        m.pre.session.recvQueue.drop vs.length ∧
      (m.post.pcs t).current.total = c.total + (vs.map fun v => v.copied.getD 0).sum ∧
      (m.post.session.recvQueue = [] ∨ c.len ≤ (m.post.pcs t).current.total)

/-! ### The steps -/

/-- The thread that makes a step, and its own label. -/
def Label.thread : Label T → Option (T × Reader.Label)
  | .handleRecv _ _ | .discontinue => none
  | .call t len all => some (t, .call len all)
  | .run t => some (t, .run)
  | .ret t => some (t, .ret)

/-- The steps of the system one by one. -/
inductive Step [DecidableEq T] (p : Readers T) : Label T → Readers T → Prop
  | arrive {env : Env} {f : Bytes} : (env.binary && env.malloc) = true →
      Step p (.handleRecv env f) { p with session := p.session.arrive [f] }
  | refuse {env : Env} {f : Bytes} : (env.binary && env.malloc) = false →
      Step p (.handleRecv env f) p
  | discontinue : Step p .discontinue { p with session := { p.session with cont := false } }
  | thread {l : Label T} {t : T} {l' : Reader.Label} {r : Reader} : l.thread = some (t, l') →
      Reader.Step ⟨p.session, p.pcs t⟩ l' r →
      Step p l ⟨r.session, Function.update p.pcs t r.pc⟩

variable {p p' : Readers T} {l : Label T} {t : T} {m : Move T} {tr : List (Move T)}

theorem step_of_perform [DecidableEq T] {l' : Reader.Label} (hl : l.thread = some (t, l'))
    (h : p.perform t l' = some p') : Step p l p' := by
  unfold perform at h
  obtain ⟨r, hr, rfl⟩ := Option.map_eq_some_iff.1 h
  exact .thread hl (Reader.step_of_next hr)

theorem step_of_next [DecidableEq T] [Fintype T] (h : lts.step p l p') : Step p l p' := by
  change next p l = some p' at h
  cases l with
  | handleRecv env f =>
    simp only [next, Option.ite_none_left_eq_some, Option.some.injEq,
      Session.handleRecv_session] at h
    obtain ⟨-, rfl⟩ := h
    by_cases hq : (env.binary && env.malloc) = true
    · rw [if_pos hq]
      exact .arrive hq
    · rw [if_neg hq]
      exact .refuse (by simpa using hq)
  | discontinue => cases h; exact .discontinue
  | call t len all => exact step_of_perform rfl h
  | run t =>
    simp only [next, Option.ite_none_left_eq_some] at h
    exact step_of_perform rfl h.2
  | ret t => exact step_of_perform rfl h

/-! ### The invariant -/

/-- What the step of a thread keeps. -/
theorem cursor_step {r r' : Reader} {l' : Reader.Label} (hl : l.thread = some (t, l'))
    (hc : RecvCall.CursorOk r.session.recvOffset r.session.recvQueue) (h : Reader.Step r l' r') :
    r'.session.recvQueue <:+ r.session.recvQueue ∧
      RecvCall.CursorOk r'.session.recvOffset r'.session.recvQueue ∧
      (if l' = .ret then r.pc.current.total else 0) + r'.pc.current.total +
        ((r'.session.recvQueue.map List.length).sum - r'.session.recvOffset) =
          r.pc.current.total +
            ((r.session.recvQueue.map List.length).sum - r.session.recvOffset) := by
  cases h with
  | arrive | refuse | discontinue =>
    unfold Label.thread at hl
    split at hl <;> simp at hl
  | call | enter | leave | acquire | wait | awake | go | fail | ret =>
    exact ⟨List.suffix_rfl, hc, by simp [RecvPc.current, RecvPc.call]⟩
  | @finish s c hs =>
    obtain ⟨hq, ho, hb⟩ := @Session.recvLocked_cursor s c hc
    exact ⟨hq, ho, by simpa [RecvPc.current, RecvPc.call] using hb⟩
  | @again s c hs =>
    obtain ⟨hq, ho, hb⟩ := @Session.recvLocked_cursor s c hc
    exact ⟨hq, ho, by simpa [RecvPc.current, RecvPc.call] using hb⟩

theorem queued_of_thread {x : T × Reader.Label} (h : m.label.thread = some x) :
    queued (m :: tr) = queued tr := by
  obtain ⟨p, l, p'⟩ := m
  cases l with
  | handleRecv | discontinue => cases h
  | call | run | ret => rfl

theorem finished_of_thread {l' : Reader.Label} (h : m.label.thread = some (t, l')) :
    finished (m :: tr) =
      finished tr + if l' = .ret then (m.pre.pcs t).current.total else 0 := by
  obtain ⟨p, l, p'⟩ := m
  cases l with
  | handleRecv | discontinue => cases h
  | call | run | ret => cases h; rfl

/-- A step of one thread changes the sum of the counts by what it changes its own count. -/
theorem pending_update [DecidableEq T] [Fintype T] (s : Session) (pc : RecvPc) :
    pending ⟨s, Function.update p.pcs t pc⟩ + (p.pcs t).current.total =
      p.pending + pc.current.total := by
  have ht := Finset.mem_univ t
  have hg : ∀ u, (Function.update p.pcs t pc u).current.total =
      Function.update (fun u => (p.pcs u).current.total) t pc.current.total u := fun u =>
    Function.apply_update (fun _ (x : RecvPc) => x.current.total) p.pcs t pc u
  unfold pending
  simp only [hg]
  rw [Finset.sum_update_of_mem ht, Finset.sum_eq_add_sum_sdiff_singleton_of_mem ht]
  omega

theorem start_cursorInv [Fintype T] (now : ℤ) : CursorInv [] (start now : Readers T) :=
  ⟨List.suffix_rfl, rfl, by simp [finished, queued, pending, start, Session.init, RecvPc.current,
    RecvPc.call]⟩

theorem CursorInv.step [DecidableEq T] [Fintype T] (h : CursorInv tr p) (hst : lts.step p l p') :
    CursorInv (⟨p, l, p'⟩ :: tr) p' := by
  obtain ⟨hs, hc, hb⟩ := h
  cases step_of_next hst with
  | @arrive env f hq =>
    have hqueued : ∀ p' : Readers T, queued (⟨p, .handleRecv env f, p'⟩ :: tr) = queued tr ++ [f] :=
      fun _ => if_pos hq
    refine ⟨?_, hc.append [f], ?_⟩
    · rw [hqueued]
      exact List.suffix_append_self_iff.2 hs
    · rw [hqueued]
      have hle := hc.offset_le
      simp only [Session.arrive_recvQueue, Session.arrive_recvOffset, List.map_append,
        List.map_cons, List.map_nil, List.sum_append, List.sum_cons, List.sum_nil, finished, ← hb]
      change _ + p.pending + _ = _
      omega
  | @refuse env f hq =>
    have hqueued : queued (⟨p, .handleRecv env f, p⟩ :: tr) = queued tr :=
      if_neg (by rw [hq]; simp)
    exact ⟨hqueued ▸ hs, hc, by rw [hqueued]; exact hb⟩
  | discontinue => exact ⟨hs, hc, hb⟩
  | @thread l t l' r hl hr =>
    obtain ⟨hs', hc', hb'⟩ := cursor_step hl hc hr
    refine ⟨?_, hc', ?_⟩
    · rw [queued_of_thread hl]
      exact hs'.trans hs
    · rw [queued_of_thread hl, finished_of_thread hl, ← hb]
      have hp := @pending_update T p t _ _ r.session r.pc
      dsimp only at hb' ⊢
      omega

theorem cursorInv_of_exec [DecidableEq T] [Fintype T] {now : ℤ}
    (he : lts.Exec (start now) tr p) : CursorInv tr p := by
  induction he with
  | nil => exact start_cursorInv now
  | snoc _ hst ih => exact ih.step hst

/-- A traversal from a read position in order. -/
theorem CursorInv.traversalOk [DecidableEq T] [Fintype T] (h : CursorInv tr p)
    (hst : lts.step p l p') : TraversalOk ⟨p, l, p'⟩ := by
  rintro t c rfl hpc
  change p.pcs t = .copy c at hpc
  -- the session and the count behind the traversal
  have hpost : p'.session = (p.session.recvLocked c).1 ∧
      (p'.pcs t).current = (p.session.recvLocked c).2 := by
    cases step_of_next hst with
    | thread hl hr =>
      cases hl
      rw [hpc] at hr
      cases hr with
      | finish | again => simp [RecvPc.current, RecvPc.call]
  obtain ⟨-, hqueue, htotal⟩ :=
    @RecvCall.traverse_visits c p.session.recvQueue p.session.recvOffset
  dsimp only
  rw [hpost.1, hpost.2]
  refine ⟨RecvCall.visits_sound h.cursor, hqueue, htotal, ?_⟩
  by_cases hlt : (p.session.recvLocked c).2.total < c.len
  · exact .inl (RecvCall.traverse_empties hlt)
  · exact .inr (not_lt.1 hlt)

/-- **The receive cursor invariant.**  Whatever frames are queued and whoever calls `usbws_recv` for
how many bytes, the queue is a suffix of the frames queued, the read position lies within its head,
and the bytes counted and those left are the bytes queued; and every traversal of the run copies
only from frames with bytes left, unlinks only frames that are used up or empty, and empties the
queue or fills its request. -/
theorem cursor_invariant [DecidableEq T] [Fintype T] {now : ℤ} (he : lts.Exec (start now) tr p) :
    CursorInv tr p ∧ ∀ m ∈ tr, TraversalOk m := by
  refine ⟨cursorInv_of_exec he, ?_⟩
  induction he with
  | nil => simp
  | snoc hex hst ih =>
    rw [List.forall_mem_cons]
    exact ⟨(cursorInv_of_exec hex).traversalOk hst, ih⟩

/-- Two threads, an empty frame, and a head that is used up at the end of a request. -/
theorem cursor_invariant_of_two : ∃ tr, ∃ p : Readers Bool, lts.Exec (start 0) tr p ∧
    queued tr = [[1, 2, 3], [], [4, 5]] ∧ finished tr = 4 ∧ p.session.recvQueue = [[4, 5]] ∧
    p.session.recvOffset = 1 ∧ CursorInv tr p ∧ ∀ m ∈ tr, TraversalOk m := by
  obtain ⟨tr, p, he, hq, hf, hr, ho⟩ : ∃ tr, ∃ p : Readers Bool, lts.Exec (start 0) tr p ∧
      queued tr = [[1, 2, 3], [], [4, 5]] ∧ finished tr = 4 ∧ p.session.recvQueue = [[4, 5]] ∧
      p.session.recvOffset = 1 :=
    LTS.exists_exec_of_replay
      [.call true 2 true, .call false 1 false, .run true, .run true, .run true,
        .handleRecv {} [1, 2, 3], .handleRecv {} [], .run false, .run true, .run true, .run true,
        .run true, .ret true, .run false, .run false, .run false, .run false, .ret false,
        .handleRecv { binary := false } [6], .handleRecv {} [4, 5], .call true 1 true, .run true,
        .run true, .run true, .run true, .run true, .ret true] _ (fun _ _ _ h => h) (by decide)
  exact ⟨tr, p, he, hq, hf, hr, ho, cursor_invariant he⟩

end Readers

end Usbws

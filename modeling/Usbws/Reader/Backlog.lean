import Usbws.Data.Ledger
import Usbws.Reader.Basic

/-!
# The blocks of the receive queue

`usbws_handle_recv` allocates a `struct usbws_recv_buf` for each frame that it queues, and
`usbws_recv` frees the ones it has used up.  `usbws_session_close` unlinks what is left, but does
not free it.

* `RecvBuf` : a queued frame with the block it occupies; `RecvCall.traverseFree` is the traversal of
  `recv_queue` with its calls of `free`.
* `Backlog` : a session with its reader, the blocks of its queue and the ledger of the allocator, to
  the end of its `CLOSED` callback.
* `Backlog.leaked` : the blocks unlinked by `usbws_session_close`.
* `Backlog.disposed_iff` : every block is on the queue exactly while it is live, and freed exactly
  once in the end, if and only if `usbws_session_close` finds the queue empty.
-/

namespace Usbws

/-- A `struct usbws_recv_buf` : the block it occupies and the bytes of its frame. -/
structure RecvBuf where
  /-- The block that `malloc` gave. -/
  block : ℕ
  /-- The bytes of the frame. -/
  buf : Bytes
  deriving DecidableEq, Repr

/-- `sizeof(struct usbws_recv_buf)` : two pointers and an `int`, with pointers of eight bytes. -/
def sizeofRecvBuf : ℕ := 24

namespace RecvCall

/-- The traversal of `recv_queue` with its calls of `free` : what `traverse` gives, and the ledger
behind it. -/
def traverseFree : List RecvBuf → ℕ → RecvCall → Ledger → List RecvBuf × ℕ × RecvCall × Ledger
  | [], off, c, L => ([], off, c, L)
  | p :: q, off, c, L =>
    if p.buf.length ≤ off then traverseFree q 0 c (L.free p.block)
    else
      let bytes := c.chunk (p.buf.length - off)
      let c := c.copyFrom p.buf bytes
      let off := off + bytes
      if p.buf.length ≤ off then
        if c.len ≤ c.total then (q, 0, c, L.free p.block)
        else traverseFree q 0 c (L.free p.block)
      else if c.len ≤ c.total then (p :: q, off, c, L)
      else
        let r := traverseFree q off c L
        (p :: r.1, r.2)

variable {c : RecvCall} {q : List RecvBuf} {off : ℕ} {L : Ledger}

/-- Apart from the blocks it is the traversal of the frames. -/
theorem traverseFree_traverse :
    (c.traverseFree q off L).1.map RecvBuf.buf = (c.traverse (q.map RecvBuf.buf) off).1 ∧
      (c.traverseFree q off L).2.1 = (c.traverse (q.map RecvBuf.buf) off).2.1 ∧
      (c.traverseFree q off L).2.2.1 = (c.traverse (q.map RecvBuf.buf) off).2.2 := by
  induction q generalizing off c L with
  | nil => exact ⟨rfl, rfl, rfl⟩
  | cons p q ih =>
    simp only [List.map_cons, traverse, traverseFree]
    split_ifs
    · exact ih
    · exact ⟨rfl, rfl, rfl⟩
    · exact ih
    · exact ⟨rfl, rfl, rfl⟩
    · obtain ⟨h₁, h₂, h₃⟩ := @ih (c.copyFrom p.buf (c.chunk (p.buf.length - off)))
        (off + c.chunk (p.buf.length - off)) L
      exact ⟨by rw [List.map_cons, h₁], h₂, h₃⟩

/-- **A traversal frees what it unlinks**: if the queue and somebody else own all live blocks, they
do so behind the traversal. -/
theorem traverseFree_accounts {rest : List ℕ} (h : L.Accounts (q.map RecvBuf.block ++ rest)) :
    (c.traverseFree q off L).2.2.2.Accounts
      ((c.traverseFree q off L).1.map RecvBuf.block ++ rest) := by
  induction q generalizing off c L rest with
  | nil => exact h
  | cons p q ih =>
    simp only [traverseFree]
    split_ifs
    · exact ih h.free
    · exact h.free
    · exact ih h.free
    · exact h
    · exact (ih (h.perm List.perm_middle.symm)).perm List.perm_middle

end RecvCall

/-- A session with its reader and the blocks of its queue. -/
structure Backlog where
  /-- The session. -/
  session : Session
  /-- Where the reader is. -/
  pc : RecvPc
  /-- The nodes of `recv_queue`. -/
  nodes : List RecvBuf
  /-- The history of the allocator. -/
  ledger : Ledger
  /-- `usbws_session_close` has unlinked the queue. -/
  closed : Bool
  deriving DecidableEq, Repr

namespace Backlog

/-- What can happen to a session. -/
inductive Label where
  /-- A `RECEIVE` callback. -/
  | handleRecv (env : Env) (frame : Bytes)
  /-- `usbws_session_discontinue`. -/
  | discontinue
  /-- The reader enters `usbws_recv`. -/
  | call (len : ℕ) (all : Bool)
  /-- The reader makes its next step inside of `usbws_recv`. -/
  | run
  /-- The reader returns from `usbws_recv`. -/
  | ret
  /-- `usbws_session_close` in the `CLOSED` callback. -/
  | close
  deriving DecidableEq, Repr

/-- The successor function. -/
def next (p : Backlog) : Label → Option Backlog
  | .handleRecv env f =>
    if p.closed then none
    else if env.binary && env.malloc then
      if p.pc.locked then none
      else some { p with
        session := (p.session.handleRecv env f).session
        nodes := p.nodes ++ [⟨p.ledger.fresh, f⟩]
        ledger := p.ledger.alloc (sizeofRecvBuf + f.length) }
    else some { p with session := (p.session.handleRecv env f).session }
  | .discontinue => some { p with session := p.session.discontinue.session }
  | .call len all =>
    if p.pc = .idle then some { p with pc := .outer { len := len, all := all } } else none
  | .run =>
    match p.pc with
    | .copy c =>
      (Reader.advance p.session p.pc).map fun r =>
        let t := c.traverseFree p.nodes p.session.recvOffset p.ledger
        { p with session := r.session, pc := r.pc, nodes := t.1, ledger := t.2.2.2 }
    | _ => (Reader.advance p.session p.pc).map fun r => { p with session := r.session, pc := r.pc }
  | .ret =>
    match p.pc with
    | .done _ _ => some { p with pc := .idle }
    | _ => none
  | .close =>
    if p.closed || p.pc.locked then none
    else some { p with session := p.session.close.session, nodes := [], closed := true }

/-- The system. -/
def lts : LTS Backlog Label := .ofNext next

/-- A freshly established session with an allocator of its own. -/
def start (now : ℤ) : Backlog := ⟨.init now, .idle, [], .empty, false⟩

/-- The moves of the system. -/
abbrev Move := LTS.Move Backlog Label

/-- Every block is on the queue exactly while it is live, none was freed twice, and when the queue
has been closed every one has been freed exactly once. -/
structure Disposed (p : Backlog) : Prop where
  queued : ∀ b, p.ledger.Live b ↔ b ∈ p.nodes.map RecvBuf.block
  once : p.ledger.frees.Nodup
  balanced : p.closed = true → p.ledger.Balanced

/-- The blocks unlinked by `usbws_session_close` in a run. -/
def leaked : List Move → List ℕ
  | [] => []
  | m :: tr => if m.label = .close then m.pre.nodes.map RecvBuf.block ++ leaked tr else leaked tr

/-! ### The steps -/

/-- The steps of the system one by one. -/
inductive Step (p : Backlog) : Label → Backlog → Prop
  | arrive {env : Env} {f : Bytes} : p.closed = false → Step p (.handleRecv env f)
      { p with
        session := p.session.arrive [f], nodes := p.nodes ++ [⟨p.ledger.fresh, f⟩]
        ledger := p.ledger.alloc (sizeofRecvBuf + f.length) }
  | refuse {env : Env} {f : Bytes} : Step p (.handleRecv env f) p
  | discontinue : Step p .discontinue { p with session := { p.session with cont := false } }
  | call {len : ℕ} {all : Bool} : p.pc = .idle → Step p (.call len all)
      { p with pc := .outer { len := len, all := all } }
  | move {pc : RecvPc} : Step p .run { p with pc := pc }
  | copy {c : RecvCall} {pc : RecvPc} : p.pc = .copy c → Step p .run
      { p with
        session := (p.session.recvLocked c).1, pc := pc
        nodes := (c.traverseFree p.nodes p.session.recvOffset p.ledger).1
        ledger := (c.traverseFree p.nodes p.session.recvOffset p.ledger).2.2.2 }
  | ret : Step p .ret { p with pc := .idle }
  | close : p.closed = false → Step p .close
      { p with session := p.session.close.session, nodes := [], closed := true }

variable {p p' : Backlog} {l : Label} {tr : List Move}

theorem step_of_next (h : lts.step p l p') : Step p l p' := by
  change next p l = some p' at h
  cases l with
  | handleRecv env f =>
    simp only [next, Option.ite_none_left_eq_some] at h
    obtain ⟨hc, h⟩ := h
    rw [Session.handleRecv_session] at h
    split_ifs at h with hb hl
    · cases h
      exact .arrive (by simpa using hc)
    · cases h
      exact .refuse
  | discontinue => cases h; exact .discontinue
  | call len all =>
    simp only [next, Option.ite_none_right_eq_some, Option.some.injEq] at h
    obtain ⟨hpc, rfl⟩ := h
    exact .call hpc
  | run =>
    simp only [next] at h
    split at h
    · rename_i c hpc
      rw [hpc] at h
      cases h
      exact .copy hpc
    · rename_i hpc
      obtain ⟨r, hr, rfl⟩ := Option.map_eq_some_iff.1 h
      -- apart from the traversal the reader only moves on
      have hs : r.session = p.session := by
        cases hp : p.pc with
        | idle | done => rw [hp] at hr; cases hr
        | copy c => exact absurd hp (hpc c)
        | outer | lock | inner | check => rw [hp] at hr; cases hr; rfl
      rw [hs]
      exact .move
  | ret =>
    simp only [next] at h
    split at h
    · cases h; exact .ret
    · cases h
  | close =>
    simp only [next, Option.ite_none_left_eq_some, Option.some.injEq] at h
    obtain ⟨hc, rfl⟩ := h
    refine .close ?_
    cases hp : p.closed
    · rfl
    · simp [hp] at hc

/-! ### The accounts -/

/-- What holds of a session and its blocks behind a run. -/
structure Ok (tr : List Move) (p : Backlog) : Prop where
  /-- The nodes hold the frames of the queue. -/
  queue : p.session.recvQueue = p.nodes.map RecvBuf.buf
  /-- A live block is on the queue, or it has been unlinked without being freed. -/
  accounts : p.ledger.Accounts (p.nodes.map RecvBuf.block ++ leaked tr)
  closed : p.closed = true → p.nodes = []

theorem start_ok (now : ℤ) : Ok [] (start now) := ⟨rfl, Ledger.accounts_empty, fun h => by cases h⟩

theorem Ok.step (h : Ok tr p) (hst : lts.step p l p') : Ok (⟨p, l, p'⟩ :: tr) p' := by
  cases step_of_next hst with
  | @arrive env f hc =>
    refine ⟨by simp [h.queue], ?_, fun hn => by simp [hc] at hn⟩
    have hacc := h.accounts.alloc (sizeofRecvBuf + f.length)
    simp only [leaked, List.map_append, List.map_cons, List.map_nil, List.append_assoc,
      List.cons_append, List.nil_append]
    exact hacc.perm List.perm_middle.symm
  | refuse | discontinue | call | move | ret => exact ⟨h.queue, h.accounts, h.closed⟩
  | @copy c pc hpc =>
    refine ⟨?_, RecvCall.traverseFree_accounts h.accounts, fun hn => ?_⟩
    · simp only [Session.recvLocked, h.queue]
      exact RecvCall.traverseFree_traverse.1.symm
    · rw [h.closed hn]
      rfl
  | close => exact ⟨rfl, h.accounts, fun _ => rfl⟩

theorem ok_of_exec {now : ℤ} (he : lts.Exec (start now) tr p) : Ok tr p := by
  induction he with
  | nil => exact start_ok now
  | snoc _ hst ih => exact ih.step hst

/-- Every block is disposed of properly exactly if `usbws_session_close` unlinked none. -/
theorem Ok.disposed_iff_leaked (h : Ok tr p) : p.Disposed ↔ leaked tr = [] := by
  constructor
  · intro hd
    by_contra hn
    obtain ⟨b, hb⟩ := List.exists_mem_of_ne_nil _ hn
    -- such a block is live, but not on the queue
    have hq := (hd.queued b).1 (h.accounts.live_iff.2 (List.mem_append_right _ hb))
    exact (List.nodup_append.1 h.accounts.nodup).2.2 b hq b hb rfl
  · intro hl
    have hacc := h.accounts
    rw [hl, List.append_nil] at hacc
    refine ⟨fun b => hacc.live_iff, hacc.nodup_frees, fun hc => ?_⟩
    rw [hacc.balanced_iff, h.closed hc]
    rfl

theorem leaked_eq_nil_iff {now : ℤ} (he : lts.Exec (start now) tr p) :
    leaked tr = [] ↔ ∀ m ∈ tr, m.label = .close → m.pre.session.recvQueue = [] := by
  induction he with
  | nil => simp [leaked]
  | @snoc tr p p' l hex hst ih =>
    have hq := (ok_of_exec hex).queue
    rw [List.forall_mem_cons, ← ih, leaked]
    by_cases hl : l = .close
    · simp [hl, hq]
    · simp [hl]

/-- **Every queued frame is disposed of exactly once**, in a run of a session up to the end of its
`CLOSED` callback, if and only if `usbws_session_close` finds `recv_queue` empty. -/
theorem disposed_iff {now : ℤ} (he : lts.Exec (start now) tr p) :
    p.Disposed ↔ ∀ m ∈ tr, m.label = .close → m.pre.session.recvQueue = [] :=
  (ok_of_exec he).disposed_iff_leaked.trans (leaked_eq_nil_iff he)

/-- Two frames, the first one read in two parts, have been read up at the close. -/
theorem disposed_of_read_up : ∃ tr p, lts.Exec (start 0) tr p ∧ p.closed = true ∧
    p.ledger.sizes.length = 2 ∧ p.Disposed := by
  obtain ⟨tr, p, he, hc, hn, h⟩ : ∃ tr p, lts.Exec (start 0) tr p ∧ p.closed = true ∧
      p.ledger.sizes.length = 2 ∧
      ∀ m ∈ tr, m.label = .close → m.pre.session.recvQueue = [] :=
    LTS.exists_exec_of_replay
      [.handleRecv {} [1, 2], .handleRecv {} [3], .call 1 false, .run, .run, .run, .run, .run, .ret,
        .call 2 true, .run, .run, .run, .run, .run, .ret, .close] _ (fun _ _ _ h => h) (by decide)
  exact ⟨tr, p, he, hc, hn, (disposed_iff he).2 h⟩

/-- A frame that nobody has read is unlinked at the close, but not freed. -/
theorem not_disposed_of_backlog : ∃ tr p, lts.Exec (start 0) tr p ∧ p.closed = true ∧
    p.ledger.Live 0 ∧ p.nodes = [] ∧ ¬ p.Disposed := by
  obtain ⟨tr, p, he, hc, hl, hn⟩ : ∃ tr p, lts.Exec (start 0) tr p ∧ p.closed = true ∧
      p.ledger.Live 0 ∧ p.nodes = [] :=
    LTS.exists_exec_of_replay [.handleRecv {} [1], .close] _ (fun _ _ _ h => h) (by decide)
  refine ⟨tr, p, he, hc, hl, hn, fun hd => ?_⟩
  have := (hd.queued 0).1 hl
  rw [hn] at this
  cases this

end Backlog

end Usbws

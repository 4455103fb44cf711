import Usbws.Reader.Integrity
import Usbws.Wakeup.Signals

/-!
# The reader statement by statement

The results about the received stream rest on a model of `usbws_recv` in which taking the lock, the
inner test with the call of `pthread_cond_wait`, and the traversal with what follows it are single
steps.  With the locks and the statements of all threads of a session the reader does the same.

* `RecvPoint.coarse` : the program point of that model.
* `Wakeup.reader_refines` : up to `CLOSED`, every run of the statements is one of the coarser model,
  with the same frames queued and the same calls returned.
* `Wakeup.intact_iff_goodTraversals` : so the calls hold the received stream if every traversal is
  good.
-/

namespace Usbws

open Monitor

/-! ### Program points -/

namespace RecvPoint

/-- The program point of `usbws_recv` between its larger steps, for a reader at the given stage of
its monitor. -/
def coarse (st : Stage) : RecvPoint → RecvPc
  | .idle => .idle
  | .outer c => .outer c
  | .locking c => .lock c
  -- behind its test the reader has decided to wait, although it still has the lock
  | .loop c => if st = .testing then .inner c else .lock c
  | .check c => .check c
  | .failing c => .done c (-1)
  | .copy c => .copy c
  -- the traversal has decided how the call goes on
  | .unlocking c | .judge c => if c.satisfied then .done c c.total else .outer c
  | .done c ret => .done c ret

/-- The larger step that the next statement is, if it is one. -/
def larger (st : Stage) : RecvPoint → Option Reader.Label
  | .outer _ | .locking _ | .check _ | .copy _ => some .run
  | .loop _ => if st = .committed then none else some .run
  | .done _ _ => some .ret
  | .idle | .failing _ | .unlocking _ | .judge _ => none

/-- The reader queues no frame itself. -/
theorem larger_ne_handleRecv {st : Stage} {pc : RecvPoint} {env : Env} {f : Bytes} :
    pc.larger st ≠ some (.handleRecv env f) := by
  cases pc with
  | loop => by_cases h : st = .committed <;> simp [larger, h]
  | _ => simp [larger]

variable {N : Type*} {sh sh' : Shared N} {pc pc' : RecvPoint}

/-- A reader that holds its lock in the coarser model holds it. -/
theorem owns_of_locked (hs : pc.place.Ok sh.recv.stage)
    (hl : (pc.coarse sh.recv.stage).locked = true) : sh.recv.stage.owns = true := by
  cases pc with
  | idle | outer | locking | failing | done => cases hl
  | unlocking | judge =>
    dsimp only [coarse] at hl
    split_ifs at hl <;> cases hl
  | loop =>
    dsimp only [coarse] at hl
    split_ifs at hl with ht
    · rw [ht]
      rfl
    · cases hl
  | check | copy =>
    rw [show sh.recv.stage = .inside from hs]
    rfl

/-- **A statement of the reader** is a step of the coarser model, or none at all. -/
theorem coarse_of_next (h : pc.next sh = some (sh', pc')) (hs : pc.place.Ok sh.recv.stage) :
    match pc.larger sh.recv.stage with
    | some l => Reader.lts.step ⟨sh.session, pc.coarse sh.recv.stage⟩ l
        ⟨sh'.session, pc'.coarse sh'.recv.stage⟩
    | none => sh'.session = sh.session ∧
        pc'.coarse sh'.recv.stage = pc.coarse sh.recv.stage := by
  cases pc with
  | idle => cases h
  | outer c =>
    cases h
    change Reader.next _ _ = _
    simp only [Reader.next, Reader.advance, coarse]
    split_ifs <;> rfl
  | judge c =>
    cases h
    refine ⟨rfl, ?_⟩
    by_cases hc : c.satisfied = true <;> simp [coarse, hc]
  | check c =>
    cases h
    change Reader.next _ _ = _
    simp only [Reader.next, Reader.advance, coarse]
    split_ifs <;> rfl
  | copy c => cases h; rfl
  | done => cases h; rfl
  | locking c =>
    obtain ⟨m, hm, hr⟩ := Option.map_eq_some_iff.1 h
    cases hr
    simp only [Monitor.enter, Option.ite_none_right_eq_some, Option.some.injEq] at hm
    rw [← hm.2]
    rfl
  | failing c =>
    obtain ⟨m, hm, hr⟩ := Option.map_eq_some_iff.1 h
    cases hr
    exact ⟨rfl, rfl⟩
  | unlocking c =>
    obtain ⟨m, hm, hr⟩ := Option.map_eq_some_iff.1 h
    cases hr
    exact ⟨rfl, rfl⟩
  | loop c =>
    obtain ⟨m, hm, hr⟩ := Option.map_eq_some_iff.1 h
    cases hr
    unfold Monitor.turn at hm
    split at hm
    · -- the test of the loop condition
      rename_i ht
      obtain ⟨-, rfl⟩ := test_eq_some hm
      have hl : larger sh.recv.stage (.loop c) = some .run := by simp [larger, ht]
      rw [hl]
      change Reader.next _ _ = _
      by_cases hc : (sh.session.cont && sh.session.recvQueue.isEmpty) = true <;>
        simp [Reader.next, Reader.advance, coarse, ht, hc, Shared.setRecv]
    · -- the call of the wait function
      rename_i ht
      simp only [Monitor.sleep, Option.ite_none_right_eq_some, Option.some.injEq] at hm
      rw [← hm.2]
      have hl : larger sh.recv.stage (.loop c) = none := by simp [larger, ht]
      rw [hl]
      exact ⟨rfl, by simp [coarse, ht, Shared.setRecv]⟩
    · -- its return
      rename_i hn hn'
      have ht : sh.recv.stage ≠ .testing := hn
      have ht' : sh.recv.stage ≠ .committed := hn'
      simp only [Monitor.wake, Option.ite_none_right_eq_some, Option.some.injEq] at hm
      rw [← hm.2]
      have hl : larger sh.recv.stage (.loop c) = some .run := by simp [larger, ht']
      rw [hl]
      change Reader.next _ _ = _
      simp [Reader.next, Reader.advance, coarse, ht, Shared.setRecv]

theorem coarse_congr {st st' : Stage} (h : st' = .testing ↔ st = .testing) (pc : RecvPoint) :
    pc.coarse st' = pc.coarse st := by
  cases pc with
  | loop => simp only [coarse, h]
  | _ => rfl

theorem eq_copy_of_coarse {st : Stage} {pc : RecvPoint} {c : RecvCall}
    (h : pc.coarse st = .copy c) : pc = .copy c := by
  cases pc with
  | copy => cases h; rfl
  | loop | unlocking | judge =>
    dsimp only [coarse] at h
    split_ifs at h
  | _ => cases h

end RecvPoint

/-! ### Tasks -/

theorem Monitor.Uses.testing_iff {N : Type*} {t : N} {m m' : Monitor N} {holds holds' : Bool}
    (h : Uses t m m' holds holds') : m'.stage = .testing ↔ m.stage = .testing := by
  rcases h.stage with hs | ⟨hs, hs'⟩
  · rw [hs]
  · rw [hs, hs']
    simp

/-- The step of the coarser model that the next statement of a task is, if it is one. -/
def Task.larger : Task → Option Reader.Label
  | .queueing f => some (.handleRecv {} f)
  | .discontinuing => some .discontinue
  | _ => none

/-- What the reader sees behind a statement of a task, other than the loop of
`usbws_session_close`. -/
theorem Task.receiving_of_next {N : Type*} {sh sh' : Shared N} {t : N} {sent : ℤ} {k k' : Task}
    (h : k.next sh t sent = some (sh', k')) (hk : k ≠ .unlinking) :
    match k.larger with
    | some l => ∀ pc : RecvPc, (∀ env f, l = .handleRecv env f → pc.locked = false) →
        Reader.lts.step ⟨sh.session.receiving, pc⟩ l ⟨sh'.session.receiving, pc⟩
    | none => sh'.session.receiving = sh.session.receiving := by
  cases k with
  | idle => cases h
  | arrived | closing | completing | sendLock | recvLock =>
    obtain ⟨m, -, hr⟩ := Option.map_eq_some_iff.1 h
    cases hr
    rfl
  | unlinking => exact absurd rfl hk
  | queueing f =>
    cases h
    intro pc hl
    change Reader.next _ _ = _
    simp only [Reader.next, hl {} f rfl, Bool.false_eq_true, and_false, if_false]
    rfl
  | discontinuing =>
    cases h
    exact fun _ _ => rfl
  | _ => cases h; rfl

/-- A sender does nothing that the reader sees. -/
theorem SendPoint.receiving_of_next {N : Type*} {sh sh' : Shared N} {pc pc' : SendPoint}
    (h : pc.next sh = some (sh', pc')) : sh'.session.receiving = sh.session.receiving := by
  cases pc with
  | idle => cases h
  | bufSet | lenSet | request | leaving => cases h; rfl
  | locking | loop | unlocking =>
    obtain ⟨m, -, hr⟩ := Option.map_eq_some_iff.1 h
    cases hr
    rfl

/-! ### The refinement -/

namespace Wakeup

variable {T : Type*}

/-- The session and its reader in the coarser model. -/
def reading (p : Wakeup T) : Reader :=
  ⟨p.shared.session.receiving, p.reader.coarse p.shared.recv.stage⟩

/-- The step of the coarser model in a move. -/
def readerLabel (m : Move T) : Option Reader.Label :=
  match m.label with
  | .recv len all => some (.call len all)
  | .reader => m.pre.reader.larger m.pre.shared.recv.stage
  | .task t _ => (m.pre.task t).larger
  | _ => none

/-- A run of the statements in the coarser model. -/
def readerView (tr : List (Move T)) : List Reader.Move := LTS.project reading readerLabel tr

/-- A call asks for something, and the queue is not emptied by `usbws_session_close`. -/
def Ordinary (m : Move T) : Prop :=
  match m.label with
  | .recv len _ => 0 < len
  | .task t _ => m.pre.task t ≠ .unlinking
  | _ => True

/-- The frames queued by `list_add_tail` in a run, oldest first. -/
def queuedOf : List (Move T) → List Bytes
  | [] => []
  | m :: tr =>
    match m.label with
    | .task t _ =>
      match m.pre.task t with
      | .queueing f => queuedOf tr ++ [f]
      | _ => queuedOf tr
    | _ => queuedOf tr

/-- The calls of `usbws_recv` that have returned, with their values, latest first. -/
def returnsOf : List (Move T) → List (RecvCall × ℤ)
  | [] => []
  | m :: tr =>
    match m.label, m.pre.reader with
    | .reader, .done c ret => (c, ret) :: returnsOf tr
    | _, _ => returnsOf tr

/-- The move is no traversal that copies from a partly read frame other bytes than those at the read
position, or one whose frames straddle the end of the request. -/
def GoodTraversal (m : Move T) : Prop :=
  match m.label, m.pre.reader with
  | .reader, .copy c =>
    RecvCall.Aligned c.len m.pre.shared.session.recvOffset m.pre.shared.session.recvQueue ∧
      ¬ Framed.Straddles c.len c.total
        (Framed.remainders m.pre.shared.session.recvOffset m.pre.shared.session.recvQueue)
  | _, _ => True

instance : DecidablePred (Ordinary (T := T)) := fun m => by
  unfold Ordinary
  split <;> infer_instance

instance : DecidablePred (GoodTraversal (T := T)) := fun m => by
  unfold GoodTraversal
  split <;> infer_instance

variable [DecidableEq T] {p p' : Wakeup T} {l : Label T} {tr : List (Move T)}

/-- **Each statement** is a step of the coarser model, or none at all. -/
theorem reading_step (hok : p.Ok) (hs : p.Placed)
    (hst : (lts T).step p l p') (ho : Ordinary ⟨p, l, p'⟩) :
    match readerLabel ⟨p, l, p'⟩ with
    | some e => Reader.lts.step p.reading e p'.reading
    | none => p'.reading = p.reading := by
  cases step_of_next hst with
  | @recv len all hr =>
    change Reader.next _ _ = _
    have hl : 0 < len := ho
    simp [Reader.next, reading, hr, RecvPoint.coarse, hl]
  | reader hr =>
    have h := RecvPoint.coarse_of_next hr hs.1
    simp only [readerLabel, reading]
    split at h
    · exact Reader.step_receiving h
    · simp only [h.1, h.2]
  | send | request | begin => rfl
  | sender _ hk =>
    simp only [readerLabel, reading, SendPoint.receiving_of_next hk,
      (SendPoint.step_of_next hk).recv]
  | @task t sent sh k hk =>
    have h := Task.receiving_of_next hk ho
    have hpc := RecvPoint.coarse_congr (Task.uses_recv hk).testing_iff p.reader
    simp only [readerLabel, reading, hpc]
    split at h
    · rename_i e he
      refine h _ fun env f hf => ?_
      -- a frame is queued with the lock
      by_contra hn
      have howns := RecvPoint.owns_of_locked hs.1 (by simpa using hn)
      have hq : (p.task t).holdsRecv = true := by
        cases htask : p.task t with
        | queueing => rfl
        | _ => rw [htask, hf] at he; cases he
      have howner := hok.recv.2 howns
      rw [(hok.task t).recv hq] at howner
      cases howner
    · simp only [h]

/-- The invariants hold around every move. -/
theorem ok_of_moves {now : ℤ} (he : (lts T).Exec (start T now) tr p) :
    ∀ m ∈ tr, m.pre.Ok ∧ m.pre.Placed :=
  he.forall_moves (C := fun _ => True) (I := fun p => p.Ok ∧ p.Placed)
    (fun _ _ => trivial) ⟨start_ok now, rfl, rfl⟩
    (fun _ _ _ h hst _ => ⟨h.1.step hst, h.2.step hst⟩) fun _ _ _ h _ _ => h

/-- The run of the statements in the coarser model. -/
theorem readerView_exec {now : ℤ} (he : (lts T).Exec (start T now) tr p)
    (ho : ∀ m ∈ tr, Ordinary m) :
    Reader.lts.Exec (Reader.start 0) (readerView tr) p.reading := by
  refine LTS.Exec.project_of_moves reading readerLabel
    (C := fun m => Ordinary m ∧ m.pre.Ok ∧ m.pre.Placed)
    (fun m hm => ⟨ho m hm, ok_of_moves he m hm⟩) ?_ ?_ he
  · rintro p l p' hst ⟨hm, hok, hs⟩ e he
    have h := reading_step hok hs hst hm
    rwa [Option.mem_def.1 he] at h
  · rintro p l p' hst ⟨hm, hok, hs⟩ he
    have h := reading_step hok hs hst hm
    rwa [he] at h

omit [DecidableEq T] in
/-- The same frames are queued. -/
theorem delivered_readerView (tr : List (Move T)) :
    Reader.delivered (readerView tr) = (queuedOf tr).flatten := by
  induction tr with
  | nil => rfl
  | cons m tr ih =>
    obtain ⟨p, l, p'⟩ := m
    rw [readerView, LTS.project_cons, ← readerView]
    cases l with
    | recv => simpa [readerLabel, Reader.delivered, queuedOf] using ih
    | reader =>
      cases hr : p.reader.larger p.shared.recv.stage with
      | none => simpa [readerLabel, hr, queuedOf] using ih
      | some e =>
        cases e with
        | handleRecv env f => exact absurd hr RecvPoint.larger_ne_handleRecv
        | _ => simpa [readerLabel, hr, queuedOf, Reader.delivered] using ih
    | send | sender | request | begin => simpa [readerLabel, queuedOf] using ih
    | task t sent =>
      cases ht : p.task t with
      | queueing f => simp [readerLabel, ht, Task.larger, Reader.delivered, queuedOf, ih]
      | discontinuing => simpa [readerLabel, ht, Task.larger, Reader.delivered, queuedOf] using ih
      | _ => simpa [readerLabel, ht, Task.larger, queuedOf] using ih

omit [DecidableEq T] in
/-- In the coarser model a frame is handed over when it is queued, so none is lost. -/
theorem kept_readerView (tr : List (Move T)) : ∀ m ∈ readerView tr, Reader.Kept m := by
  intro m hm
  obtain ⟨⟨p, l, p'⟩, -, hm⟩ := List.mem_filterMap.1 hm
  obtain ⟨e, he, rfl⟩ := Option.map_eq_some_iff.1 hm
  cases e with
  | handleRecv env f =>
    cases l with
    | reader => exact absurd he RecvPoint.larger_ne_handleRecv
    | task t sent =>
      cases ht : p.task t with
      | queueing f =>
        simp only [readerLabel, ht, Task.larger, Option.some.injEq, Reader.Label.handleRecv.injEq]
          at he
        exact fun _ => .inl (by rw [← he.1])
      | _ => simp [readerLabel, ht, Task.larger] at he
    | _ => cases he
  | _ => trivial

omit [DecidableEq T] in
/-- The same calls return. -/
theorem returns_readerView (tr : List (Move T)) :
    Reader.returns (readerView tr) = returnsOf tr := by
  induction tr with
  | nil => rfl
  | cons m tr ih =>
    obtain ⟨p, l, p'⟩ := m
    rw [readerView, LTS.project_cons, ← readerView]
    cases l with
    | recv => simpa [readerLabel, Reader.returns, returnsOf] using ih
    | reader =>
      cases hpc : p.reader with
      | idle | failing | unlocking | judge =>
        simpa [readerLabel, hpc, RecvPoint.larger, returnsOf] using ih
      | outer | locking | check | copy =>
        simpa [readerLabel, hpc, RecvPoint.larger, returnsOf, Reader.returns] using ih
      | loop =>
        by_cases hs : p.shared.recv.stage = .committed <;>
          simpa [readerLabel, hpc, RecvPoint.larger, hs, returnsOf, Reader.returns] using ih
      | done c ret =>
        simp [readerLabel, hpc, RecvPoint.larger, returnsOf, Reader.returns, reading,
          RecvPoint.coarse, ih]
    | send | sender | request | begin => simpa [readerLabel, returnsOf] using ih
    | task t sent =>
      cases ht : p.task t with
      | queueing | discontinuing =>
        simpa [readerLabel, ht, Task.larger, Reader.returns, returnsOf] using ih
      | _ => simpa [readerLabel, ht, Task.larger, returnsOf] using ih

omit [DecidableEq T] in
/-- A step of the coarser model is no bad copy unless the statement is a bad traversal. -/
theorem goodCopy_iff {p p' : Wakeup T} {l : Label T} :
    (∀ e ∈ readerLabel ⟨p, l, p'⟩, Reader.GoodCopy ⟨p.reading, e, p'.reading⟩) ↔
      GoodTraversal ⟨p, l, p'⟩ := by
  by_cases ht : ∃ c, l = .reader ∧ p.reader = .copy c
  · obtain ⟨c, rfl, hpc⟩ := ht
    simp [readerLabel, hpc, RecvPoint.larger, GoodTraversal, Reader.GoodCopy, Reader.traversal,
      reading, RecvPoint.coarse, Session.receiving]
  · refine iff_of_true (fun e he => .of_traversal ?_) ?_
    · -- only the traversal is one in the coarser model
      unfold Reader.traversal
      split
      · rename_i c hpc hl
        refine absurd ⟨c, ?_, RecvPoint.eq_copy_of_coarse hpc⟩ ht
        obtain rfl : e = .run := hl
        cases l with
        | reader => rfl
        | task t sent => cases hk : p.task t <;> simp [readerLabel, hk, Task.larger] at he
        | _ => cases he
      · rfl
    · unfold GoodTraversal
      split
      · rename_i c hl hpc
        exact absurd ⟨c, hl, hpc⟩ ht
      · trivial

omit [DecidableEq T] in
theorem goodCopies_iff (tr : List (Move T)) :
    (∀ m ∈ readerView tr, Reader.GoodCopy m) ↔ ∀ m ∈ tr, GoodTraversal m := by
  induction tr with
  | nil => simp [readerView, LTS.project]
  | cons m tr ih =>
    obtain ⟨p, l, p'⟩ := m
    rw [readerView, LTS.project_cons, ← readerView, List.forall_mem_append, List.forall_mem_cons,
      ih, ← goodCopy_iff]
    simp

/-- **The statements refine the coarser model of the reader.**  Up to `CLOSED`, every run of the
threads of a session, in any interleaving of their statements, is one of that model: the same frames
are queued, the same calls return the same bytes and values, and it ends in the same queue. -/
theorem reader_refines {now : ℤ} (he : (lts T).Exec (start T now) tr p)
    (ho : ∀ m ∈ tr, Ordinary m) : ∃ tr' r, Reader.lts.Exec (Reader.start 0) tr' r ∧
      Reader.delivered tr' = (queuedOf tr).flatten ∧ Reader.returns tr' = returnsOf tr ∧
      r.pc = p.reader.coarse p.shared.recv.stage ∧
      r.session.cont = p.shared.session.cont ∧
      r.session.recvQueue = p.shared.session.recvQueue ∧
      r.session.recvOffset = p.shared.session.recvOffset :=
  ⟨readerView tr, p.reading, readerView_exec he ho, delivered_readerView tr, returns_readerView tr,
    rfl, rfl, rfl, rfl⟩

/-- **Integrity of the received stream, statement by statement.**  Up to `CLOSED`, while the session
continues, the calls of `usbws_recv` that have returned hold the queued frames in order if every
traversal was good; and whenever no call is in progress, only then. -/
theorem intact_iff_goodTraversals {now : ℤ} (he : (lts T).Exec (start T now) tr p)
    (ho : ∀ m ∈ tr, Ordinary m) (hc : p.shared.session.cont = true) :
    ((∀ m ∈ tr, GoodTraversal m) → Reader.Intact (queuedOf tr).flatten (returnsOf tr)) ∧
      (p.reader = .idle →
        (Reader.Intact (queuedOf tr).flatten (returnsOf tr) ↔ ∀ m ∈ tr, GoodTraversal m)) := by
  obtain ⟨hgood, hidle⟩ := Reader.intact_queued_iff (readerView_exec he ho) hc
  rw [← goodCopies_iff, ← delivered_readerView, ← returns_readerView,
    ← Reader.queued_eq_delivered (kept_readerView tr)]
  exact ⟨hgood, fun hi => hidle (by rw [reading, hi]; rfl)⟩

/-- A reader that falls asleep, is woken by a frame and returns it. -/
theorem reader_refines_of_sleep : ∃ tr p, (lts Unit).Exec (start Unit 0) tr p ∧
    returnsOf tr = [({ len := 1, all := false, total := 1, dbuf := [7] }, 1)] ∧
    ∃ tr' r, Reader.lts.Exec (Reader.start 0) tr' r ∧
      Reader.delivered tr' = (queuedOf tr).flatten ∧ Reader.returns tr' = returnsOf tr := by
  obtain ⟨tr, p, he, ho, hr⟩ : ∃ tr p, (lts Unit).Exec (start Unit 0) tr p ∧
      (∀ m ∈ tr, Ordinary m) ∧
      returnsOf tr = [({ len := 1, all := false, total := 1, dbuf := [7] }, 1)] :=
    LTS.exists_exec_of_replay
      [.recv 1 false, .reader, .reader, .reader, .reader, .begin () (.arrived [7]),
        .task (some ()) 0, .task (some ()) 0, .task (some ()) 0, .task (some ()) 0,
        .reader, .reader, .reader, .reader, .reader, .reader, .reader]
      _ (fun _ _ _ h => h) (by decide)
  obtain ⟨tr', r, he', hd, hret, -⟩ := reader_refines he ho
  exact ⟨tr, p, he, hr, tr', r, he', hd, hret⟩

/-- A frame that arrives while the reader is on its way to the queue. -/
theorem intact_of_frame_before_test : ∃ tr p, (lts Unit).Exec (start Unit 0) tr p ∧
    returnsOf tr = [({ len := 2, all := true, total := 2, dbuf := [7, 8] }, 2)] ∧
    Reader.Intact (queuedOf tr).flatten (returnsOf tr) := by
  obtain ⟨tr, p, he, ho, hc, hg, hr⟩ : ∃ tr p, (lts Unit).Exec (start Unit 0) tr p ∧
      (∀ m ∈ tr, Ordinary m) ∧ p.shared.session.cont = true ∧ (∀ m ∈ tr, GoodTraversal m) ∧
      returnsOf tr = [({ len := 2, all := true, total := 2, dbuf := [7, 8] }, 2)] :=
    LTS.exists_exec_of_replay
      [.recv 2 true, .begin () (.arrived [7, 8]), .reader, .task (some ()) 0, .task (some ()) 0,
        .task (some ()) 0, .task (some ()) 0, .reader, .reader, .reader, .reader, .reader,
        .reader, .reader]
      _ (fun _ _ _ h => h) (by decide)
  exact ⟨tr, p, he, hr, (intact_iff_goodTraversals he ho hc).1 hg⟩

end Wakeup

end Usbws

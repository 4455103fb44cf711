import Usbws.Reader.Basic

/-!
# The received stream

Whatever the frames and the calls, as long as the session continues the calls of `usbws_recv`
consume the stream in order: the bytes counted by the finished calls, those counted by the
current one and the unread ones make up the queued stream.  It is the delivered one as long as there
is memory for the frames (`Reader.Kept`); a frame that is lost leaves a gap that shows as soon as
something behind it is read (`Reader.exists_not_intact_of_lost`).

What a call stores is another matter.  `usbws_recv` copies from the front of the head frame even
when part of it has been read, and it copies up to `len` bytes of each frame even when part of
the request is served.  `Reader.intact_iff_goodCopies` : with no frame lost, the calls hold the
delivered stream exactly when no traversal meets one of the two situations (`Reader.GoodCopy`).
-/

namespace Usbws

open Framed RecvCall

namespace Reader

/-- The number of bytes counted by some finished calls. -/
def position (rs : List (RecvCall × ℤ)) : ℕ := (rs.map fun x => x.1.total).sum

/-- The caller's buffer holds exactly `total` bytes, the next ones of `stream` from `pos` on. -/
def HoldsNext (stream : Bytes) (pos : ℕ) (c : RecvCall) : Prop :=
  c.dbuf.take c.len <+: stream.drop pos ∧ (c.dbuf.take c.len).length = c.total

/-- Every finished call returned its count, with the next bytes of the stream in its buffer. -/
def Intact (stream : Bytes) : List (RecvCall × ℤ) → Prop
  | [] => True
  | (c, v) :: rs => (v = c.total ∧ HoldsNext stream (position rs) c) ∧ Intact stream rs

instance (stream : Bytes) (pos : ℕ) (c : RecvCall) : Decidable (HoldsNext stream pos c) :=
  inferInstanceAs (Decidable (_ ∧ _))

instance decidableIntact (stream : Bytes) : ∀ rs, Decidable (Intact stream rs)
  | [] => inferInstanceAs (Decidable True)
  | (c, v) :: rs =>
    have := decidableIntact stream rs
    inferInstanceAs (Decidable ((v = c.total ∧ HoldsNext stream (position rs) c) ∧ _))

/-- The session and the call at the beginning of a traversal. -/
def traversal (m : Move) : Option (Session × RecvCall) :=
  match m.pre.pc, m.label with
  | .copy c, .run => some (m.pre.session, c)
  | _, _ => none

/-- The move is not a traversal that copies from a partly read frame other bytes than those at
the read position, or one whose frames straddle the end of the request. -/
def GoodCopy (m : Move) : Prop :=
  ∀ x ∈ traversal m, Aligned x.2.len x.1.recvOffset x.1.recvQueue ∧
    ¬ Straddles x.2.len x.2.total (remainders x.1.recvOffset x.1.recvQueue)

instance (m : Move) : Decidable (GoodCopy m) :=
  inferInstanceAs (Decidable (∀ x ∈ traversal m, _ ∧ _))

theorem GoodCopy.of_traversal {m : Move} (h : traversal m = none) : GoodCopy m := by
  intro x hx
  rw [h] at hx
  cases hx

/-! ### Buffers and the stream -/

variable {stream before taken rest : Bytes} {c : RecvCall}

/-- A finished call holds the next bytes exactly when it stored what it consumed and did not
count more than fits. -/
theorem holdsNext_iff (hs : stream = before ++ taken ++ rest) (ht : taken.length = c.total)
    (hb : c.dbuf.length = c.total) :
    HoldsNext stream before.length c ↔ c.dbuf = taken ∧ c.total ≤ c.len := by
  subst hs
  simp only [HoldsNext, List.append_assoc, List.drop_left, List.length_take, hb]
  constructor
  · rintro ⟨hp, hl⟩
    have hle : c.total ≤ c.len := by omega
    rw [List.take_of_length_le (by omega)] at hp
    have := List.prefix_of_prefix_length_le hp (List.prefix_append taken rest) (by omega)
    exact ⟨this.eq_of_length (by omega), hle⟩
  · rintro ⟨rfl, hle⟩
    rw [List.take_of_length_le (by omega)]
    exact ⟨List.prefix_append _ _, by omega⟩

/-- Bytes delivered later do not matter for the calls that have returned. -/
theorem intact_append {rs : List (RecvCall × ℤ)} (h : position rs ≤ stream.length) (f : Bytes) :
    Intact (stream ++ f) rs ↔ Intact stream rs := by
  induction rs with
  | nil => exact Iff.rfl
  | cons x rs ih =>
    obtain ⟨c, v⟩ := x
    simp only [position, List.map_cons, List.sum_cons] at h
    have hpos : position rs ≤ stream.length := by simp only [position]; omega
    have hn : HoldsNext (stream ++ f) (position rs) c ↔ HoldsNext stream (position rs) c := by
      simp only [HoldsNext, List.drop_append_of_le_length hpos]
      refine ⟨fun ⟨hp, hl⟩ => ⟨?_, hl⟩, fun ⟨hp, hl⟩ => ⟨hp.trans (List.prefix_append _ _), hl⟩⟩
      refine List.prefix_of_prefix_length_le hp (List.prefix_append _ _) ?_
      rw [hl, List.length_drop]
      simp only [position]
      omega
    simp only [Intact, hn, ih hpos]

/-! ### Runs -/

/-- How a run relates to the stream while the session continues: the queued bytes are those
of the finished calls, those of the current one and the unread ones; and up to now everything
stored was what was consumed exactly when every copy was good. -/
structure Follows (tr : List Move) (r : Reader) (before taken : Bytes) : Prop where
  stream : queued tr = before ++ taken ++ unread r.session.recvOffset r.session.recvQueue
  finished : before.length = position (returns tr)
  current : taken.length = r.pc.current.total
  counted : ∀ c v, r.pc = .done c v → v = c.total
  good : (∀ m ∈ tr, GoodCopy m) ↔ Intact (queued tr) (returns tr) ∧
    r.pc.current.dbuf = taken ∧ r.pc.current.total ≤ r.pc.current.len

variable {tr : List Move} {s : Session} {pc pc' : RecvPc}

theorem start_follows (now : ℤ) : Follows [] (start now) [] [] :=
  ⟨rfl, rfl, rfl, (fun _ _ h => by cases h),
    ⟨fun _ => ⟨trivial, rfl, le_rfl⟩, fun _ _ hm => by cases hm⟩⟩

/-- A frame that is queued is appended to the unread part of the stream. -/
theorem Follows.arrive {env : Env} {f : Bytes} (h : Follows tr ⟨s, pc⟩ before taken)
    (hq : (env.binary && env.malloc) = true) (hs : CursorOk s.recvOffset s.recvQueue) :
    Follows (⟨⟨s, pc⟩, .handleRecv env f, ⟨s.arrive [f], pc⟩⟩ :: tr) ⟨s.arrive [f], pc⟩
      before taken := by
  have hempty : s.recvQueue = [] → s.recvOffset = 0 := by
    intro hempty
    rwa [hempty] at hs
  have hpos : position (returns tr) ≤ (queued tr).length := by
    rw [← h.finished, h.stream]
    simp
  refine ⟨?_, h.finished, h.current, h.counted, ?_⟩
  · simp only [queued, hq, if_true, h.stream, Session.arrive_recvQueue, Session.arrive_recvOffset,
      unread_append hempty, List.append_assoc, List.flatten_cons, List.flatten_nil,
      List.append_nil]
  · have hgood : GoodCopy ⟨⟨s, pc⟩, .handleRecv env f, ⟨s.arrive [f], pc⟩⟩ :=
      .of_traversal (by cases pc <;> rfl)
    simp only [List.forall_mem_cons, hgood, true_and, queued, hq, if_true, returns,
      intact_append hpos]
    exact h.good

/-- A frame that is not queued changes nothing. -/
theorem Follows.refuse {env : Env} {f : Bytes} (h : Follows tr ⟨s, pc⟩ before taken)
    (hq : (env.binary && env.malloc) = false) :
    Follows (⟨⟨s, pc⟩, .handleRecv env f, ⟨s, pc⟩⟩ :: tr) ⟨s, pc⟩ before taken := by
  have hgood : GoodCopy ⟨⟨s, pc⟩, .handleRecv env f, ⟨s, pc⟩⟩ :=
    .of_traversal (by cases pc <;> rfl)
  refine ⟨?_, h.finished, h.current, h.counted, ?_⟩
  · simpa only [queued, hq, Bool.false_eq_true, if_false] using h.stream
  · simp only [List.forall_mem_cons, hgood, true_and, queued, hq, Bool.false_eq_true, if_false,
      returns]
    exact h.good

/-- Outside of the traversal the reader moves on without touching the stream. -/
theorem Follows.run (h : Follows tr ⟨s, pc⟩ before taken) (hp : pc'.current = pc.current)
    (hc : ∀ c, pc ≠ .copy c) (hd : ∀ c v, pc' ≠ .done c v) :
    Follows (⟨⟨s, pc⟩, .run, ⟨s, pc'⟩⟩ :: tr) ⟨s, pc'⟩ before taken := by
  refine ⟨h.stream, h.finished, ?_, fun c v he => absurd he (hd c v), ?_⟩
  · rw [hp]
    exact h.current
  · have hgood : GoodCopy ⟨⟨s, pc⟩, .run, ⟨s, pc'⟩⟩ := by
      refine .of_traversal ?_
      cases pc with
      | copy c => exact absurd rfl (hc c)
      | _ => rfl
    simp only [List.forall_mem_cons, hgood, true_and, queued, returns, hp]
    exact h.good

/-- A call begins with nothing stored. -/
theorem Follows.call {len : ℕ} {all : Bool} (h : Follows tr ⟨s, .idle⟩ before taken) :
    Follows (⟨⟨s, .idle⟩, .call len all, ⟨s, .outer { len := len, all := all }⟩⟩ :: tr)
      ⟨s, .outer { len := len, all := all }⟩ before taken := by
  refine ⟨h.stream, h.finished, h.current, (fun _ _ he => by cases he), ?_⟩
  have hgood : GoodCopy ⟨⟨s, .idle⟩, .call len all, ⟨s, .outer { len := len, all := all }⟩⟩ :=
    .of_traversal rfl
  have := h.good
  simp only [RecvPc.current, RecvPc.call, Option.getD_none, Option.getD_some, le_refl, Nat.zero_le,
    and_true, List.forall_mem_cons, hgood, true_and, queued, returns] at this ⊢
  exact this

/-- A traversal is good exactly when it stores what it takes and counts no more than fits. -/
theorem goodCopy_copy_iff {copied taken' : Bytes} {r : Reader} (hlt : c.total < c.len)
    (haligned : copied = taken' ↔ Aligned c.len s.recvOffset s.recvQueue) :
    GoodCopy ⟨⟨s, .copy c⟩, .run, r⟩ ↔ copied = taken' ∧ (s.recvLocked c).2.total ≤ c.len := by
  obtain ⟨hfit, hover⟩ := @traverse_total c s.recvQueue s.recvOffset hlt
  have hs : ¬ Straddles c.len c.total (remainders s.recvOffset s.recvQueue) ↔
      (s.recvLocked c).2.total ≤ c.len := by
    constructor
    · intro hns
      have := hfit hns
      simp only [Session.recvLocked]
      omega
    · intro hle hst
      exact (hover hst).not_ge hle
  rw [haligned, ← hs]
  constructor
  · exact fun hg => hg (s, c) rfl
  · rintro hg x hx
    cases hx
    exact hg

/-- A traversal moves bytes from the unread part to those of the current call, and keeps what is
stored in step with them exactly if it is good. -/
theorem Follows.copy (pc' : RecvPc) (h : Follows tr ⟨s, .copy c⟩ before taken)
    (hok : Ok ⟨s, .copy c⟩) (hp : pc'.call = some (s.recvLocked c).2)
    (hd : ∀ c' v, pc' = .done c' v → v = c'.total) : ∃ taken',
    Follows (⟨⟨s, .copy c⟩, .run, ⟨(s.recvLocked c).1, pc'⟩⟩ :: tr) ⟨(s.recvLocked c).1, pc'⟩
      before (taken ++ taken') := by
  have hlt : c.total < c.len := hok.pending c rfl (fun _ he => by cases he)
  have hb : c.dbuf.length = c.total := (hok.stored c rfl).2
  have htaken : taken.length = c.total := h.current
  obtain ⟨taken', copied, hq, hdbuf, hlen, htotal, haligned⟩ :=
    @traverse_unread c s.recvQueue s.recvOffset hb
  have hcur : pc'.current = (s.recvLocked c).2 := by simp [RecvPc.current, hp]
  have hlen' : (s.recvLocked c).2.len = c.len := traverse_args.1
  refine ⟨taken', ?_, h.finished, ?_, hd, ?_⟩
  · have := h.stream
    simp only at this
    rw [hq, ← List.append_assoc, List.append_assoc before] at this
    exact this
  · rw [hcur, List.length_append, htaken]
    exact htotal.symm
  · -- the old and the new bytes match separately, their lengths being equal
    have hstored : c.dbuf ++ copied = taken ++ taken' ↔ c.dbuf = taken ∧ copied = taken' := by
      constructor
      · exact fun he => List.append_inj he (by omega)
      · rintro ⟨rfl, rfl⟩; rfl
    have hdb : (s.recvLocked c).2.dbuf = c.dbuf ++ copied := hdbuf
    have hold := h.good
    simp only [RecvPc.current, RecvPc.call, Option.getD_some] at hold
    simp only [List.forall_mem_cons, goodCopy_copy_iff hlt haligned, hold, hcur, hlen', hdb,
      hstored, queued, returns, hlt.le, and_true]
    constructor
    · rintro ⟨⟨hcop, hle⟩, hi, hdt⟩
      exact ⟨hi, ⟨hdt, hcop⟩, hle⟩
    · rintro ⟨hi, ⟨hdt, hcop⟩, hle⟩
      exact ⟨⟨hcop, hle⟩, hi, hdt⟩

/-- A call that returns has its bytes counted to the finished ones. -/
theorem Follows.ret {v : ℤ} (h : Follows tr ⟨s, .done c v⟩ before taken)
    (hok : Ok ⟨s, .done c v⟩) :
    Follows (⟨⟨s, .done c v⟩, .ret, ⟨s, .idle⟩⟩ :: tr) ⟨s, .idle⟩ (before ++ taken) [] := by
  have htaken : taken.length = c.total := h.current
  refine ⟨?_, ?_, rfl, (fun _ _ he => by cases he), ?_⟩
  · simpa [queued] using h.stream
  · have := h.finished
    simp only [returns, position, List.map_cons, List.sum_cons, List.length_append] at this ⊢
    omega
  · have hn := holdsNext_iff h.stream htaken (hok.stored c rfl).2
    have hv := h.counted c v rfl
    have hold := h.good
    simp only [RecvPc.current, RecvPc.call, Option.getD_some] at hold
    simp only [List.forall_mem_cons, hold, queued, returns, Intact, hv, ← h.finished, hn,
      RecvPc.current, RecvPc.call, Option.getD_none, le_refl, and_true, true_and]
    constructor
    · rintro ⟨-, hi, hc⟩
      exact ⟨hc, hi⟩
    · rintro ⟨hc, hi⟩
      exact ⟨.of_traversal rfl, hi, hc⟩

/-- **Every byte queued is accounted for.**  In a run that has not discontinued the session
the calls consume the stream in order. -/
theorem exists_follows {now : ℤ} {r : Reader} (he : lts.Exec (start now) tr r)
    (hc : r.session.cont = true) : ∃ before taken, Follows tr r before taken := by
  induction he with
  | nil => exact ⟨[], [], start_follows now⟩
  | @snoc tr r r' l hex hst ih =>
    have hok := (start_ok now).exec hex
    cases step_of_next hst with
    | arrive hq _ =>
      obtain ⟨before, taken, h⟩ := ih hc
      exact ⟨before, taken, h.arrive hq hok.cursor⟩
    | refuse hq =>
      obtain ⟨before, taken, h⟩ := ih hc
      exact ⟨before, taken, h.refuse hq⟩
    | discontinue => cases hc
    | call _ =>
      obtain ⟨before, taken, h⟩ := ih hc
      exact ⟨before, taken, h.call⟩
    | enter | acquire | wait | awake | go =>
      obtain ⟨before, taken, h⟩ := ih hc
      exact ⟨before, taken, h.run rfl (fun _ he => by cases he) (fun _ _ he => by cases he)⟩
    | leave hn | fail hn => rw [hn] at hc; cases hc
    | finish _ =>
      obtain ⟨before, taken, h⟩ := ih hc
      obtain ⟨taken', h'⟩ := h.copy (.done _ _) hok rfl (fun _ _ he => by cases he; rfl)
      exact ⟨before, taken ++ taken', h'⟩
    | again _ =>
      obtain ⟨before, taken, h⟩ := ih hc
      obtain ⟨taken', h'⟩ := h.copy (.outer _) hok rfl (fun _ _ he => by cases he)
      exact ⟨before, taken ++ taken', h'⟩
    | ret =>
      obtain ⟨before, taken, h⟩ := ih hc
      exact ⟨before ++ taken, [], h.ret hok⟩

/-- The calls hold the queued stream if every copy was good; and whenever no call is in progress,
only then. -/
theorem intact_queued_iff {now : ℤ} {r : Reader} (he : lts.Exec (start now) tr r)
    (hc : r.session.cont = true) :
    ((∀ m ∈ tr, GoodCopy m) → Intact (queued tr) (returns tr)) ∧
      (r.pc = .idle → (Intact (queued tr) (returns tr) ↔ ∀ m ∈ tr, GoodCopy m)) := by
  obtain ⟨before, taken, h⟩ := exists_follows he hc
  refine ⟨fun hg => (h.good.1 hg).1, fun hi => ?_⟩
  have ht : taken.length = 0 := by
    rw [h.current, hi]
    rfl
  rw [h.good, hi, List.length_eq_zero_iff.1 ht]
  simp [RecvPc.current, RecvPc.call]

/-- **Integrity of the received stream.**  While the session continues, the finished calls have
returned their counts and hold the delivered stream in order if no data was lost and every
traversal was good; and with no data lost, whenever no call is in progress, only then. -/
theorem intact_iff_goodCopies {now : ℤ} {r : Reader} (he : lts.Exec (start now) tr r)
    (hc : r.session.cont = true) :
    ((∀ m ∈ tr, Kept m ∧ GoodCopy m) → Intact (delivered tr) (returns tr)) ∧
      (r.pc = .idle → (∀ m ∈ tr, Kept m) →
        (Intact (delivered tr) (returns tr) ↔ ∀ m ∈ tr, GoodCopy m)) := by
  obtain ⟨hgood, hidle⟩ := intact_queued_iff he hc
  refine ⟨fun h => ?_, fun hi hk => ?_⟩
  · rw [← queued_eq_delivered fun m hm => (h m hm).1]
    exact hgood fun m hm => (h m hm).2
  · rw [← queued_eq_delivered hk]
    exact hidle hi

/-- A session that continues can be read up by one call.  With no frame read in part it copies only
good bytes and holds all that was queued. -/
theorem exists_readUp {s : Session} (hc : s.cont = true) (ho : s.recvOffset = 0)
    (hu : s.recvQueue.flatten ≠ []) : ∃ tr' s' c,
      lts.Exec ⟨s, .idle⟩ tr' ⟨s', .idle⟩ ∧ s'.cont = true ∧ (∀ m ∈ tr', Kept m ∧ GoodCopy m) ∧
        c.dbuf = s.recvQueue.flatten ∧ c.len = c.dbuf.length ∧
        ∀ tr : List Move, delivered (tr' ++ tr) = delivered tr ∧
          returns (tr' ++ tr) = (c, c.total) :: returns tr := by
  have hpos := List.length_pos_iff.2 hu
  have hq : s.recvQueue ≠ [] := by
    intro hq
    rw [hq] at hu
    exact hu rfl
  let c : RecvCall := { len := s.recvQueue.flatten.length, all := false }
  have hns : ¬ Straddles c.len c.total (remainders s.recvOffset s.recvQueue) := by
    rw [ho, remainders_zero]
    exact not_straddles_of_sum_le (by simp [c, List.length_flatten])
  have haligned : Aligned c.len s.recvOffset s.recvQueue := by
    rw [ho]
    exact aligned_zero _ _
  obtain ⟨taken, copied, hstream, hdbuf, -, htotal, hcopied⟩ :=
    @traverse_unread c s.recvQueue s.recvOffset rfl
  obtain rfl := hcopied.2 haligned
  have hfull : (s.recvLocked c).2.total = c.len := by
    have := (@traverse_total c s.recvQueue s.recvOffset hpos).1 hns
    rw [ho, remainders_zero, ← List.length_flatten] at this
    simpa [Session.recvLocked, ho, c] using this
  have hlen : copied.length = s.recvQueue.flatten.length := by
    have : c.total + copied.length = c.len := htotal.symm.trans hfull
    simpa [c] using this
  have hall : copied = s.recvQueue.flatten := by
    rw [ho, unread_zero] at hstream
    exact List.IsPrefix.eq_of_length ⟨_, hstream.symm⟩ hlen
  have hdbuf' : (s.recvLocked c).2.dbuf = s.recvQueue.flatten := hdbuf.trans hall
  have hargs : (s.recvLocked c).2.len = c.len := traverse_args.1
  have hsat : (s.recvLocked c).2.satisfied = true := by
    simp [satisfied, hfull, hargs]
  -- the call goes through its tests to the traversal and returns behind it
  have h₁ : lts.step ⟨s, .idle⟩ (.call c.len false) ⟨s, .outer c⟩ := if_pos ⟨rfl, hpos⟩
  have h₂ : lts.step ⟨s, .outer c⟩ .run ⟨s, .lock c⟩ := by
    simp [lts, next, advance, hc]
  have h₃ : lts.step ⟨s, .lock c⟩ .run ⟨s, .inner c⟩ := rfl
  have h₄ : lts.step ⟨s, .inner c⟩ .run ⟨s, .check c⟩ := by
    simp [lts, next, advance, hc, hq]
  have h₅ : lts.step ⟨s, .check c⟩ .run ⟨s, .copy c⟩ := by
    simp [lts, next, advance, hc]
  have h₆ : lts.step ⟨s, .copy c⟩ .run
      ⟨(s.recvLocked c).1, .done (s.recvLocked c).2 (s.recvLocked c).2.total⟩ := by
    simp [lts, next, advance, hsat]
  have h₇ : lts.step ⟨(s.recvLocked c).1, .done (s.recvLocked c).2 (s.recvLocked c).2.total⟩ .ret
      ⟨(s.recvLocked c).1, .idle⟩ := rfl
  refine ⟨_, (s.recvLocked c).1, (s.recvLocked c).2, ((((((LTS.Exec.nil.snoc h₁).snoc h₂).snoc
    h₃).snoc h₄).snoc h₅).snoc h₆).snoc h₇, hc, ?_, hdbuf', ?_, fun tr => ⟨rfl, rfl⟩⟩
  · have hcopy : GoodCopy ⟨⟨s, .copy c⟩, .run,
        ⟨(s.recvLocked c).1, .done (s.recvLocked c).2 (s.recvLocked c).2.total⟩⟩ := by
      rintro x hx
      cases hx
      exact ⟨haligned, hns⟩
    simp only [List.forall_mem_cons, List.not_mem_nil, false_imp_iff, implies_true, and_true, hcopy]
    exact ⟨⟨trivial, .of_traversal rfl⟩, trivial, ⟨trivial, .of_traversal rfl⟩,
      ⟨trivial, .of_traversal rfl⟩, ⟨trivial, .of_traversal rfl⟩, ⟨trivial, .of_traversal rfl⟩,
      ⟨trivial, .of_traversal rfl⟩⟩
  · rw [hdbuf', hargs]

/-- **Nothing less will do**: behind a loss, once no frame is read in part, a run can go on with
good copies only and come to a call that does not hold the delivered stream. -/
theorem exists_not_intact_of_lost {now : ℤ} {r : Reader} (he : lts.Exec (start now) tr r)
    (hc : r.session.cont = true) (hi : r.pc = .idle) (ho : r.session.recvOffset = 0)
    (hl : ¬ ∀ m ∈ tr, Kept m) : ∃ tr' r', lts.Exec r tr' r' ∧ r'.session.cont = true ∧
      (∀ m ∈ tr', Kept m ∧ GoodCopy m) ∧
        ¬ Intact (delivered (tr' ++ tr)) (returns (tr' ++ tr)) := by
  obtain ⟨s, pc⟩ := r
  dsimp only at hc hi ho
  subst hi
  obtain ⟨before, taken, h⟩ := exists_follows he hc
  have ht : taken = [] := List.length_eq_zero_iff.1 h.current
  have hstream := h.stream
  simp only [ht, ho, unread_zero, List.append_nil] at hstream
  -- the first byte that the queued stream lacks, and another one
  have hlt := length_queued_lt hl
  obtain ⟨x, hx⟩ : ∃ x : UInt8, x ≠ (delivered tr)[(queued tr).length] := by
    by_cases h₀ : (delivered tr)[(queued tr).length] = 0
    · exact ⟨1, by simp [h₀]⟩
    · exact ⟨0, Ne.symm h₀⟩
  have hst : lts.step ⟨s, .idle⟩ (.handleRecv {} [x]) ⟨s.arrive [[x]], .idle⟩ := rfl
  obtain ⟨tr', s', c, hrun, hc', hgood, hdbuf, hlen, hend⟩ :=
    @exists_readUp (s.arrive [[x]]) hc ho (by simp)
  refine ⟨tr' ++ [⟨⟨s, .idle⟩, .handleRecv {} [x], ⟨s.arrive [[x]], .idle⟩⟩], _,
    (LTS.Exec.nil.snoc hst).append hrun, hc', ?_, ?_⟩
  · rw [List.forall_mem_append, List.forall_mem_singleton]
    exact ⟨hgood, fun _ => .inl rfl, .of_traversal rfl⟩
  · rw [List.append_assoc, List.singleton_append, (hend _).1, (hend _).2]
    rintro ⟨⟨-, hp, -⟩, -⟩
    -- the call holds `x` where the delivered stream has the byte that was lost
    change _ <+: (delivered tr ++ [x]).drop (position (returns tr)) at hp
    have hqueue : (s.arrive [[x]]).recvQueue.flatten = s.recvQueue.flatten ++ [x] := by simp
    rw [hlen, List.take_length, hdbuf, hqueue] at hp
    obtain ⟨rest, hrest⟩ := hp
    have hlength : position (returns tr) + s.recvQueue.flatten.length = (queued tr).length := by
      rw [hstream, List.length_append, h.finished]
    have hbyte := congrArg (fun bs : Bytes => bs[s.recvQueue.flatten.length]?) hrest
    simp only [List.getElem?_drop, hlength, List.getElem?_append_left hlt, List.append_assoc,
      List.getElem?_append_right le_rfl, Nat.sub_self, List.getElem?_eq_getElem hlt] at hbyte
    exact hx (Option.some.inj hbyte)

/-- Two frames read by one call that waits for both. -/
theorem intact_of_two_frames : ∃ tr r, lts.Exec (start 0) tr r ∧
    returns tr = [({ len := 3, all := true, total := 3, dbuf := [1, 2, 3] }, 3)] ∧
    Intact (delivered tr) (returns tr) := by
  obtain ⟨tr, r, he, hc, hg, hr⟩ : ∃ tr r, lts.Exec (start 0) tr r ∧ r.session.cont = true ∧
      (∀ m ∈ tr, Kept m ∧ GoodCopy m) ∧
      returns tr = [({ len := 3, all := true, total := 3, dbuf := [1, 2, 3] }, 3)] :=
    LTS.exists_exec_of_replay
      [.handleRecv {} [1, 2], .call 3 true, .run, .run, .run, .run, .run, .handleRecv {} [3],
        .run, .run, .run, .run, .run, .ret] _ (fun _ _ _ h => h) (by decide)
  exact ⟨tr, r, he, hr, (intact_iff_goodCopies he hc).1 hg⟩

/-- One frame of two bytes read by two calls for one byte: the second call gets the first byte
again. -/
theorem not_intact_of_partial_frame : ∃ tr r, lts.Exec (start 0) tr r ∧ r.session.cont = true ∧
    returns tr = [({ len := 1, all := false, total := 1, dbuf := [1] }, 1),
      ({ len := 1, all := false, total := 1, dbuf := [1] }, 1)] ∧
    ¬ Intact (delivered tr) (returns tr) :=
  LTS.exists_exec_of_replay [.handleRecv {} [1, 2],
    .call 1 false, .run, .run, .run, .run, .run, .ret,
    .call 1 false, .run, .run, .run, .run, .run, .ret] _ (fun _ _ _ h => h) (by decide)

end Reader

end Usbws

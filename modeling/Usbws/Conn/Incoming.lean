import Usbws.Conn.Basic

/-!
# The incoming stream

`usbws_handle_recv` reports a frame for which there is no memory, but `usbws_handle_session` does
not use its result and returns 0, so the library keeps the connection and the next frame is queued
behind the missing one.

`Conn.noGaps_iff` : in every run the incoming stream has no silent gap exactly when no `malloc`
for a binary frame fails while the session continues.
-/

namespace Usbws

/-- The binary frame an event delivers, and whether there is memory for it. -/
def Event.frame : Event → Option (Bytes × Bool)
  | .callback reason env buf =>
    if reason.receives && env.binary then some (buf, env.malloc) else none
  | _ => none

namespace Conn

/-- A binary frame handed to `usbws_handle_session`. -/
structure Delivery where
  /-- The frame. -/
  frame : Bytes
  /-- What was appended to `recv_queue` for it. -/
  queued : List Bytes
  /-- What `usbws_handle_session` returned. -/
  ret : ℤ
  deriving DecidableEq, Repr

/-- The delivery of a binary frame by an event. -/
def delivery (pingPong : ℤ) (k : Conn) (e : Event) : Option Delivery :=
  e.frame.map fun x =>
    ⟨x.1, enqueued (k.outcome pingPong e).effects, (k.outcome pingPong e).ret⟩

/-- The deliveries of a run, oldest first. -/
def deliveriesOf (pingPong : ℤ) : List Move → List Delivery
  | [] => []
  | m :: tr => deliveriesOf pingPong tr ++ (m.pre.delivery pingPong m.label).toList

/-- All frames have been appended to the queue. -/
def Gapless (ds : List Delivery) : Prop := ∀ d ∈ ds, d.queued = [d.frame]

/-- The first frame that was not queued was reported to the library, and nothing was queued
behind it. -/
def Reported (ds : List Delivery) : Prop :=
  ∃ before d behind, ds = before ++ d :: behind ∧ Gapless before ∧ d.queued = [] ∧ d.ret ≠ 0 ∧
    ∀ d' ∈ behind, d'.queued = []

/-- The session is discontinued, or the queue holds the last of all frames delivered, or a gap
was reported. -/
def NoGap (pingPong : ℤ) (tr : List Move) (k : Conn) : Prop :=
  k.session.cont = true →
    Gapless (deliveriesOf pingPong tr) ∧
      k.session.recvQueue <:+ (deliveriesOf pingPong tr).map Delivery.frame ∨
    Reported (deliveriesOf pingPong tr)

/-- There is no gap at any time of a run. -/
def NoGaps (pingPong : ℤ) : List Move → Prop
  | [] => True
  | m :: tr => NoGaps pingPong tr ∧ NoGap pingPong (m :: tr) m.post

/-- There is memory for the frame the move delivers, or the session is discontinued. -/
def Allocates (m : Move) : Prop :=
  m.pre.session.cont = true → ∀ x ∈ m.label.frame, x.2 = true

instance (m : Move) : Decidable (Allocates m) :=
  inferInstanceAs (Decidable (m.pre.session.cont = true → ∀ x ∈ m.label.frame, x.2 = true))

variable {pingPong : ℤ} {ok : DataWrite → Prop} [DecidablePred ok] {k k' : Conn} {e : Event}
  {tr : List Move}

/-- A delivered frame is queued if there is memory for it, and `usbws_handle_session` returns 0
in any case. -/
theorem delivery_eq : k.delivery pingPong e =
    e.frame.map fun x => ⟨x.1, if x.2 then [x.1] else [], 0⟩ := by
  unfold delivery
  cases e with
  | callback reason env buf =>
    cases hr : reason.receives with
    | false => simp [Event.frame, hr]
    | true =>
      cases reason with
      | receive | clientReceive =>
        cases hb : env.binary <;> cases hm : env.malloc <;>
          simp [Event.frame, hb, hm, Reason.receives, outcome, Session.handleSession,
            Session.handleRecv, enqueued]
      | _ => cases hr
  | _ => rfl

/-- No gap is ever reported. -/
theorem not_reported : ¬ Reported (deliveriesOf pingPong tr) := by
  rintro ⟨before, d, behind, hd, -, -, hret, -⟩
  have hall : ∀ d ∈ deliveriesOf pingPong tr, d.ret = 0 := by
    clear hd
    induction tr with
    | nil => simp [deliveriesOf]
    | cons m tr ih =>
      intro d hd
      simp only [deliveriesOf, List.mem_append, Option.mem_toList, delivery_eq] at hd
      rcases hd with hd | hd
      · exact ih d hd
      · obtain ⟨x, -, rfl⟩ := Option.map_eq_some_iff.1 hd
        rfl
  exact hret (hall d (by simp [hd]))

/-- Without reports there is no gap as long as all frames have been queued. -/
theorem noGap_iff : NoGap pingPong tr k ↔ (k.session.cont = true →
    Gapless (deliveriesOf pingPong tr) ∧
      k.session.recvQueue <:+ (deliveriesOf pingPong tr).map Delivery.frame) := by
  simp only [NoGap, not_reported, or_false]

/-- The frame of a step is queued exactly if there is memory for it. -/
theorem gapless_step {m : Move} (hc : m.pre.session.cont = true) :
    Gapless (deliveriesOf pingPong (m :: tr)) ↔
      Gapless (deliveriesOf pingPong tr) ∧ Allocates m := by
  simp only [Gapless, deliveriesOf, List.forall_mem_append, Allocates, hc, forall_const]
  refine and_congr_right fun _ => ?_
  rw [delivery_eq]
  cases m.label.frame with
  | none => simp
  | some x => cases hx : x.2 <;> simp [hx]

/-- A `RECEIVE` callback appends its frame if it is queued, and keeps `cont`. -/
theorem receive_step {reason : Reason} {env : Env} {buf : Bytes} {s : Session}
    (hr : reason.receives = true) :
    (s.handleSession pingPong env reason buf).session.cont = s.cont ∧
      (s.handleSession pingPong env reason buf).session.recvQueue =
        s.recvQueue ++ if env.binary && env.malloc then [buf] else [] := by
  cases reason with
  | receive | clientReceive =>
    cases hb : env.binary <;> cases hm : env.malloc <;>
      simp [Session.handleSession, Session.handleRecv, Session.handled, hb, hm]
  | _ => cases hr

/-- No other callback touches the queue of a continuing session. -/
theorem recvQueue_of_callback {reason : Reason} {env : Env} {buf : Bytes} {s : Session}
    (ho : reason.opens = false) (hr : reason.receives = false)
    (hc : (s.handleSession pingPong env reason buf).session.cont = true) :
    (s.handleSession pingPong env reason buf).session.recvQueue = s.recvQueue := by
  cases reason with
  | established | clientEstablished => cases ho
  | receive | clientReceive => cases hr
  | closed => cases hc
  | clientConnectionError | other => rfl
  | receivePong =>
    simp only [Session.handleSession]
    split_ifs <;> rfl
  | serverWriteable | clientWriteable => exact Session.handleWritable_keeps.recvQueue
  | sendRequest => exact Session.handleSendRequest_keeps.recvQueue
  | healthCheck =>
    simp only [Session.handleSession, Session.checkSession]
    split_ifs
    · exact Session.usbwsSendPing_keeps.recvQueue
    · rfl
    · exact Session.usbwsSendPing_keeps.recvQueue
    · exact Session.usbwsSendPing_keeps.recvQueue
    · rfl

/-- A step appends the frame it delivers to the queue, and takes others only from its front. -/
theorem recvQueue_step (hst : (lts pingPong ok).step k e k') (hc : k'.session.cont = true)
    (ha : Allocates ⟨k, e, k'⟩) :
    k'.session.recvQueue <:+
      k.session.recvQueue ++ (k.delivery pingPong e).toList.map Delivery.frame := by
  have hcont := cont_of_step hst hc
  cases step_of_next hst with
  | send | leave | ret => simp [delivery, Event.frame, Session.publish, Session.setSendBuf,
      Session.setSendLen, Session.setSendOffset]
  | shutdown => cases hc
  | recv =>
    rw [show k.delivery pingPong (.recv _) = none from rfl, Option.toList_none, List.map_nil,
      List.append_nil]
    exact RecvCall.traverse_isSuffix
  | @callback reason env buf ho =>
    cases hr : reason.receives with
    | false =>
      rw [show k.delivery pingPong (.callback reason env buf) = none by
        simp [delivery, Event.frame, hr]]
      simp [recvQueue_of_callback ho hr hc]
    | true =>
      -- a text frame is ignored, and for a binary one there is memory
      simp only [(receive_step hr).2, delivery_eq, Event.frame, hr, Bool.true_and]
      cases hb : env.binary with
      | false => simp
      | true =>
        have hm : env.malloc = true := ha hcont (buf, env.malloc) (by simp [Event.frame, hr, hb])
        simp [hm]

/-- Delivering a frame does not discontinue the session. -/
theorem cont_of_frame (hst : (lts pingPong ok).step k e k') {x : Bytes × Bool}
    (hx : e.frame = some x) : k'.session.cont = k.session.cont := by
  cases step_of_next hst with
  | @callback reason env buf _ =>
    simp only [Event.frame, Option.ite_none_right_eq_some, Bool.and_eq_true] at hx
    exact (receive_step hx.1.1).1
  | _ => cases hx

/-- What has been queued, while there is memory for all frames. -/
theorem queued_of_allocates {now : ℤ} (he : (lts pingPong ok).Exec (start now) tr k)
    (ha : ∀ m ∈ tr, Allocates m) : NoGap pingPong tr k := by
  rw [noGap_iff]
  induction he with
  | nil => exact fun _ => ⟨(fun _ h => by cases h), List.suffix_rfl⟩
  | snoc hex hst ih =>
    intro hc
    rw [List.forall_mem_cons] at ha
    have hcont := cont_of_step hst hc
    obtain ⟨hg, front, hq⟩ := ih ha.2 hcont
    refine ⟨(gapless_step hcont).2 ⟨hg, ha.1⟩, (recvQueue_step hst hc ha.1).trans ?_⟩
    rw [deliveriesOf, List.map_append, ← hq, List.append_assoc]
    exact List.suffix_append front _

/-- If there is no gap at any time, there is none at the end. -/
theorem NoGaps.noGap {now : ℤ} (he : (lts pingPong ok).Exec (start now) tr k)
    (h : NoGaps pingPong tr) : NoGap pingPong tr k := by
  cases he with
  | nil => exact queued_of_allocates (.nil : (lts pingPong ok).Exec _ _ _) fun _ h => by cases h
  | snoc => exact h.2

/-- **No silent gap.**  In every run the incoming stream is without gaps, or they are reported,
exactly when there is memory for each binary frame delivered to a continuing session. -/
theorem noGaps_iff {now : ℤ} (he : (lts pingPong ok).Exec (start now) tr k) :
    NoGaps pingPong tr ↔ ∀ m ∈ tr, Allocates m := by
  induction he with
  | nil => exact iff_of_true trivial fun _ h => by cases h
  | @snoc tr k k' e hex hst ih =>
    rw [NoGaps, ih, List.forall_mem_cons]
    constructor
    · rintro ⟨htr, hgap⟩
      refine ⟨fun hc x hx => ?_, htr⟩
      have hc' : k'.session.cont = true := by rw [cont_of_frame hst hx, hc]
      exact ((gapless_step hc).1 (noGap_iff.1 hgap hc').1).2 hc x hx
    · rintro ⟨hm, htr⟩
      exact ⟨htr, queued_of_allocates (hex.snoc hst) (List.forall_mem_cons.2 ⟨hm, htr⟩)⟩

/-- Two binary frames, a text frame, and a third binary frame for which there is no memory when
the session has been shut down. -/
theorem noGaps_of_three_frames : ∃ tr k, (lts 60 DataWrite.Valid).Exec (start 0) tr k ∧
    k.session.recvQueue = [[1], [2, 3]] ∧ NoGaps 60 tr := by
  obtain ⟨tr, k, he, hq, ha⟩ : ∃ tr k, (lts 60 DataWrite.Valid).Exec (start 0) tr k ∧
      k.session.recvQueue = [[1], [2, 3]] ∧ ∀ m ∈ tr, Allocates m :=
    LTS.exists_exec_of_replay
      [.callback .receive {} [1], .callback .receive { binary := false } [9],
        .callback .clientReceive {} [2, 3], .shutdown, .callback .receive { malloc := false } [4]]
      _ (fun _ _ _ h => h) (by decide)
  exact ⟨tr, k, he, hq, (noGaps_iff he).2 ha⟩

/-- The first of two frames is missing, and nobody is told. -/
theorem not_noGaps_of_malloc : ∃ tr k, (lts 60 DataWrite.Valid).Exec (start 0) tr k ∧
    k.session.cont = true ∧ deliveriesOf 60 tr = [⟨[1], [], 0⟩, ⟨[2], [[2]], 0⟩] ∧
    k.session.recvQueue = [[2]] ∧ ¬ NoGaps 60 tr := by
  obtain ⟨tr, k, he, hc, hd, hq⟩ : ∃ tr k, (lts 60 DataWrite.Valid).Exec (start 0) tr k ∧
      k.session.cont = true ∧ deliveriesOf 60 tr = [⟨[1], [], 0⟩, ⟨[2], [[2]], 0⟩] ∧
      k.session.recvQueue = [[2]] :=
    LTS.exists_exec_of_replay
      [.callback .receive { malloc := false } [1], .callback .receive {} [2]]
      _ (fun _ _ _ h => h) (by decide)
  refine ⟨tr, k, he, hc, hd, hq, fun h => ?_⟩
  have hgap := (noGap_iff.1 (h.noGap he) hc).1
  rw [hd] at hgap
  cases hgap ⟨[1], [], 0⟩ List.mem_cons_self

end Conn

end Usbws

import Mathlib.Data.List.Flatten
import Usbws.Context.Exact
import Usbws.Tunnel.Basic

/-!
# The stream from end to end

The senders of one side and the readers of the other one are connected by the library, which loses
nothing, and by the queue of the receiving session, which loses a frame when there is no memory for
it.  What the calls of `usbws_recv` consume is accounted for at both ends.

* `Tunnel.sent_eq` : what a side has sent is what has arrived on the other one and what is on its
  way.
* `Tunnel.sentStream` : what the calls of `usbws_send` on a side have handed over.
* `Tunnel.stream_conserved_iff` : behind the bytes consumed on the other side the stream goes on
  with those that are queued there and those on their way, exactly if no frame with data was lost.
* `Tunnel.intact_end_to_end_iff` : when a reader rests, its calls hold what the other side has sent,
  exactly if every copy was good.
-/

namespace Usbws

open Framed

namespace Tunnel

variable {pingPong : Side → ℤ} {t t' : Tunnel} {l : Label} {s : Side} {tr : List Move}

/-! ### What has arrived -/

/-- The frames delivered to a side, oldest first, and whether they were queued. -/
def arrivals (s : Side) : List Move → List (Bytes × Bool)
  | [] => []
  | m :: tr =>
    match m.label with
    | .deliver s' env n =>
      if s' = s then arrivals s tr ++ [(m.pre.frame s' n, env.malloc)] else arrivals s tr
    | _ => arrivals s tr

/-- The bytes that the other side has accepted for a side. -/
def sent (pingPong : Side → ℤ) (s : Side) : List Move → Bytes
  | [] => []
  | m :: tr =>
    match m.label with
    | .own s' e =>
      if s' = s then sent pingPong s tr ++ (m.pre.ends s').conn.sentBytes (pingPong s') e
      else sent pingPong s tr
    | _ => sent pingPong s tr

/-- There was memory for every frame delivered to a side that was not empty. -/
def Lossless (s : Side) (tr : List Move) : Prop :=
  ∀ x ∈ arrivals s tr, x.2 = true ∨ x.1 = []

instance (s : Side) (tr : List Move) : Decidable (Lossless s tr) :=
  inferInstanceAs (Decidable (∀ x ∈ arrivals s tr, x.2 = true ∨ x.1 = []))

/-- **Nothing is lost on the way**: what a side has sent is what has arrived on the other one and
what is on its way, in this order. -/
theorem sent_eq {now : Side → ℤ} (h : (lts pingPong).Exec (start now) tr t) (s : Side) :
    sent pingPong s tr = ((arrivals s.peer tr).map Prod.fst).flatten ++ t.transit s := by
  induction h with
  | nil => rfl
  | @snoc tr t t' l _ hst ih =>
    cases step_of_next hst with
    | @own s' e k =>
      simp only [sent, arrivals]
      by_cases hs : s' = s
      · subst hs
        rw [if_pos rfl, ih, setTransit_transit, List.append_assoc]
      · rw [if_neg hs, ih, setTransit_transit_of_ne _ (Ne.symm hs), setEnd_transit]
    | @deliver s' env n k =>
      simp only [sent, arrivals]
      by_cases hs : s' = s.peer
      · subst hs
        rw [if_pos rfl, ih, Side.peer_peer, setTransit_transit]
        simp [frame]
      · have hne : s ≠ s'.peer := by
          rintro rfl
          exact hs (Side.peer_peer s').symm
        rw [if_neg hs, ih, setTransit_transit_of_ne _ hne, setEnd_transit]
    | @reader _ s' l' r hl hr =>
      have hsame : sent pingPong s (⟨t, l, t.setEnd s' ⟨{ (t.ends s').conn with
          session := r.session }, r.pc⟩⟩ :: tr) = sent pingPong s tr ∧
          arrivals s.peer (⟨t, l, t.setEnd s' ⟨{ (t.ends s').conn with
          session := r.session }, r.pc⟩⟩ :: tr) = arrivals s.peer tr := by
        cases l with
        | own | deliver => cases hl
        | call | run | ret => exact ⟨rfl, rfl⟩
      rw [hsame.1, hsame.2, ih, setEnd_transit]

/-- What the reader of a continuing session finds in its queue are the frames for which there was
memory. -/
theorem queued_eq {now : Side → ℤ} (h : (lts pingPong).Exec (start now) tr t) (s : Side) :
    Reader.queued (readerView s tr) =
      (((arrivals s tr).filter Prod.snd).map Prod.fst).flatten := by
  induction h with
  | nil => rfl
  | @snoc tr t t' l _ hst ih =>
    rw [readerView, LTS.project_cons, ← readerView]
    cases step_of_next hst with
    | own => exact ih
    | @deliver s' env n k hb =>
      by_cases hs : s' = s
      · cases hm : env.malloc <;> simp [readerLabel, arrivals, hs, hb, hm, Reader.queued, ih]
      · simp [readerLabel, arrivals, hs, ih]
    | @reader _ s' l' r hl _ =>
      cases l with
      | own | deliver => cases hl
      | call s' | run s' | ret s' =>
        by_cases hs : s' = s <;>
          simp [readerLabel, Label.reads, arrivals, hs, Reader.queued, ih]

/-- The delivery of a frame writes nothing. -/
theorem writes_deliver (k : Conn) (s : Side) (pp : ℤ) (env : Env) (f : Bytes) :
    k.writes pp (.callback s.receive env f) = [] := by
  cases s <;> simp only [Side.receive, Conn.writes, Conn.outcome, Session.handleSession,
    Session.handleRecv] <;> split_ifs <;> rfl

/-- What a side has sent is what was accepted on its connection. -/
theorem sent_eq_wireOf (s : Side) (tr : List Move) : sent pingPong s tr =
    (Conn.wireOf (pingPong s) (connView s tr)).map fun b => b.getD 0 := by
  induction tr with
  | nil => rfl
  | cons m tr ih =>
    obtain ⟨t, l, t'⟩ := m
    rw [connView, LTS.project_cons, ← connView]
    cases l with
    | own s' e =>
      by_cases hs : s' = s
      · subst hs
        simp [sent, connEvent, ih, Conn.wireOf, Conn.writesOf, Conn.sentBytes]
      · simp [sent, connEvent, hs, ih]
    | deliver s' env n =>
      by_cases hs : s' = s
      · simp [sent, connEvent, hs, ih, Conn.wireOf, Conn.writesOf, writes_deliver]
      · simp [sent, connEvent, hs, ih]
    | call | ret => exact ih
    | run s' =>
      unfold connEvent
      dsimp only
      split
      · by_cases hs : s' = s
        · have hw : ∀ c, (t.ends s).conn.writes (pingPong s) (.recv c) = [] := fun _ => rfl
          simp [sent, hs, ih, Conn.wireOf, Conn.writesOf, hw]
        · simpa [sent, hs] using ih
      · exact ih

/-! ### The two streams -/

/-- What the calls of `usbws_send` on a side have handed over: the sends that are completed, and the
first `send_offset` bytes of the current one. -/
def sentStream (s : Side) (tr : List Move) (t : Tunnel) : Bytes :=
  ((Conn.completedOf (connView s tr) (t.ends s).conn).map SendBuf.data).flatten ++
    Conn.sentPart (t.ends s).conn

/-- The number of bytes consumed by the calls of `usbws_recv` on a side. -/
def consumed (s : Side) (tr : List Move) (t : Tunnel) : ℕ :=
  Reader.position (Reader.returns (readerView s tr)) + (t.ends s).pc.current.total

/-- What is queued on a side and not consumed yet. -/
def queued (s : Side) (t : Tunnel) : Bytes :=
  unread (t.ends s).conn.session.recvOffset (t.ends s).conn.session.recvQueue

/-- While the session of a side continues, its calls have handed over what it has sent. -/
theorem sentStream_eq {now : Side → ℤ} (h : (lts pingPong).Exec (start now) tr t) (s : Side)
    (hc : (t.ends s).conn.session.cont = true) : sentStream s tr t = sent pingPong s tr := by
  obtain ⟨ch, -, hr⟩ := Conn.exists_refines (conn_exec h s) hc
  have hsome : (fun b : Option UInt8 => b.getD 0) ∘ some = id := rfl
  rw [sent_eq_wireOf, hr.wire_eq, List.map_map, hsome, List.map_id]
  rfl

/-- The frames that were queued have all the bytes of those that have arrived, exactly if no frame
with data was lost. -/
theorem length_queued_iff (s : Side) (tr : List Move) :
    (((arrivals s tr).filter Prod.snd).map Prod.fst).flatten.length =
      ((arrivals s tr).map Prod.fst).flatten.length ↔ Lossless s tr := by
  unfold Lossless
  generalize arrivals s tr = xs
  induction xs with
  | nil => simp
  | cons x xs ih =>
    obtain ⟨f, q⟩ := x
    have hle : (((xs.filter Prod.snd).map Prod.fst).flatten).length ≤
        ((xs.map Prod.fst).flatten).length :=
      (((List.filter_sublist).map Prod.fst).flatten).length_le
    rw [List.forall_mem_cons, ← ih]
    cases q with
    | true => simp
    | false =>
      simp only [List.filter_cons, Bool.false_eq_true, if_false, List.map_cons, List.flatten_cons,
        List.length_append, false_or, ← List.length_eq_zero_iff]
      omega

theorem queued_eq_of_lossless (h : Lossless s tr) :
    (((arrivals s tr).filter Prod.snd).map Prod.fst).flatten =
      ((arrivals s tr).map Prod.fst).flatten :=
  (((List.filter_sublist).map Prod.fst).flatten).eq_of_length ((length_queued_iff s tr).2 h)

/-- **The stream is conserved from end to end.**  While both sessions continue, what the calls of
`usbws_recv` on the other side have consumed is a beginning of what the calls of `usbws_send` have
handed over, and behind it the stream goes on with what is queued there and with what is on its way:
exactly if there was memory for every frame with data that was delivered. -/
theorem stream_conserved_iff {now : Side → ℤ} (h : (lts pingPong).Exec (start now) tr t) (s : Side)
    (hs : (t.ends s).conn.session.cont = true) (hp : (t.ends s.peer).conn.session.cont = true) :
    consumed s.peer tr t ≤ (sentStream s tr t).length ∧
        (sentStream s tr t).drop (consumed s.peer tr t) = queued s.peer t ++ t.transit s ↔
      Lossless s.peer tr := by
  obtain ⟨before, taken, hf⟩ := Reader.exists_follows (reader_exec h s.peer hp) hp
  have hstream := hf.stream
  have hlen : (before ++ taken).length = consumed s.peer tr t := by
    rw [List.length_append, hf.finished, hf.current]
    rfl
  have hq : unread (t.ends s.peer).reading.session.recvOffset
      (t.ends s.peer).reading.session.recvQueue = queued s.peer t := rfl
  rw [hq, queued_eq h] at hstream
  rw [sentStream_eq h s hs, sent_eq h s]
  constructor
  · rintro ⟨hle, hdrop⟩
    -- the lengths agree only if the frames that were queued have all the bytes
    have hd := congrArg List.length hdrop
    have hl := congrArg List.length hstream
    simp only [List.length_drop, List.length_append] at hle hd hl hlen
    exact (length_queued_iff s.peer tr).1 (by omega)
  · intro hll
    rw [← queued_eq_of_lossless hll, hstream, List.append_assoc, ← hlen]
    exact ⟨by simp, List.drop_left⟩

/-- **What is read on one side is what was sent on the other one.**  While both sessions continue
and no frame with data is lost, the finished calls of `usbws_recv` hold what the calls of
`usbws_send` on the other side have handed over, in order, if every copy was good; and whenever no
call is in progress, only then. -/
theorem intact_end_to_end_iff {now : Side → ℤ} (h : (lts pingPong).Exec (start now) tr t) (s : Side)
    (hs : (t.ends s).conn.session.cont = true) (hp : (t.ends s.peer).conn.session.cont = true)
    (hl : Lossless s.peer tr) :
    ((∀ m ∈ readerView s.peer tr, Reader.GoodCopy m) →
        Reader.Intact (sentStream s tr t) (Reader.returns (readerView s.peer tr))) ∧
      ((t.ends s.peer).pc = .idle →
        (Reader.Intact (sentStream s tr t) (Reader.returns (readerView s.peer tr)) ↔
          ∀ m ∈ readerView s.peer tr, Reader.GoodCopy m)) := by
  obtain ⟨before, taken, hf⟩ := Reader.exists_follows (reader_exec h s.peer hp) hp
  have hsent : sentStream s tr t = Reader.queued (readerView s.peer tr) ++ t.transit s := by
    rw [sentStream_eq h s hs, sent_eq h s, queued_eq h, queued_eq_of_lossless hl]
  have hpos : Reader.position (Reader.returns (readerView s.peer tr)) ≤
      (Reader.queued (readerView s.peer tr)).length := by
    rw [← hf.finished, hf.stream]
    simp
  rw [hsent, Reader.intact_append hpos]
  refine ⟨fun hg => (hf.good.1 hg).1, fun hidle => ?_⟩
  -- between two calls nothing has been taken that is not returned
  have hcur : (t.ends s.peer).reading.pc.current.total = 0 := by
    rw [Endpoint.reading, hidle]
    rfl
  have ht : taken = [] := List.length_eq_zero_iff.1 (hf.current.trans hcur)
  rw [hf.good, ht]
  simp [Endpoint.reading, hidle, RecvPc.current, RecvPc.call]

/-- The client sends three bytes in one piece; the daemon gets them in two frames, the second of
which is still on its way, and has read the first one.  Meanwhile the daemon sends a byte. -/
theorem stream_conserved_of_two_frames : ∃ tr t,
    (lts fun _ => 60).Exec (start fun _ => 0) tr t ∧
    sentStream .client tr t = [1, 2, 3] ∧ t.transit .client = [3] ∧
    Reader.returns (readerView .daemon tr) =
      [({ len := 2, all := true, total := 2, dbuf := [1, 2] }, 2)] ∧
    consumed .daemon tr t ≤ (sentStream .client tr t).length ∧
    (sentStream .client tr t).drop (consumed .daemon tr t) =
      queued .daemon t ++ t.transit .client := by
  obtain ⟨tr, t, he, hs, hp, hl, hr⟩ : ∃ tr t, (lts fun _ => 60).Exec (start fun _ => 0) tr t ∧
      (t.ends .client).conn.session.cont = true ∧ (t.ends .daemon).conn.session.cont = true ∧
      Lossless .daemon tr ∧ sentStream .client tr t = [1, 2, 3] ∧ t.transit .client = [3] ∧
      Reader.returns (readerView .daemon tr) =
        [({ len := 2, all := true, total := 2, dbuf := [1, 2] }, 2)] :=
    LTS.exists_exec_of_replay
      [.own .client (.send [1, 2, 3]), .call .daemon 2 true,
        .own .client (.callback .clientWriteable { sent := 3 } []), .deliver .daemon {} 2,
        .run .daemon, .run .daemon, .run .daemon, .run .daemon, .own .daemon (.send [9]),
        .own .daemon (.callback .serverWriteable { sent := 1 } []), .run .daemon, .ret .daemon]
      _ (fun _ _ _ h => h) (by decide)
  exact ⟨tr, t, he, hr.1, hr.2.1, hr.2.2, (stream_conserved_iff he .client hs hp).2 hl⟩

/-- Two sends of the daemon, read by the client in one call. -/
theorem intact_end_to_end_of_two_sends : ∃ tr t, (lts fun _ => 0).Exec (start fun _ => 0) tr t ∧
    sentStream .daemon tr t = [1, 2, 3] ∧ Reader.returns (readerView .client tr) =
      [({ len := 3, all := true, total := 3, dbuf := [1, 2, 3] }, 3)] ∧
    Reader.Intact (sentStream .daemon tr t) (Reader.returns (readerView .client tr)) := by
  obtain ⟨tr, t, he, hs, hp, hl, hg, hr⟩ : ∃ tr t, (lts fun _ => 0).Exec (start fun _ => 0) tr t ∧
      (t.ends .daemon).conn.session.cont = true ∧ (t.ends .client).conn.session.cont = true ∧
      Lossless .client tr ∧ (∀ m ∈ readerView .client tr, Reader.GoodCopy m) ∧
      sentStream .daemon tr t = [1, 2, 3] ∧ Reader.returns (readerView .client tr) =
        [({ len := 3, all := true, total := 3, dbuf := [1, 2, 3] }, 3)] :=
    LTS.exists_exec_of_replay
      [.own .daemon (.send [1, 2]), .own .daemon (.callback .serverWriteable { sent := 2 } []),
        .own .daemon .leave, .own .daemon .ret, .own .daemon (.send [3]),
        .own .daemon (.callback .serverWriteable { sent := 1 } []), .deliver .client {} 1,
        .deliver .client {} 2, .call .client 3 true, .run .client, .run .client, .run .client,
        .run .client, .run .client, .ret .client]
      _ (fun _ _ _ h => h) (by decide)
  exact ⟨tr, t, he, hr.1, hr.2, (intact_end_to_end_iff he .daemon hs hp hl).1 hg⟩

end Tunnel

end Usbws

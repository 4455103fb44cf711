import Usbws.Context.Exact
import Usbws.Data.Pieces

/-!
# The frames of a send

`lws_write` takes what it is given as a whole, and keeps what the socket does not take.  Then a send
is cut into frames of `SEND_CONTENT` bytes, one for each `lws_write`, whoever makes it: an empty
send is one empty frame, and two sends never share a frame.

* `Context.frames_eq` : the frames written on a connection.
* `Context.completes_of_writeables` : a send completes when the socket has been writable once for
  each of its frames.
-/

namespace Usbws

open Pieces

/-- `lws_write` takes all of the bytes. -/
def DataWrite.Whole (w : DataWrite) : Prop := w.sent = w.bytes

instance : DecidablePred DataWrite.Whole := fun w => inferInstanceAs (Decidable (w.sent = w.bytes))

/-- The payload of the frame that a write makes. -/
def DataWrite.frame (w : DataWrite) : List (Option UInt8) := w.chunk w.bytes

/-- The event is a `WRITEABLE` callback. -/
def Event.isWriteable : Event → Bool
  | .callback reason _ _ => reason.writes
  | _ => false

namespace Conn

/-- The frames written in a run, oldest first. -/
def framesOf (pingPong : ℤ) (tr : List Move) : List (List (Option UInt8)) :=
  (writesOf pingPong tr).map DataWrite.frame

/-- The frames of a send. -/
def sendFrames (b : SendBuf) : List Bytes := pieces Session.sendContent.toNat b.data

/-- The frames of the current buffer in front of `send_offset`. -/
def sentFrames (k : Conn) : List Bytes :=
  k.session.sendBuf.elim [] fun b =>
    (sendFrames b).take (k.session.sendOffset.toNat / Session.sendContent.toNat)

/-- The number of `WRITEABLE` callbacks since the last call of `usbws_send`. -/
def writeablesSince : List Move → ℕ
  | [] => 0
  | m :: tr =>
    if (m.pre.published m.label).isSome then 0
    else writeablesSince tr + m.label.isWriteable.toNat

/-- How the frames written in a run agree with the state. -/
structure FramesOk (pingPong : ℤ) (tr : List Move) (k : Conn) : Prop where
  /-- The current buffer is that of the last call. -/
  last : ∀ b, k.session.sendBuf = some b → (sendsOf tr).getLast? = some b
  /-- Behind `j` frames of the current buffer at least another one is left. -/
  current : ∀ b, k.session.sendBuf = some b → k.session.sendLen = b.data.length ∧ ∃ j : ℕ,
    k.session.sendOffset = Session.sendContent * j ∧
      j < numPieces Session.sendContent.toNat b.data.length ∧ writeablesSince tr ≤ j
  frames : framesOf pingPong tr =
    ((completedOf tr k).flatMap sendFrames ++ sentFrames k).map (List.map some)

variable {pingPong : ℤ} {tr : List Move} {k k' : Conn} {e : Event} {b : SendBuf} {sent : ℤ} {j : ℕ}

theorem start_framesOk (now : ℤ) : FramesOk pingPong [] (start now) where
  last _ hb := by cases hb
  current _ hb := by cases hb
  frames := rfl

/-- Nothing is written. -/
theorem FramesOk.quiet (h : FramesOk pingPong tr k) (hp : k.published e = none)
    (hs : k.session.SameTransfer k'.session) (hw : k.writes pingPong e = [])
    (hn : k.session.sendBuf.isSome = true → e.isWriteable = false) :
    FramesOk pingPong (⟨k, e, k'⟩ :: tr) k' := by
  obtain ⟨hb, hl, ho⟩ := hs
  have hsends : sendsOf (⟨k, e, k'⟩ :: tr) = sendsOf tr := by simp [sendsOf, hp]
  refine ⟨?_, ?_, ?_⟩
  · rw [hb, hsends]
    exact h.last
  · intro b hb'
    rw [hb] at hb'
    have hcount : writeablesSince (⟨k, e, k'⟩ :: tr) = writeablesSince tr := by
      simp [writeablesSince, hp, hn (by rw [hb']; rfl)]
    rw [hl, ho, hcount]
    exact h.current b hb'
  · rw [sentFrames, completedOf, hb, ho, hsends, framesOf, writesOf, hw, List.append_nil]
    exact h.frames

/-- A call publishes its buffer. -/
theorem FramesOk.send (h : FramesOk pingPong tr k) (hn : k.session.sendBuf = none) (data : Bytes) :
    FramesOk pingPong (⟨k, .send data, ⟨k.session.publish ⟨k.calls, data⟩,
      .pending ⟨k.calls, data⟩, k.calls + 1⟩⟩ :: tr)
      ⟨k.session.publish ⟨k.calls, data⟩, .pending ⟨k.calls, data⟩, k.calls + 1⟩ := by
  have hbuf : (k.session.publish ⟨k.calls, data⟩).sendBuf = some ⟨k.calls, data⟩ := rfl
  have hoff : (k.session.publish ⟨k.calls, data⟩).sendOffset = 0 := rfl
  have hframes := h.frames
  simp only [completedOf, sentFrames, hn, Option.isSome_none, Bool.false_eq_true, if_false,
    Option.elim_none, List.append_nil] at hframes
  refine ⟨?_, ?_, ?_⟩
  · intro b hb
    obtain rfl := Option.some.inj (hbuf.symm.trans hb)
    simp [sendsOf, published]
  · intro b hb
    obtain rfl := Option.some.inj (hbuf.symm.trans hb)
    exact ⟨rfl, 0, rfl, Nat.succ_pos _, le_rfl⟩
  · rw [framesOf, writesOf, show k.writes pingPong (.send data) = [] from rfl, List.append_nil]
    refine hframes.trans ?_
    simp [completedOf, sentFrames, hbuf, hoff, sendsOf, published]

theorem toNat_sendContent : Session.sendContent.toNat = 1500 := rfl

/-- The number of frames in front of an offset. -/
theorem toNat_div_sendContent {off : ℤ} (h : off = Session.sendContent * j) :
    off.toNat / Session.sendContent.toNat = j := by
  rw [toNat_sendContent]
  simp only [Session.sendContent] at h
  omega

/-- The frame that `__send_data` makes of a buffer of which `j` frames are written. -/
theorem frame_eq (hl : k.session.sendLen = b.data.length)
    (ho : k.session.sendOffset = Session.sendContent * j)
    (hj : j < numPieces Session.sendContent.toNat b.data.length) :
    (DataWrite.mk (some b) k.session.sendOffset k.session.chunkLen sent).frame =
        (piece Session.sendContent.toNat b.data j).map some ∧
      k.session.chunkLen = min Session.sendContent (b.data.length - Session.sendContent * j) ∧
      0 ≤ k.session.chunkLen := by
  have hjle := (lt_numPieces_iff (by decide)).1 hj
  have hlen : k.session.chunkLen =
      min Session.sendContent (b.data.length - Session.sendContent * j) := by
    rw [Session.chunkLen, hl, ho]
    split_ifs <;> omega
  rw [toNat_sendContent] at hjle ⊢
  simp only [Session.sendContent] at hlen ho hjle ⊢
  refine ⟨?_, hlen, by omega⟩
  rw [DataWrite.frame, DataWrite.chunk_eq rfl (by simp only; omega) (by simp only; omega)]
  congr 1
  have hoff : k.session.sendOffset.toNat = 1500 * j := by omega
  simp only [piece, hoff]
  apply List.take_eq_take_iff.2
  rw [List.length_drop]
  omega

/-- The frames so far, and the next one of the current buffer. -/
theorem FramesOk.framesOf_write (h : FramesOk pingPong tr k) (hb : k.session.sendBuf = some b)
    (ho : k.session.sendOffset = Session.sendContent * j)
    (hj : j < numPieces Session.sendContent.toNat b.data.length)
    (hw : k.writes pingPong e = [⟨some b, k.session.sendOffset, k.session.chunkLen, sent⟩]) :
    framesOf pingPong (⟨k, e, k'⟩ :: tr) = ((sendsOf tr).dropLast.flatMap sendFrames ++
      (sendFrames b).take (j + 1)).map (List.map some) := by
  obtain ⟨hframe, -⟩ := @frame_eq _ _ sent _ (h.current b hb).1 ho hj
  rw [framesOf, writesOf, hw, List.map_append, ← framesOf, h.frames, completedOf, sentFrames, hb,
    Option.elim_some, toNat_div_sendContent ho, sendFrames, take_pieces_succ hj]
  simp [hframe]

/-- `__send_data` writes the next frame of the current buffer, and finishes it if it was the
last one. -/
theorem FramesOk.write (h : FramesOk pingPong tr k) (hp : k.published e = none)
    (hb : k.session.sendBuf = some b)
    (hs : (k.session.sendData sent).session.SameTransfer k'.session)
    (hw : k.writes pingPong e = [⟨some b, k.session.sendOffset, k.session.chunkLen, sent⟩])
    (hwhole : sent = k.session.chunkLen) :
    FramesOk pingPong (⟨k, e, k'⟩ :: tr) k' := by
  obtain ⟨hl, j, ho, hj, hcount⟩ := h.current b hb
  obtain ⟨-, hlen, hpos⟩ := @frame_eq _ _ sent _ hl ho hj
  have hlast := h.last b hb
  obtain ⟨hb', hl', ho'⟩ := hs
  simp only [Session.sendData_session] at hb' hl' ho'
  have hsends : sendsOf (⟨k, e, k'⟩ :: tr) = sendsOf tr := by simp [sendsOf, hp]
  have hframes : framesOf pingPong (⟨k, e, k'⟩ :: tr) = _ := h.framesOf_write hb ho hj hw
  by_cases hdone : k.session.sendLen ≤ k.session.sendOffset + sent
  · rw [if_pos hdone] at hb'
    have hall : j + 1 = numPieces Session.sendContent.toNat b.data.length := by
      refine eq_numPieces (by decide) hj ?_
      rw [toNat_sendContent]
      simp only [Session.sendContent] at hlen ho
      omega
    refine ⟨fun b' h' => ?_, fun b' h' => ?_, ?_⟩
    · rw [hb'] at h'
      cases h'
    · rw [hb'] at h'
      cases h'
    · obtain ⟨done, hdone'⟩ := List.getLast?_eq_some_iff.1 hlast
      rw [hframes, completedOf, sentFrames, hb', hsends, hdone', sendFrames,
        take_pieces_of_le hall.ge]
      simp [sendFrames]
  · rw [if_neg hdone] at hb' hl'
    have hnext : k.session.sendOffset + sent = Session.sendContent * (j + 1 : ℕ) := by
      simp only [Session.sendContent] at hlen ho ⊢
      omega
    rw [hb] at hb'
    refine ⟨?_, ?_, ?_⟩
    · intro b' h'
      rw [hsends, ← h', hb', hlast]
    · intro b' h'
      obtain rfl : b = b' := Option.some.inj (hb'.symm.trans h')
      have hn : writeablesSince (⟨k, e, k'⟩ :: tr) ≤ j + 1 := by
        have := Bool.toNat_le e.isWriteable
        simp only [writeablesSince, hp, Option.isSome_none, Bool.false_eq_true, if_false]
        omega
      refine ⟨hl'.trans hl, j + 1, ho'.trans hnext, ?_, hn⟩
      rw [lt_numPieces_iff (by decide), toNat_sendContent]
      simp only [Session.sendContent] at hnext
      omega
    · rw [hframes, completedOf, sentFrames, hb', hsends, Option.elim_some,
        toNat_div_sendContent (ho'.trans hnext)]
      rfl

/-- With something to send, a `WRITEABLE` callback writes. -/
theorem writes_of_isWriteable (h : e.isWriteable = true)
    (hb : k.session.sendBuf.isSome = true) : k.writes pingPong e ≠ [] := by
  cases e with
  | callback reason env buf =>
    have hw : (k.outcome pingPong (.callback reason env buf)).effects =
        (k.session.handleWritable env.sent).effects := by
      cases reason with
      | serverWriteable | clientWriteable => rfl
      | _ => cases h
    rw [writes, hw, Session.handleWritable]
    simp [hb]
  | _ => cases h

/-- **Every step of a continuing connection keeps the frames.** -/
theorem FramesOk.step (h : FramesOk pingPong tr k) (ho : k.Owned)
    (hst : (lts pingPong DataWrite.Whole).step k e k') (hc : k'.session.cont = true) :
    FramesOk pingPong (⟨k, e, k'⟩ :: tr) k' := by
  rcases transmits_of_step hst with ⟨data, rfl, hpc, rfl⟩ | ⟨hpub, -, hs, ht⟩
  · exact h.send (ho.free (by rw [hpc]; rfl) (cont_of_step hst hc)) data
  · have hok := ok_of_next hst
    rcases ht with ⟨hsame, hd⟩ | ⟨b, sent, hb, hsame, hd⟩
    · refine h.quiet hpub (hs ▸ hsame) hd fun hb => ?_
      by_contra hw
      exact writes_of_isWriteable (by simpa using hw) hb hd
    · have hwhole := hok _ (by rw [writes, hd]; exact List.mem_singleton_self _)
      exact h.write hpub hb (hs ▸ hsame) hd hwhole

theorem framesOk_of_exec {now : ℤ} (he : (lts pingPong DataWrite.Whole).Exec (start now) tr k)
    (hc : k.session.cont = true) : FramesOk pingPong tr k := by
  induction he with
  | nil => exact start_framesOk now
  | snoc hex hst ih => exact (ih (cont_of_step hst hc)).step (owned_of_exec hex) hst hc

/-- When `send_buf` is NULL, the call in progress has sent all of its buffer. -/
theorem offset_of_call {now : ℤ} (he : (lts pingPong DataWrite.Whole).Exec (start now) tr k)
    (hc : k.session.cont = true) (hp : k.pc.buf = some b) (hn : k.session.sendBuf = none) :
    k.session.sendOffset = b.data.length := by
  induction he generalizing b with
  | nil => cases hp
  | @snoc tr k k' e hex hst ih =>
    have hc₀ := cont_of_step hst hc
    rcases transmits_of_step hst with ⟨data, rfl, hpc, rfl⟩ | ⟨hpub, -, hs, ht⟩
    · cases hn
    · have hp₀ := buf_of_step hst hpub hp
      rw [hs] at hn ⊢
      rcases ht with ⟨⟨hbuf, -, hoff⟩, -⟩ | ⟨b', sent, hb, ⟨hbuf, -, hoff⟩, hd⟩
      · rw [hoff]
        exact ih hc₀ hp₀ (hbuf.symm.trans hn)
      · -- the transfer ends with this write
        obtain rfl := (owned_of_exec hex).current b b' hp₀ hb
        have hwhole := ok_of_next hst _ (by rw [writes, hd]; exact List.mem_singleton_self _)
        obtain rfl : sent = k.session.chunkLen := hwhole
        have hlen := ((framesOk_of_exec hex hc₀).current b' hb).1
        have hrest := k.session.chunkLen_le_rest
        rw [hbuf] at hn
        simp only [Session.sendData_session, hb, ite_eq_left_iff, reduceCtorEq, imp_false,
          not_not] at hn
        rw [hoff, Session.sendData_session]
        dsimp only
        omega

/-- With `send_buf` NULL the wait loop ends. -/
theorem leave_step {ok : DataWrite → Prop} [DecidablePred ok] (hp : k.pc = .pending b)
    (hn : k.session.sendBuf = none) :
    (lts pingPong ok).step k .leave { k with pc := .left b } := by
  change next pingPong ok k .leave = some _
  have hw : ∀ w ∈ k.writes pingPong .leave, ok w := fun w hw => by cases hw
  simp only [next, if_pos hw, hp, hn, Option.isSome_none, Bool.and_false, Bool.false_eq_true,
    if_false]

end Conn

namespace Context

variable {ι : Type*} [DecidableEq ι] {pingPong : ℤ} {now : ι → ℤ} {c : Context ι}
  {tr : List (Move ι)}

/-- **The frames of a connection.**  In every run of a context in which `lws_write` takes what it is
given, and on every connection that is not discontinued, the frames written are those of the
completed sends, in order, and the first ones of the current send: each send is cut into frames of
1500 bytes of which the last may be shorter, an empty send is one empty frame, and none carries
bytes of two sends. -/
theorem frames_eq (he : (lts pingPong DataWrite.Whole).Exec (start now) tr c) (i : ι)
    (hc : (c.conn i).session.cont = true) : Conn.framesOf pingPong (view i tr) =
      ((Conn.completedOf (view i tr) (c.conn i)).flatMap Conn.sendFrames ++
        Conn.sentFrames (c.conn i)).map (List.map some) :=
  (Conn.framesOk_of_exec (exec_view he i) hc).frames

/-- **Sends complete.**  In every such run, when the socket of a connection has been reported
writable once for each frame of the send in progress, the send has completed: its wait loop ends
and gives its length.  Writes made by broadcasts, of whichever sender, only make this earlier. -/
theorem completes_of_writeables (he : (lts pingPong DataWrite.Whole).Exec (start now) tr c) (i : ι)
    (hc : (c.conn i).session.cont = true) {b : SendBuf} (hb : (c.conn i).pc = .pending b)
    (hn : (Conn.sendFrames b).length ≤ Conn.writeablesSince (view i tr)) :
    ∃ k, (Conn.lts pingPong DataWrite.Whole).step (c.conn i) .leave k ∧ k.pc = .left b ∧
      Conn.sendResult k.session = b.data.length := by
  have hv := exec_view he i
  have hbuf : (c.conn i).pc.buf = some b := by
    rw [hb]
    rfl
  have hnone : (c.conn i).session.sendBuf = none := by
    by_contra hsome
    obtain ⟨b', hb'⟩ := Option.ne_none_iff_exists'.1 hsome
    obtain rfl := (Conn.owned_of_exec hv).current b b' hbuf hb'
    obtain ⟨-, j, -, hj, hle⟩ := (Conn.framesOk_of_exec hv hc).current b' hb'
    rw [Conn.sendFrames, length_pieces] at hn
    omega
  have hoff := Conn.offset_of_call hv hc hbuf hnone
  refine ⟨_, Conn.leave_step hb hnone, rfl, ?_⟩
  simp only [Conn.sendResult, hc, Bool.not_true, Bool.false_eq_true, if_false]
  exact hoff

/-- An empty send, and two bytes that the broadcast of another sender writes. -/
theorem frames_of_two_sends : ∃ tr c,
    (lts 0 DataWrite.Whole).Exec (start fun _ : Bool => 0) tr c ∧
    (Conn.sendsOf (view true tr)).map SendBuf.data = [[], [1, 2]] ∧
    Conn.framesOf 0 (view true tr) = [[], [some 1, some 2]] ∧
    Conn.framesOf 0 (view true tr) =
      ((Conn.completedOf (view true tr) (c.conn true)).flatMap Conn.sendFrames ++
        Conn.sentFrames (c.conn true)).map (List.map some) := by
  obtain ⟨tr, c, he, hc, hs, hf⟩ : ∃ tr c,
      (lts 0 DataWrite.Whole).Exec (start fun _ : Bool => 0) tr c ∧
      (c.conn true).session.cont = true ∧
      (Conn.sendsOf (view true tr)).map SendBuf.data = [[], [1, 2]] ∧
      Conn.framesOf 0 (view true tr) = [[], [some 1, some 2]] :=
    LTS.exists_exec_of_replay
      [.own true (.callback .serverWriteable {} []), .send true [] [true, false],
        .request true {}, .request true {}, .leave true, .own true .ret,
        .own true (.callback .serverWriteable {} []), .send true [1, 2] [false],
        .send false [3] [false, true], .request false {}, .request false { sent := 2 }]
      _ (fun _ _ _ h => h) (by decide)
  exact ⟨tr, c, he, hs, hf, frames_eq he true hc⟩

/-- A send waits for the socket, which is reported writable once. -/
theorem completes_of_one_writeable : ∃ tr c k,
    (lts 0 DataWrite.Whole).Exec (start fun _ : Bool => 0) tr c ∧
    (Conn.lts 0 DataWrite.Whole).step (c.conn true) .leave k ∧ k.pc = .left ⟨0, [1, 2]⟩ ∧
    Conn.sendResult k.session = 2 := by
  obtain ⟨tr, c, he, hc, hb, hn⟩ : ∃ tr c,
      (lts 0 DataWrite.Whole).Exec (start fun _ : Bool => 0) tr c ∧
      (c.conn true).session.cont = true ∧ (c.conn true).pc = .pending ⟨0, [1, 2]⟩ ∧
      (Conn.sendFrames ⟨0, [1, 2]⟩).length ≤ Conn.writeablesSince (view true tr) :=
    LTS.exists_exec_of_replay
      [.send true [1, 2] [true, false], .request true {}, .request true {},
        .own true (.callback .serverWriteable { sent := 2 } [])]
      _ (fun _ _ _ h => h) (by decide)
  obtain ⟨k, hst, hp, hr⟩ := completes_of_writeables he true hc hb hn
  exact ⟨tr, c, k, he, hst, hp, hr⟩

end Context

end Usbws

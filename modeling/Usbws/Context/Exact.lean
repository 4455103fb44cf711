import Usbws.Context.Basic
import Usbws.Data.Channel

/-!
# Chunked sending

A transfer is advanced by whoever finds the socket writable: its own sender, the broadcast of
another one, or the service thread.  The three transfer fields of a session represent a channel
(`Session.Carries`), and everything that happens to a connection is a number of steps of this
channel (`Conn.Refines.step`).  As a channel is exact by construction, so is the connection:
`Context.exact_of_accepting`.
-/

namespace Usbws

namespace Session

/-- The transfer fields of a session represent the current transfer of a channel. -/
structure Carries (ch : Channel UInt8) (s : Session) : Prop where
  idle : s.sendBuf = none → ch.current = none
  busy : ∀ b, s.sendBuf = some b → ∃ t, ch.current = some t ∧ t.message = b.data ∧
    (t.offset : ℤ) = s.sendOffset ∧ s.sendLen = b.data.length

variable {ch : Channel UInt8} {s s' : Session} {b : SendBuf} {sent : ℤ}

theorem Carries.congr (h : s.Carries ch) (hs : s.SameTransfer s') : s'.Carries ch := by
  obtain ⟨hb, hl, ho⟩ := hs
  refine ⟨fun hn => h.idle (hb ▸ hn), fun b hb' => ?_⟩
  rw [hl, ho]
  exact h.busy b (hb ▸ hb')

/-- Publishing a buffer posts a message. -/
theorem Carries.publish (h : s.Carries ch) (hn : s.sendBuf = none) (b : SendBuf) :
    (s.publish b).Carries (ch.post b.data (h.idle hn)) := by
  refine ⟨fun hb => ?_, fun b' hb' => ?_⟩
  · cases hb
  · cases hb'
    exact ⟨_, rfl, rfl, rfl, rfl⟩

/-- **`__send_data` takes a piece of the current message**, and finishes it if nothing is left. -/
theorem Carries.sendData (h : s.Carries ch) (hb : s.sendBuf = some b)
    (hw : (DataWrite.mk (some b) s.sendOffset s.chunkLen sent).Accepting) :
    ∃ ch', Channel.Reaches ch ch' ∧ (s.sendData sent).session.Carries ch' ∧
      ch'.wire.map some = ch.wire.map some ++
        (DataWrite.mk (some b) s.sendOffset s.chunkLen sent).accepted ∧
      ch'.posted = ch.posted ∧
      ((s.sendData sent).session.sendBuf = none → s.sendOffset + sent = b.data.length) := by
  obtain ⟨t, ht, hmsg, hoff, hlen⟩ := h.busy b hb
  obtain ⟨hpos, hle⟩ := hw
  simp only at hpos hle
  have hrest := s.chunkLen_le_rest
  obtain ⟨n, rfl⟩ := Int.eq_ofNat_of_zero_le hpos
  have hn : t.offset + n ≤ t.message.length := by
    rw [hmsg]
    omega
  -- the bytes `lws_write` accepted are the next ones of the message
  have hacc : (DataWrite.mk (some b) s.sendOffset s.chunkLen n).accepted =
      (t.rest.take n).map some := by
    rw [DataWrite.accepted, DataWrite.chunk_eq rfl (by simp only; omega) (by simp only; omega)]
    simp only [Transfer.rest, hmsg, ← hoff, Int.toNat_natCast]
  by_cases hdone : s.sendLen ≤ s.sendOffset + n
  · have hfin : (t.advance n hn).Finished := by
      simp only [Transfer.Finished, Transfer.advance, hmsg]
      omega
    have hcur := ch.current_take t n ht hn
    refine ⟨(ch.take t n ht hn).finish _ hcur hfin,
      .tail (.single (.take ch t n ht hn)) (.finish _ _ hcur hfin), ?_, ?_, ?_, fun _ => by omega⟩
    · refine ⟨fun _ => rfl, fun b' hb' => ?_⟩
      simp [hdone] at hb'
    · rw [hacc, ← List.map_append]
      rfl
    · rw [Channel.posted_finish, Channel.posted_take]
  · refine ⟨ch.take t n ht hn, .single (.take ch t n ht hn), ?_, ?_, ?_, fun hnone => ?_⟩
    · refine ⟨fun hnone => ?_, fun b' hb' => ?_⟩
      · simp [hdone, hb] at hnone
      · simp only [sendData_session, if_neg hdone] at hb' ⊢
        obtain rfl : b = b' := Option.some.inj (hb.symm.trans hb')
        refine ⟨_, rfl, hmsg, ?_, hlen⟩
        simp only [Transfer.advance, Int.natCast_add, hoff]
    · rw [hacc, ← List.map_append]
      rfl
    · rw [Channel.posted_take]
    · simp [hdone, hb] at hnone

/-- Whatever is transmitted, it is a number of steps of the channel. -/
theorem Carries.transmits {o : Outcome} (h : s.Carries ch) (ht : s.Transmits o)
    (hw : ∀ w ∈ dataWrites o.effects, w.Accepting) :
    ∃ ch', Channel.Reaches ch ch' ∧ o.session.Carries ch' ∧
      ch'.wire.map some = ch.wire.map some ++ (dataWrites o.effects).flatMap DataWrite.accepted ∧
      ch'.posted = ch.posted ∧
      (s.sendBuf = none → o.session.sendOffset = s.sendOffset) ∧
      (∀ b, s.sendBuf = some b → o.session.sendBuf = none →
        o.session.sendOffset = b.data.length) := by
  rcases ht with ⟨hs, hd⟩ | ⟨b, sent, hb, hs, hd⟩
  · refine ⟨ch, .refl, h.congr hs, by simp [hd], rfl, fun _ => hs.2.2, fun b hb hn => ?_⟩
    rw [hs.1, hb] at hn
    cases hn
  · rw [hd, List.forall_mem_singleton] at hw
    obtain ⟨ch', hr, hc, hwire, hposted, hdone⟩ := h.sendData hb hw
    refine ⟨ch', hr, hc.congr hs, by simp [hd, hwire], hposted, fun hn => ?_, fun b' hb' hn => ?_⟩
    · rw [hb] at hn
      cases hn
    · obtain rfl : b = b' := Option.some.inj (hb.symm.trans hb')
      rw [hs.2.2, sendData_session]
      exact hdone (hs.1 ▸ hn)

end Session

namespace Conn

/-- The sends of a run whose buffers have been taken as a whole: all but the current one. -/
def completedOf (tr : List Move) (k : Conn) : List SendBuf :=
  if k.session.sendBuf.isSome then (sendsOf tr).dropLast else sendsOf tr

/-- The first `send_offset` bytes of the current buffer. -/
def sentPart (k : Conn) : Bytes :=
  k.session.sendBuf.elim [] fun b => b.data.take k.session.sendOffset.toNat

/-- **A connection whose run has the history `tr` behaves as the channel `ch`.** -/
structure Refines (pingPong : ℤ) (ch : Channel UInt8) (tr : List Move) (k : Conn) : Prop where
  carries : k.session.Carries ch
  wire : wireOf pingPong tr = ch.wire.map some
  posted : (sendsOf tr).map SendBuf.data = ch.posted
  /-- The current buffer is that of the last call. -/
  last : ∀ b, k.session.sendBuf = some b → (sendsOf tr).getLast? = some b
  /-- A call in progress waits for its own transfer. -/
  call : ∀ b, k.pc.buf = some b → b ∈ sendsOf tr ∧
    (k.session.sendBuf = none → k.session.sendOffset = b.data.length)
  returned : ∀ x ∈ returnsOf tr, x.2 = x.1.data.length ∧ x.1 ∈ completedOf tr k

variable {pingPong : ℤ} {ch : Channel UInt8} {tr : List Move} {k k' : Conn} {e : Event}

theorem start_refines (now : ℤ) : Refines pingPong .empty [] (start now) where
  carries := ⟨fun _ => rfl, fun _ hb => by cases hb⟩
  wire := rfl
  posted := rfl
  last _ hb := by cases hb
  call _ hp := by cases hp
  returned _ hx := by cases hx

/-- Until the next call the completed sends only become more. -/
theorem completedOf_subset (hp : k.published e = none)
    (hb : ∀ b, k'.session.sendBuf = some b → k.session.sendBuf = some b) :
    completedOf tr k ⊆ completedOf (⟨k, e, k'⟩ :: tr) k' := by
  intro x hx
  simp only [completedOf, sendsOf, hp, Option.toList_none, List.append_nil] at hx ⊢
  by_cases h' : k'.session.sendBuf.isSome = true
  · obtain ⟨b, hb'⟩ := Option.isSome_iff_exists.1 h'
    rw [if_pos (by rw [hb b hb']; rfl)] at hx
    rwa [if_pos h']
  · rw [if_neg h']
    split_ifs at hx
    · exact List.dropLast_subset _ hx
    · exact hx

/-- A call posts its buffer. -/
theorem Refines.send (h : Refines pingPong ch tr k) (ho : k.Owned) (hpc : k.pc = .idle)
    (hc : k.session.cont = true) (data : Bytes) : ∃ ch', Channel.Reaches ch ch' ∧
      Refines pingPong ch' (⟨k, .send data, ⟨k.session.publish ⟨k.calls, data⟩,
        .pending ⟨k.calls, data⟩, k.calls + 1⟩⟩ :: tr)
        ⟨k.session.publish ⟨k.calls, data⟩, .pending ⟨k.calls, data⟩, k.calls + 1⟩ := by
  have hnone : k.session.sendBuf = none := ho.free (by rw [hpc]; rfl) hc
  refine ⟨_, .single (.post ch data (h.carries.idle hnone)), ?_⟩
  constructor
  · exact h.carries.publish hnone ⟨k.calls, data⟩
  · rw [wireOf, writesOf, show k.writes pingPong (.send data) = [] from rfl, List.append_nil]
    exact h.wire
  · simp [sendsOf, published, h.posted]
  · rintro b hb
    obtain rfl : SendBuf.mk k.calls data = b := Option.some.inj hb
    simp [sendsOf, published]
  · rintro b hb
    obtain rfl : SendBuf.mk k.calls data = b := Option.some.inj hb
    refine ⟨by simp [sendsOf, published], fun hn => ?_⟩
    cases hn
  · intro x hx
    obtain ⟨hv, hmem⟩ := h.returned x (by simpa [returnsOf, Conn.returned] using hx)
    refine ⟨hv, ?_⟩
    simp only [completedOf, hnone, Option.isSome_none, Bool.false_eq_true, if_false] at hmem
    simpa [completedOf, sendsOf, published, Session.publish, Session.setSendBuf,
      Session.setSendLen, Session.setSendOffset] using hmem

/-- **Every step of a continuing connection is a number of steps of its channel.** -/
theorem Refines.step (h : Refines pingPong ch tr k) (ho : k.Owned)
    (hst : (lts pingPong DataWrite.Accepting).step k e k') (hc : k'.session.cont = true) :
    ∃ ch', Channel.Reaches ch ch' ∧ Refines pingPong ch' (⟨k, e, k'⟩ :: tr) k' := by
  have hcont := cont_of_step hst hc
  rcases transmits_of_step hst with ⟨data, rfl, hpc, rfl⟩ | ⟨hpub, -, hs, ht⟩
  · exact h.send ho hpc hcont data
  · obtain ⟨ch', hr, hcar, hwire, hposted, hoff, hdone⟩ :=
      h.carries.transmits ht (ok_of_next hst)
    rw [← hs] at hcar hoff hdone
    have hbuf : ∀ b, k'.session.sendBuf = some b → k.session.sendBuf = some b := fun b hb =>
      ht.sendBuf_eq (hs ▸ hb)
    have hsends : sendsOf (⟨k, e, k'⟩ :: tr) = sendsOf tr := by
      simp [sendsOf, hpub]
    refine ⟨ch', hr, hcar, ?_, ?_, ?_, ?_, ?_⟩
    · rw [hwire, ← h.wire, wireOf, writesOf, List.flatMap_append]
      rfl
    · rw [hsends, hposted, h.posted]
    · intro b hb
      rw [hsends]
      exact h.last b (hbuf b hb)
    · intro b hb
      have hb₀ := buf_of_step hst hpub hb
      obtain ⟨hmem, hlen⟩ := h.call b hb₀
      refine ⟨by rwa [hsends], fun hn => ?_⟩
      -- its transfer was finished before, or is finished by this step
      cases hcur : k.session.sendBuf with
      | none => rw [hoff hcur, hlen hcur]
      | some b' =>
        rw [← ho.current b b' hb₀ hcur]
        exact hdone b' hcur hn
    · intro x hx
      simp only [returnsOf, List.mem_append, Option.mem_toList] at hx
      rcases hx with hx | hx
      · exact ⟨(h.returned x hx).1, completedOf_subset hpub hbuf (h.returned x hx).2⟩
      · -- a call returns; `send_buf` is NULL, as the session continues
        obtain ⟨-, hb, hv, hsame, -, hfree⟩ := ho.returned hst hx
        obtain ⟨hmem, hlen⟩ := h.call _ hb
        refine ⟨?_, ?_⟩
        · rw [hv, sendResult, hcont]
          exact hlen (hfree hcont)
        · simpa [completedOf, hsame, hfree hcont, hsends] using hmem

/-- **The code refines the channel.** -/
theorem exists_refines {now : ℤ} (he : (lts pingPong DataWrite.Accepting).Exec (start now) tr k)
    (hc : k.session.cont = true) :
    ∃ ch, Channel.Reaches .empty ch ∧ Refines pingPong ch tr k := by
  induction he with
  | nil => exact ⟨.empty, .refl, start_refines now⟩
  | snoc hex hst ih =>
    obtain ⟨ch, hr, h⟩ := ih (cont_of_step hst hc)
    obtain ⟨ch', hr', h'⟩ := h.step (owned_of_exec hex) hst hc
    exact ⟨ch', hr.trans hr', h'⟩

/-- What a channel has taken, in terms of the connection. -/
theorem Refines.wire_eq (h : Refines pingPong ch tr k) : wireOf pingPong tr =
    (((completedOf tr k).map SendBuf.data).flatten ++ sentPart k).map some := by
  rw [h.wire]
  congr 1
  cases hb : k.session.sendBuf with
  | none =>
    rw [ch.wire_of_current_eq_none (h.carries.idle hb), ← h.posted]
    simp [completedOf, sentPart, hb]
  | some b =>
    obtain ⟨t, ht, hmsg, hoff, -⟩ := h.carries.busy b hb
    obtain ⟨hposted, hwire⟩ := ch.wire_of_current_eq_some ht
    obtain ⟨done, hdone⟩ := List.getLast?_eq_some_iff.1 (h.last b hb)
    have hfin : ch.finished = done.map SendBuf.data := by
      have := h.posted
      rw [hposted, hdone, List.map_append, hmsg] at this
      exact (List.append_cancel_right this).symm
    rw [hwire, hfin]
    simp [completedOf, sentPart, hb, hdone, Transfer.taken, hmsg, ← hoff]

/-- No write offers more than `SEND_CONTENT` bytes. -/
theorem bytes_le {ok : DataWrite → Prop} [DecidablePred ok] {now : ℤ}
    (he : (lts pingPong ok).Exec (start now) tr k) :
    ∀ w ∈ writesOf pingPong tr, w.bytes ≤ Session.sendContent := by
  intro w hw
  obtain ⟨m, hm, hw⟩ := mem_writesOf.1 hw
  have hall : ∀ m ∈ tr, ∀ w ∈ m.pre.writes pingPong m.label, w.bytes ≤ Session.sendContent := by
    refine he.forall_moves (C := fun _ => True) (I := fun _ => True) (fun _ _ => trivial) trivial
      (fun _ _ _ _ _ _ => trivial) fun k e k' _ hst _ w hw => ?_
    rcases writes_of_step hst with hn | ⟨b, sent, -, -, hn⟩
    · rw [hn] at hw
      cases hw
    · rw [hn, List.mem_singleton] at hw
      rw [hw]
      exact k.session.chunkLen_le_sendContent
  exact hall m hm w hw

end Conn

namespace Context

variable {ι : Type*} [DecidableEq ι] {pingPong : ℤ} {now : ι → ℤ} {c : Context ι}
  {tr : List (Move ι)}

/-- **Chunked sending is exact.**  In every run of a context in which `lws_write` always accepts
some prefix, and on every connection that is not discontinued: the bytes accepted are those of
the completed sends and the first `send_offset` bytes of the current one; each write offers at
most 1500 bytes; and every call that has returned has completed and has returned its length. -/
theorem exact_of_accepting (he : (lts pingPong DataWrite.Accepting).Exec (start now) tr c) (i : ι)
    (hc : (c.conn i).session.cont = true) :
    Conn.wireOf pingPong (view i tr) =
        (((Conn.completedOf (view i tr) (c.conn i)).map SendBuf.data).flatten ++
          Conn.sentPart (c.conn i)).map some ∧
      (∀ w ∈ Conn.writesOf pingPong (view i tr), w.bytes ≤ 1500) ∧
      ∀ x ∈ Conn.returnsOf (view i tr), x.2 = x.1.data.length ∧
        x.1 ∈ Conn.completedOf (view i tr) (c.conn i) := by
  have hv := exec_view he i
  obtain ⟨ch, -, h⟩ := Conn.exists_refines hv hc
  exact ⟨h.wire_eq, Conn.bytes_le hv, h.returned⟩

/-- Two senders: the first byte of one is sent by the broadcast of the other one, whose own
transfer is still under way, and the rest by the service thread. -/
theorem exact_of_two_senders : ∃ tr c,
    (lts 0 DataWrite.Accepting).Exec (start fun _ : Bool => 0) tr c ∧
    Conn.returnsOf (view true tr) = [(⟨0, [1, 2]⟩, 2)] ∧ Conn.sentPart (c.conn false) = [3] ∧
    ∀ x ∈ Conn.returnsOf (view true tr), x.2 = x.1.data.length ∧
      x.1 ∈ Conn.completedOf (view true tr) (c.conn true) := by
  obtain ⟨tr, c, he, hc, hr, hs⟩ : ∃ tr c,
      (lts 0 DataWrite.Accepting).Exec (start fun _ : Bool => 0) tr c ∧
      (c.conn true).session.cont = true ∧ Conn.returnsOf (view true tr) = [(⟨0, [1, 2]⟩, 2)] ∧
      Conn.sentPart (c.conn false) = [3] :=
    LTS.exists_exec_of_replay
      [.own true (.callback .serverWriteable {} []), .send true [1, 2] [true, false],
        .send false [3, 4] [true, false], .request false { sent := 1 }, .request true {},
        .own true (.callback .serverWriteable { sent := 1 } []), .request true {},
        .request false {}, .leave true, .own true .ret,
        .own false (.callback .clientWriteable { sent := 1 } [])]
      _ (fun _ _ _ h => h) (by decide)
  exact ⟨tr, c, he, hr, hs, (exact_of_accepting he true hc).2.2⟩

end Context

end Usbws

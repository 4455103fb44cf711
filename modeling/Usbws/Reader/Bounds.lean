import Usbws.Reader.Basic

/-!
# The bounds of a receive call

A call of `usbws_recv` on a session that is not discontinued sees its frames in batches: what is
queued at its first traversal, then what arrives before each later one.  The batches that the
call serves are laid end to end from the beginning of the caller's buffer on.

`Session.usbwsRecv_bounded_iff` : the call stores inside of the buffer and returns what it was
asked for exactly when none of these frames begins inside of the request and ends behind it.

`Reader.exists_usbwsRecv` : what the reader does in a run, from the first step of a call on, is
what `Session.usbwsRecv` computes from some batches.
-/

namespace Usbws

open Framed RecvCall

namespace Session

/-- The stored bytes lie inside of a buffer of `len` bytes, and a result is `len` if the call
waits for all bytes and between 1 and `len` otherwise. -/
def RecvResult.Bounded (len : ℕ) (all : Bool) : RecvResult → Prop
  | blocked _ c => c.dbuf.length ≤ len
  | returned _ c ret => c.dbuf.length ≤ len ∧ if all then ret = len else 1 ≤ ret ∧ ret ≤ len

instance (len : ℕ) (all : Bool) : ∀ r, Decidable (RecvResult.Bounded len all r)
  | .blocked _ c => inferInstanceAs (Decidable (c.dbuf.length ≤ len))
  | .returned _ c ret => inferInstanceAs (Decidable (c.dbuf.length ≤ len ∧
      if all then ret = len else 1 ≤ ret ∧ ret ≤ len))

/-- The sizes of what is left of the frames of each round. -/
def batches (s : Session) : List (List Bytes) → List (List ℕ)
  | [] => []
  | fs :: rounds =>
    remainders s.recvOffset (s.recvQueue ++ fs) :: rounds.map fun fs => fs.map List.length

/-- The pieces a call serves: with `all` those of every batch, otherwise those up to the first
batch with a byte in it. -/
def served (all : Bool) : List (List ℕ) → List ℕ
  | [] => []
  | b :: bs => if !all && 0 < b.sum then b else b ++ served all bs

variable {s : Session} {c : RecvCall} {rounds : List (List Bytes)}

/-- With an empty queue only the frames of the rounds count. -/
theorem batches_of_recvQueue_eq_nil (hq : s.recvQueue = []) (ho : s.recvOffset = 0) :
    s.batches rounds = rounds.map fun fs => fs.map List.length := by
  cases rounds <;> simp [batches, hq, ho]

/-- A traversal that leaves the request unsatisfied leaves an empty queue. -/
theorem recvLocked_of_not_satisfied (hs : s.recvQueue = [] → s.recvOffset = 0)
    (h : (s.recvLocked c).2.satisfied = false) :
    (s.recvLocked c).1.recvQueue = [] ∧ (s.recvLocked c).1.recvOffset = 0 := by
  have hlt : (s.recvLocked c).2.total < (s.recvLocked c).2.len :=
    Reader.total_lt_of_not_satisfied h
  have hlen : (s.recvLocked c).2.len = c.len := traverse_args.1
  rw [hlen] at hlt
  have hq : (s.recvLocked c).1.recvQueue = [] := traverse_empties hlt
  have hcur := @traverse_cursorOk c s.recvQueue s.recvOffset hs
  rw [show (c.traverse s.recvQueue s.recvOffset).1 = [] from hq] at hcur
  exact ⟨hq, hcur⟩

/-- When the test behind the locked section ends the call. -/
theorem recvLocked_satisfied_iff : (s.recvLocked c).2.satisfied = true ↔
    c.all = false ∧ 0 < (s.recvLocked c).2.total ∨ c.len ≤ (s.recvLocked c).2.total := by
  have hargs : (s.recvLocked c).2.len = c.len ∧ (s.recvLocked c).2.all = c.all := traverse_args
  simp only [satisfied, Bool.or_eq_true, Bool.and_eq_true, Bool.not_eq_true', decide_eq_true_eq,
    hargs]

/-- A call returns within its bounds after a traversal exactly when no frame of the batch
straddles the end of the request. -/
theorem recvLocked_bounded_iff (ht : c.total < c.len) (hb : c.dbuf.length = c.total)
    (h : (s.recvLocked c).2.satisfied = true) :
    RecvResult.Bounded c.len c.all
        (.returned (s.recvLocked c).1 (s.recvLocked c).2 (s.recvLocked c).2.total) ↔
      ¬ Straddles c.len c.total (remainders s.recvOffset s.recvQueue) := by
  obtain ⟨hfit, hover⟩ := @traverse_total c s.recvQueue s.recvOffset ht
  have hstored : (s.recvLocked c).2.dbuf.length = (s.recvLocked c).2.total :=
    length_traverse_dbuf hb
  have hpos : 0 < (s.recvLocked c).2.total := by
    have := recvLocked_satisfied_iff.1 h
    omega
  simp only [RecvResult.Bounded, hstored]
  constructor
  · rintro ⟨hle, -⟩ hst
    exact (hover hst).not_ge hle
  · intro hns
    have htotal : (s.recvLocked c).2.total = _ := hfit hns
    refine ⟨by omega, ?_⟩
    split_ifs with ha
    · have := recvLocked_satisfied_iff.1 h
      simp only [ha, Bool.true_eq_false, false_and, false_or] at this
      omega
    · omega

/-- A call that returns after a traversal has been served: the later batches do not matter. -/
theorem straddles_served_of_satisfied {bs : List (List ℕ)} (ht : c.total < c.len)
    (ha : c.all = false → c.total = 0) (h : (s.recvLocked c).2.satisfied = true) :
    Straddles c.len c.total (served c.all (remainders s.recvOffset s.recvQueue :: bs)) ↔
      Straddles c.len c.total (remainders s.recvOffset s.recvQueue) := by
  obtain ⟨hfit, -⟩ := @traverse_total c s.recvQueue s.recvOffset ht
  have hsat := recvLocked_satisfied_iff.1 h
  simp only [served, Bool.and_eq_true, Bool.not_eq_true', decide_eq_true_eq]
  split_ifs with hfirst
  · exact Iff.rfl
  · rw [straddles_append]
    refine ⟨fun hst => ?_, .inl⟩
    by_contra hns
    have htotal : (s.recvLocked c).2.total = _ := hfit hns
    refine not_straddles_of_le ?_ (hst.resolve_left hns)
    cases hall : c.all with
    | false =>
      have := ha hall
      simp only [hall, true_and, not_lt, Nat.le_zero] at hfirst
      omega
    | true =>
      simp only [hall, Bool.true_eq_false, false_and, false_or] at hsat
      omega

/-- A call that goes on after a traversal has taken the whole batch, and no frame of it
straddles the end of the request. -/
theorem straddles_served_of_not_satisfied {bs : List (List ℕ)} (ht : c.total < c.len)
    (h : (s.recvLocked c).2.satisfied = false) :
    (c.all = false → (s.recvLocked c).2.total = 0) ∧
    (Straddles c.len c.total (served c.all (remainders s.recvOffset s.recvQueue :: bs)) ↔
      Straddles c.len (s.recvLocked c).2.total (served c.all bs)) := by
  obtain ⟨hfit, hover⟩ := @traverse_total c s.recvQueue s.recvOffset ht
  have hsat := mt recvLocked_satisfied_iff.2 (by rw [h]; exact Bool.false_ne_true)
  push Not at hsat
  have hns : ¬ Straddles c.len c.total (remainders s.recvOffset s.recvQueue) := fun hst =>
    (hover hst).not_ge hsat.2.le
  have htotal : (s.recvLocked c).2.total = _ := hfit hns
  have hzero : c.all = false → (s.recvLocked c).2.total = 0 := fun hall =>
    Nat.le_zero.1 (hsat.1 hall)
  refine ⟨hzero, ?_⟩
  have hfirst : ¬ ((!c.all && decide (0 < (remainders s.recvOffset s.recvQueue).sum)) = true) := by
    simp only [Bool.and_eq_true, Bool.not_eq_true', decide_eq_true_eq, not_and, not_lt]
    intro hall
    have := hzero hall
    omega
  simp only [served, if_neg hfirst, straddles_append, hns, false_or]
  rw [show (s.recvLocked c).2.total = c.total + (remainders s.recvOffset s.recvQueue).sum by omega]

/-- **The bounds of a receive call**, from any round of the call on. -/
theorem usbwsRecv_bounded_aux (hs : s.recvQueue = [] → s.recvOffset = 0) (ht : c.total < c.len)
    (hb : c.dbuf.length = c.total) (ha : c.all = false → c.total = 0) :
    (s.usbwsRecv rounds c).Bounded c.len c.all ↔
      ¬ Straddles c.len c.total (served c.all (s.batches rounds)) := by
  induction rounds generalizing s c with
  | nil =>
    simp only [usbwsRecv, batches, served, not_straddles_nil, not_false_eq_true, iff_true]
    exact (hb.trans_lt ht).le
  | cons fs rounds ih =>
    rw [usbwsRecv]
    have hbatches : s.batches (fs :: rounds) =
        remainders (s.arrive fs).recvOffset (s.arrive fs).recvQueue ::
          rounds.map fun fs => fs.map List.length := rfl
    have hs₁ : (s.arrive fs).recvQueue = [] → (s.arrive fs).recvOffset = 0 := by
      rw [arrive_recvQueue, List.append_eq_nil_iff]
      exact fun h => hs h.1
    rw [hbatches]
    generalize s.arrive fs = s₁ at hs₁ ⊢
    simp only
    split_ifs with hq hsat
    · -- nothing has come; the call goes on sleeping
      rw [List.isEmpty_iff] at hq
      rw [ih hs₁ ht hb ha, batches_of_recvQueue_eq_nil hq (hs₁ hq), hq]
      simp [remainders, served]
    · -- the call returns
      rw [recvLocked_bounded_iff ht hb hsat]
      exact not_congr (straddles_served_of_satisfied ht ha hsat).symm
    · -- the call waits for more
      rw [Bool.not_eq_true] at hsat
      obtain ⟨hq', ho'⟩ := recvLocked_of_not_satisfied hs₁ hsat
      obtain ⟨hzero, hstr⟩ := @straddles_served_of_not_satisfied s₁ c
        (rounds.map fun fs => fs.map List.length) ht hsat
      have hargs : (s₁.recvLocked c).2.len = c.len ∧ (s₁.recvLocked c).2.all = c.all :=
        traverse_args
      have := @ih (s₁.recvLocked c).1 (s₁.recvLocked c).2 (fun _ => ho')
        (Reader.total_lt_of_not_satisfied hsat) (length_traverse_dbuf hb) (by rwa [hargs.2])
      rw [hargs.1, hargs.2, batches_of_recvQueue_eq_nil hq' ho'] at this
      rw [this, hstr]

/-- **The bounds of a receive call.**  It stores inside of the caller's buffer and returns what
was asked for exactly when no frame that it serves straddles the end of the request. -/
theorem usbwsRecv_bounded_iff {len : ℕ} (all : Bool) (rounds : List (List Bytes))
    (hs : CursorOk s.recvOffset s.recvQueue) (hl : 0 < len) :
    (s.usbwsRecv rounds { len := len, all := all }).Bounded len all ↔
      ¬ Straddles len 0 (served all (s.batches rounds)) := by
  refine usbwsRecv_bounded_aux (c := { len := len, all := all }) (fun hq => ?_) hl rfl fun _ => rfl
  rwa [hq] at hs

/-- A partly read frame, and a second one that arrives while the call waits for it. -/
theorem usbwsRecv_bounded_of_two_rounds :
    ({ init 0 with recvQueue := [[1, 2, 3]], recvOffset := 1 }.usbwsRecv [[], [[4]]]
      { len := 3, all := true }).Bounded 3 true :=
  (@usbwsRecv_bounded_iff { init 0 with recvQueue := [[1, 2, 3]], recvOffset := 1 } 3 true
    [[], [[4]]] (.inr (by decide)) (by decide)).2 (by decide)

/-- A request for two bytes with frames of one and two bytes queued stores three bytes and
returns 3. -/
theorem not_bounded_of_straddling_frame :
    { init 0 with recvQueue := [[1], [2, 3]] }.usbwsRecv [[]] { len := 2, all := true } =
      .returned (init 0) { len := 2, all := true, total := 3, dbuf := [1, 2, 3] } 3 ∧
    ¬ ({ init 0 with recvQueue := [[1], [2, 3]] }.usbwsRecv [[]]
      { len := 2, all := true }).Bounded 2 true := by
  decide

/-- The rounds of a call that is still waiting can be continued. -/
theorem usbwsRecv_append {s' : Session} {c' : RecvCall} {rounds' : List (List Bytes)}
    (h : s.usbwsRecv rounds c = .blocked s' c') :
    s.usbwsRecv (rounds ++ rounds') c = s'.usbwsRecv rounds' c' := by
  induction rounds generalizing s c with
  | nil => cases h; rfl
  | cons fs rounds ih =>
    simp only [List.cons_append, usbwsRecv] at h ⊢
    split_ifs at h ⊢
    · exact ih h
    · exact ih h

/-- One more round of a waiting call, with a traversal. -/
theorem usbwsRecv_round {s' : Session} {c' : RecvCall} {fs : List Bytes}
    (h : s.usbwsRecv rounds c = .blocked s' c') (hq : s'.recvQueue ++ fs ≠ []) :
    s.usbwsRecv (rounds ++ [fs]) c =
      let r := (s'.arrive fs).recvLocked c'
      if r.2.satisfied then .returned r.1 r.2 r.2.total else .blocked r.1 r.2 := by
  rw [usbwsRecv_append h]
  simp [usbwsRecv, hq]

end Session

/-! ### The reader makes such calls -/

namespace Reader

/-- The reader is where `Session.usbwsRecv`, begun with the call `c` on the session `s`, is after
some rounds, and the frames `fs` have arrived since. -/
inductive Tracks (s : Session) (c : RecvCall) : Reader → Prop
  | going {rounds : List (List Bytes)} {s' : Session} {c' : RecvCall} {pc : RecvPc}
      {fs : List Bytes} : s.usbwsRecv rounds c = .blocked s' c' → pc.call = some c' →
      (∀ v, pc ≠ .done c' v) → (pc = .check c' ∨ pc = .copy c' → s'.recvQueue ++ fs ≠ []) →
      Tracks s c ⟨s'.arrive fs, pc⟩
  | returned {rounds : List (List Bytes)} {s' : Session} {c' : RecvCall} {v : ℤ}
      {fs : List Bytes} : s.usbwsRecv rounds c = .returned s' c' v →
      Tracks s c ⟨s'.arrive fs, .done c' v⟩

variable {s s' : Session} {c c' : RecvCall} {pc pc' : RecvPc} {r r' : Reader} {l : Label}

theorem Tracks.arrive {f : Bytes} (h : Tracks s c ⟨s', pc⟩) (hl : pc.locked = false) :
    Tracks s c ⟨s'.arrive [f], pc⟩ := by
  cases h with
  | going hr hcall hd _ =>
    rw [Session.arrive_arrive]
    refine .going hr hcall hd ?_
    rintro (rfl | rfl) <;> cases hl
  | returned hr =>
    rw [Session.arrive_arrive]
    exact .returned hr

/-- Between the traversals the reader only moves on. -/
theorem Tracks.move (h : Tracks s c ⟨s', pc⟩) (hp : pc.call = some c') (hp' : pc'.call = some c')
    (hd : ∀ v, pc ≠ .done c' v) (hd' : ∀ v, pc' ≠ .done c' v)
    (hq : pc' = .check c' ∨ pc' = .copy c' → pc = .check c' ∨ s'.recvQueue ≠ []) :
    Tracks s c ⟨s', pc'⟩ := by
  cases h with
  | going hr hcall _ hq₀ =>
    obtain rfl := Option.some.inj (hcall.symm.trans hp)
    refine .going hr hp' hd' fun hpc => ?_
    exact (hq hpc).elim (fun h => hq₀ (.inl h)) id
  | returned _ =>
    cases hp
    exact absurd rfl (hd _)

/-- A traversal is a round. -/
theorem Tracks.copy (h : Tracks s c ⟨s', .copy c'⟩) : Tracks s c
    ⟨(s'.recvLocked c').1, if (s'.recvLocked c').2.satisfied = true then
      .done (s'.recvLocked c').2 (s'.recvLocked c').2.total else .outer (s'.recvLocked c').2⟩ := by
  cases h with
  | @going rounds s₁ c₁ _ fs hr hcall _ hq =>
    cases hcall
    have hround := Session.usbwsRecv_round hr (hq (.inr rfl))
    simp only at hround
    rw [← Session.arrive_nil ((s₁.arrive fs).recvLocked c').1]
    split_ifs at hround ⊢ with hs
    · exact .returned hround
    · exact .going hround rfl (fun _ he => by cases he) (by rintro (he | he) <;> cases he)

/-- A step within a call is one of the computation. -/
theorem Tracks.step (h : Tracks s c r) (hst : lts.step r l r') (hl : l ≠ .ret)
    (hc : r'.session.cont = true) : Tracks s c r' := by
  cases step_of_next hst with
  | arrive _ hlock => exact h.arrive hlock
  | refuse => exact h
  | discontinue => cases hc
  | call _ =>
    cases h with
    | going _ hcall _ _ => cases hcall
  | enter _ | acquire | wait _ _ =>
    exact h.move rfl rfl (fun _ he => by cases he) (fun _ he => by cases he)
      (by rintro (he | he) <;> cases he)
  | awake hq =>
    exact h.move rfl rfl (fun _ he => by cases he) (fun _ he => by cases he)
      fun _ => .inr (hq.resolve_left (by simpa using hc))
  | go _ =>
    exact h.move rfl rfl (fun _ he => by cases he) (fun _ he => by cases he) fun _ => .inl rfl
  | leave hn | fail hn => simp [hn] at hc
  | finish hs =>
    have := h.copy
    rwa [if_pos hs] at this
  | again hs =>
    have := h.copy
    rwa [hs, if_neg Bool.false_ne_true] at this
  | ret => exact absurd rfl hl

/-- **The reader computes `Session.usbwsRecv`.**  While the session continues and until the call
returns, a run from the first step of a call on is a computation with some rounds. -/
theorem exists_usbwsRecv {tr : List Move} (he : lts.Exec ⟨s, .outer c⟩ tr r)
    (hl : ∀ m ∈ tr, m.label ≠ .ret) (hc : r.session.cont = true) : Tracks s c r := by
  induction he with
  | nil =>
    have h : Tracks s c ⟨s.arrive [], .outer c⟩ := .going (show s.usbwsRecv [] c = _ from rfl) rfl
      (fun _ he => by cases he) (by rintro (he | he) <;> cases he)
    rwa [Session.arrive_nil] at h
  | snoc _ hst ih =>
    rw [List.forall_mem_cons] at hl
    exact (ih hl.2 (cont_of_step hst hc)).step hst hl.1 hc

end Reader

end Usbws

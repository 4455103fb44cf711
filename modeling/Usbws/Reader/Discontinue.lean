import Usbws.Reader.Basic

/-!
# Discontinuation and receive calls

A `usbws_recv` call that ends because its session was discontinued should return `-1`, however
much it has copied by then (`Reader.Reports`).  The test under the lock does so.  The test of the
outer loop leaves the loop instead and returns the count: nothing if `cont` is cleared before the
call is entered, and a short count if it is cleared after a traversal has given the lock back.

`Reader.reports_iff` : in every run the calls report a discontinuation exactly when no outer loop
test finds `cont` cleared.
-/

namespace Usbws

namespace Reader

/-- A call at its `return` whose request is not satisfied returns `-1`. -/
def Reports (r : Reader) : Prop := ∀ x ∈ r.pc.returning, x.1.satisfied = false → x.2 = -1

instance (r : Reader) : Decidable r.Reports :=
  inferInstanceAs (Decidable (∀ x ∈ r.pc.returning, x.1.satisfied = false → x.2 = -1))

/-- The reader is about to evaluate `while (session->cont)` with `cont` cleared. -/
def OuterTestFails (m : Move) : Prop :=
  m.label = .run ∧ m.pre.session.cont = false ∧ m.pre.pc.isOuter = true

instance (m : Move) : Decidable (OuterTestFails m) :=
  inferInstanceAs (Decidable (_ ∧ _ ∧ _))

/-- A call that is not at its `return` has not satisfied its request. -/
def Unsatisfied (r : Reader) : Prop :=
  ∀ c, r.pc.call = some c → (∀ v, r.pc ≠ .done c v) → c.satisfied = false

variable {r r' : Reader} {l : Label} {s : Session} {tr : List Move}

theorem unsatisfied_idle (s : Session) : Unsatisfied ⟨s, .idle⟩ := by
  intro c hc
  cases hc

/-- A call moves on with the same request. -/
theorem Unsatisfied.move {pc pc' : RecvPc} {c : RecvCall} {s' : Session}
    (h : Unsatisfied ⟨s, pc⟩) (hc : pc.call = some c) (hc' : pc'.call = some c)
    (hd : ∀ v, pc ≠ .done c v) : Unsatisfied ⟨s', pc'⟩ := by
  intro c' hcall _
  obtain rfl := Option.some.inj (hc'.symm.trans hcall)
  exact h c hc hd

theorem Unsatisfied.step (h : r.Unsatisfied) (hst : lts.step r l r') : r'.Unsatisfied := by
  cases step_of_next hst with
  | arrive | refuse | discontinue => exact h
  | call hl =>
    intro c hc _
    cases hc
    simpa [RecvCall.satisfied] using hl.ne'
  | enter | leave | acquire | wait | awake | go | fail =>
    exact h.move rfl rfl fun v hv => by cases hv
  | finish =>
    intro c hc hd
    cases hc
    exact absurd rfl (hd _)
  | again hs =>
    intro c hc _
    cases hc
    exact hs
  | ret => exact unsatisfied_idle _

/-- A failing outer test ends the call with its count. -/
theorem OuterTestFails.not_reports (h : r.Unsatisfied) (hst : lts.step r l r')
    (hf : OuterTestFails ⟨r, l, r'⟩) : ¬ r'.Reports := by
  obtain ⟨rfl, hcont, hpc⟩ := hf
  intro hr
  cases step_of_next hst with
  | @leave s₀ c₀ _ =>
    have hsat : c₀.satisfied = false := h c₀ rfl fun v hv => by cases hv
    have hv : (c₀.total : ℤ) = -1 := hr (c₀, c₀.total) rfl hsat
    omega
  | enter hn =>
    rw [hn] at hcont
    cases hcont
  | _ => cases hpc

/-- Every other step keeps a reader that reports discontinuation. -/
theorem Reports.step (h : r.Reports) (hst : lts.step r l r') (hf : ¬ OuterTestFails ⟨r, l, r'⟩) :
    r'.Reports := by
  cases step_of_next hst with
  | arrive | refuse | discontinue => exact h
  | leave hc => exact absurd ⟨rfl, hc, rfl⟩ hf
  | fail =>
    intro x hx _
    cases hx
    rfl
  | finish hs =>
    intro x hx hsat
    cases hx
    rw [hs] at hsat
    cases hsat
  | _ =>
    intro x hx
    cases hx

/-- **A receive call reports a discontinuation** in every state of a run, from whatever session,
exactly when no outer loop test of the run is made with `cont` cleared. -/
theorem reports_iff (he : lts.Exec ⟨s, .idle⟩ tr r) :
    (∀ m ∈ tr, m.post.Reports) ↔ ∀ m ∈ tr, ¬ OuterTestFails m := by
  have hidle : Reports ⟨s, .idle⟩ := fun x hx => by cases hx
  constructor
  · intro h m hm hf
    have hun : ∀ m ∈ tr, OuterTestFails m → ¬ m.post.Reports :=
      he.forall_moves (C := fun _ => True) (I := Unsatisfied) (fun _ _ => trivial)
        (unsatisfied_idle s) (fun _ _ _ hI hst _ => hI.step hst)
        fun _ _ _ hI hst _ hf => hf.not_reports hI hst
    exact hun m hm hf (h m hm)
  · intro hC
    exact he.forall_moves (I := Reports) hC hidle (fun _ _ _ hI hst hf => hI.step hst hf)
      fun _ _ _ hI hst hf => hI.step hst hf

/-- A call that is asleep when the session is discontinued returns -1. -/
theorem reports_of_asleep : ∃ tr r, lts.Exec (start 0) tr r ∧
    returns tr = [({ len := 2, all := true }, -1)] ∧ ∀ m ∈ tr, m.post.Reports := by
  obtain ⟨tr, r, he, hr, hf⟩ : ∃ tr r, lts.Exec (start 0) tr r ∧
      returns tr = [({ len := 2, all := true }, -1)] ∧ ∀ m ∈ tr, ¬ OuterTestFails m :=
    LTS.exists_exec_of_replay
      [.call 2 true, .run, .run, .run, .discontinue, .run, .run, .run, .ret]
      _ (fun _ _ _ h => h) (by decide)
  exact ⟨tr, r, he, hr, (reports_iff he).2 hf⟩

/-- A call for two bytes that has got one when the session is discontinued returns 1. -/
theorem not_reports_of_short_count : ∃ tr r, lts.Exec (start 0) tr r ∧
    returns tr = [({ len := 2, all := true, total := 1, dbuf := [7] }, 1)] ∧
    ∃ m ∈ tr, ¬ m.post.Reports :=
  LTS.exists_exec_of_replay
    [.handleRecv {} [7], .call 2 true, .run, .run, .run, .run, .run, .discontinue, .run, .ret]
    _ (fun _ _ _ h => h) (by decide)

end Reader

end Usbws

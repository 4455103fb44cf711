import Usbws.Ctx.Lifetime
import Usbws.Ctx.Service

/-!
# The end of the service

The handler of SIGINT clears `service_ctx.cont`, which `usbws_service` tests in front of each
`lws_service`; then it destroys its context.

* `ServicePc.rank` : how many statements there are at most until the return, once `cont` is cleared.
* `Service.cont_of_sigint` : every handler that has come past its test has cleared `cont`.
* `Service.stops_of_sigint` : then `usbws_service` returns within six statements, without another
  `lws_service`.
* `Service.released` : it leaves no context behind, whichever way it returns.
-/

namespace Usbws

namespace ServicePc

/-- How many statements there are until the return, once `cont` is cleared. -/
def rank : ServicePc → ℕ
  | create => 7
  | register | service => 6
  | install | healthCheck => 5
  | test => 4
  | destroyTest => 3
  | destroy => 2
  | clear => 1
  | done _ => 0

/-- What has become of the context. -/
def phase : ServicePc → Phase
  | create | done _ => .none
  | register | install | test | service | healthCheck | destroyTest | destroy => .held
  | clear => .released

/-- The handler is installed. -/
def installed : ServicePc → Bool
  | create | register | install => false
  | _ => true

variable {pc pc' : ServicePc} {c c' : Ctx} {ok : Bool} {o : Option Ctx.Op}

/-- Each statement of a stopped service brings its return nearer. -/
theorem rank_of_next (h : pc.next c ok = some (pc', o)) (hc : c.cont = false) :
    pc'.rank + 1 ≤ pc.rank ∧ pc' ≠ .service := by
  cases pc with
  | done => cases h
  | test =>
    cases h
    rw [hc]
    exact ⟨by decide, nofun⟩
  | create | service | destroyTest =>
    cases h
    split_ifs <;> exact ⟨by simp [rank], nofun⟩
  | register | install | healthCheck | destroy | clear => cases h; exact ⟨by simp [rank], nofun⟩

theorem installed_of_next (h : pc.next c ok = some (pc', o)) (hi : pc.installed = true) :
    pc'.installed = true := by
  cases pc with
  | create | register | install => cases hi
  | done => cases h
  | test | service | destroyTest =>
    cases h
    split_ifs <;> rfl
  | healthCheck | destroy | clear => cases h; rfl

theorem rank_of_installed (h : pc.installed = true) : pc.rank ≤ 6 := by
  cases pc with
  | create | register | install => cases h
  | _ => simp [rank]

theorem fits_of_next (h : pc.next c ok = some (pc', o)) (hc : c.perform o = some c')
    (hf : c.Fits pc.phase) : c'.Fits pc'.phase := by
  cases pc with
  | create =>
    cases h
    have hcreate := hf.create hc
    cases ok <;> exact hcreate
  | register | install =>
    cases h
    exact hf.perform hc (by rintro x ⟨⟩; rfl)
  | test | service =>
    cases h
    cases hc
    split_ifs <;> exact hf
  | healthCheck =>
    cases h
    cases hc
    exact hf
  | destroyTest =>
    cases h
    cases hc
    rw [if_pos hf.isSome]
    exact hf
  | destroy => cases h; exact hf.destroy hc
  | clear => cases h; exact hf.clear hc
  | done => cases h

end ServicePc

namespace Service

/-- A statement of `usbws_service`. -/
def isRun (m : Move) : Bool :=
  match m.label with
  | .run _ => true
  | .handler _ => false

/-- `usbws_service` has returned. -/
def Returned (p : Service) : Prop := ∃ ret, p.pc = .done ret

variable {p p' : Service} {l : Label} {tr tr' : List Move}

theorem cases_of_step (h : lts.step p l p') :
    (∃ ok o, l = .run ok ∧ p.pc.next p.ctx ok = some (p'.pc, o) ∧ p.ctx.perform o = some p'.ctx) ∨
      ∃ s, l = .handler s ∧ p.ctx.handle s = some p'.ctx ∧ p'.pc = p.pc := by
  change next p l = some p' at h
  cases l with
  | run ok =>
    obtain ⟨r, hr, h⟩ := Option.bind_eq_some_iff.1 h
    obtain ⟨c, hc, rfl⟩ := Option.map_eq_some_iff.1 h
    exact .inl ⟨ok, r.2, rfl, hr, hc⟩
  | handler s =>
    obtain ⟨c, hc, rfl⟩ := Option.map_eq_some_iff.1 h
    exact .inr ⟨s, rfl, hc, rfl⟩

end Service

/-! ### The handler -/

theorem Ctx.flags_of_handle {c c' : Ctx} {s : Ctx.HandlerStep} (h : c.handle s = some c') :
    c'.installed = c.installed ∧ c'.servicing = c.servicing ∧
      (0 < c'.breaking → c.installed = true ∨ 0 < c.breaking) := by
  cases s with
  | enter =>
    simp only [Ctx.handle, Option.ite_none_right_eq_some, Option.some.injEq] at h
    obtain ⟨hi, rfl⟩ := h
    exact ⟨rfl, rfl, fun _ => .inl hi⟩
  | stop =>
    simp only [Ctx.handle, Option.ite_none_right_eq_some, Option.some.injEq] at h
    obtain ⟨hb, rfl⟩ := h
    split_ifs <;> exact ⟨rfl, rfl, fun _ => .inr hb⟩
  | cancel =>
    simp only [Ctx.handle, Option.ite_none_right_eq_some, Option.some.injEq] at h
    obtain ⟨-, rfl⟩ := h
    exact ⟨rfl, rfl, .inr⟩

namespace Service

variable {p p' : Service} {l : Label} {tr tr' : List Move}

/-- The handler is not installed before its context is registered. -/
structure Ready (p : Service) : Prop where
  servicing : p.pc = .install ∨ p.ctx.installed = true → p.ctx.servicing = true
  pc : p.ctx.installed = true → p.pc.installed = true
  breaking : 0 < p.ctx.breaking → p.ctx.installed = true

theorem start_ready : start.Ready where
  servicing := by rintro (h | h) <;> cases h
  pc := nofun
  breaking h := absurd h (Nat.lt_irrefl 0)

theorem Ready.step (h : p.Ready) (hst : lts.step p l p') : p'.Ready := by
  rcases cases_of_step hst with ⟨ok, o, -, hr, hc⟩ | ⟨s, -, hs, hpc⟩
  · obtain ⟨c', pc'⟩ := p'
    dsimp only at hr hc
    cases hpc : p.pc with
    | done => rw [hpc] at hr; cases hr
    | register =>
      rw [hpc] at hr
      cases hr
      cases hc
      refine ⟨fun _ => rfl, fun hi => ?_, h.breaking⟩
      have hno := h.pc hi
      rw [hpc] at hno
      cases hno
    | install =>
      rw [hpc] at hr
      cases hr
      cases hc
      exact ⟨fun _ => h.servicing (.inl hpc), fun _ => rfl, fun _ => rfl⟩
    | create =>
      rw [hpc] at hr
      cases hr
      have hno : p.ctx.installed = false := by
        by_contra hi
        have hin := h.pc (by simpa using hi)
        rw [hpc] at hin
        cases hin
      cases ok <;> cases hc <;>
        exact ⟨fun hi => h.servicing (.inr (hi.resolve_left nofun)),
          fun hi => absurd (hno.symm.trans hi) nofun, h.breaking⟩
    | test | service | destroyTest =>
      rw [hpc] at hr
      cases hr
      cases hc
      split_ifs <;>
        exact ⟨fun hi => h.servicing (.inr (hi.resolve_left nofun)), fun _ => rfl, h.breaking⟩
    | healthCheck | destroy | clear =>
      rw [hpc] at hr
      cases hr
      cases hc
      exact ⟨fun hi => h.servicing (.inr (hi.resolve_left nofun)), fun _ => rfl, h.breaking⟩
  · obtain ⟨hi, hsv, hb⟩ := Ctx.flags_of_handle hs
    refine ⟨fun hx => ?_, fun hx => ?_, fun hx => ?_⟩
    · rw [hsv]
      rw [hpc, hi] at hx
      exact h.servicing hx
    · rw [hpc]
      exact h.pc (hi ▸ hx)
    · rw [hi]
      exact (hb hx).elim id h.breaking

theorem ready_of_exec (he : lts.Exec start tr p) : p.Ready :=
  he.invariant start_ready fun _ _ _ h hst => h.step hst

/-- **Every SIGINT is heeded**: a handler that has come past its test has cleared `cont`. -/
theorem cont_of_sigint (he : lts.Exec start tr p) (hs : ∃ m ∈ tr, m.label = .handler .stop) :
    p.ctx.cont = false ∧ p.pc.installed = true := by
  induction he with
  | nil => simp at hs
  | @snoc tr p p' l hex hst ih =>
    have hready := ready_of_exec (hex.snoc hst)
    have hcont := Ctx.cont_of_perform (perform_op hst)
    obtain ⟨m, hm, hl⟩ := hs
    rcases List.mem_cons.1 hm with rfl | hm
    · cases hl
      rcases cases_of_step hst with ⟨ok, o, hl, -⟩ | ⟨s, hl, hh, hpc⟩
      · cases hl
      · cases hl
        have hr := ready_of_exec hex
        simp only [Ctx.handle, Option.ite_none_right_eq_some, Option.some.injEq] at hh
        obtain ⟨hb, hctx⟩ := hh
        have hi := hr.breaking hb
        rw [if_pos (hr.servicing (.inr hi))] at hctx
        rw [hpc, ← hctx]
        exact ⟨rfl, hr.pc hi⟩
    · obtain ⟨hc, hpc⟩ := ih ⟨m, hm, hl⟩
      refine ⟨hcont hc, ?_⟩
      rcases cases_of_step hst with ⟨ok, o, -, hr, -⟩ | ⟨s, -, -, hpc'⟩
      · exact ServicePc.installed_of_next hr hpc
      · rw [hpc']
        exact hpc

/-! ### The end -/

theorem fits_of_exec (he : lts.Exec start tr p) : p.ctx.Fits p.pc.phase := by
  have hb : Ctx.init.ledger.Balanced := Ledger.accounts_nil.1 Ledger.accounts_empty
  refine he.invariant (I := fun p => p.ctx.Fits p.pc.phase) (.none rfl hb) ?_
  intro p l p' h hst
  rcases cases_of_step hst with ⟨ok, o, -, hr, hc⟩ | ⟨s, -, hs, hpc⟩
  · exact ServicePc.fits_of_next hr hc h
  · rw [hpc]
    exact h.apply (o := .handler s) hs rfl

/-- **No context is left behind**, whichever way `usbws_service` returns. -/
theorem released (he : lts.Exec start tr p) (hr : p.Returned) : p.ctx.ledger.Balanced := by
  have hfits := fits_of_exec he
  obtain ⟨ret, hret⟩ := hr
  rw [hret] at hfits
  cases hfits with
  | none _ hb => exact hb

/-- As long as it has not returned, the next statement of `usbws_service` can be executed. -/
theorem returned_or_step (p : Service) : p.Returned ∨ ∃ p', lts.step p (.run true) p' := by
  obtain ⟨c, pc⟩ := p
  cases pc with
  | done ret => exact .inl ⟨ret, rfl⟩
  | create | register | install | test | service | healthCheck | destroyTest | destroy | clear =>
    exact .inr ⟨_, rfl⟩

/-- **SIGINT ends the service.**  Behind the test of a handler, `usbws_service` returns within six
statements, enters `lws_service` no more, and leaves no context behind. -/
theorem stops_of_sigint (he : lts.Exec start tr p) (hs : ∃ m ∈ tr, m.label = .handler .stop)
    (he' : lts.Exec p tr' p') :
    tr'.countP isRun ≤ 6 ∧
      (∀ m ∈ tr', m.post.pc = .service → m.pre.pc = .service ∧ isRun m = false) ∧
      (p'.Returned ∧ p'.ctx.ledger.Balanced ∨ ∃ q, lts.step p' (.run true) q) := by
  obtain ⟨hcont, hpc⟩ := cont_of_sigint he hs
  have hstep : ∀ s l s', s.ctx.cont = false → lts.step s l s' →
      s'.ctx.cont = false ∧ (isRun ⟨s, l, s'⟩).toNat + s'.pc.rank ≤ s.pc.rank := by
    intro s l s' hc hst
    refine ⟨Ctx.cont_of_perform (perform_op hst) hc, ?_⟩
    rcases cases_of_step hst with ⟨ok, o, rfl, hr, -⟩ | ⟨h, rfl, -, hpc⟩
    · have hrank := (ServicePc.rank_of_next hr hc).1
      simp only [isRun, Bool.toNat_true]
      omega
    · simp [isRun, hpc]
  refine ⟨?_, ?_, ?_⟩
  · have hle := (he'.countP_add_rank_le (r := fun q : Service => q.pc.rank) hcont hstep).2
    have hsix := ServicePc.rank_of_installed hpc
    omega
  · refine he'.forall_moves (C := fun _ => True) (I := fun q => q.ctx.cont = false)
      (fun _ _ => trivial) hcont (fun s l s' hc hst _ => (hstep s l s' hc hst).1) ?_
    intro s l s' hc hst _ hservice
    rcases cases_of_step hst with ⟨ok, o, rfl, hr, -⟩ | ⟨h, rfl, -, hpc⟩
    · exact absurd hservice (ServicePc.rank_of_next hr hc).2
    · exact ⟨hpc ▸ hservice, rfl⟩
  · exact (returned_or_step p').imp_left fun hr => ⟨hr, released (he.append he') hr⟩

/-- SIGINT comes while the daemon is in `lws_service`. -/
theorem stops_of_sigint_of_service : ∃ tr p tr' p', lts.Exec start tr p ∧ p.pc = .service ∧
    lts.Exec p tr' p' ∧ tr'.countP isRun = 6 ∧ p'.Returned ∧ p'.ctx.ledger.Balanced := by
  obtain ⟨tr, p, he, hs, hpc, hr⟩ : ∃ tr p, lts.Exec start tr p ∧
      (∃ m ∈ tr, m.label = .handler .stop) ∧ p.pc = .service ∧
      (LTS.replay next [] p (.handler .cancel :: .replicate 6 (.run true))).any (fun r =>
        decide (r.1.countP isRun = 6 ∧ r.2.pc = .done 0)) = true :=
    LTS.exists_exec_of_replay
      (.replicate 4 (.run true) ++ [.handler .enter, .handler .stop]) _
      (fun _ _ _ h => h) (by decide)
  obtain ⟨tr', p', he', hn, hd⟩ : ∃ tr' p', lts.Exec p tr' p' ∧ tr'.countP isRun = 6 ∧
      p'.pc = .done 0 :=
    LTS.exists_exec_of_replay _ (fun tr (q : Service) => tr.countP isRun = 6 ∧ q.pc = .done 0)
      (fun _ _ _ h => h) hr
  obtain ⟨-, -, hb | ⟨q, hq⟩⟩ := stops_of_sigint he hs he'
  · exact ⟨tr, p, tr', p', he, hpc, he', hn, hb⟩
  · change next p' (.run true) = some q at hq
    simp [next, hd, ServicePc.next] at hq

end Service

end Usbws

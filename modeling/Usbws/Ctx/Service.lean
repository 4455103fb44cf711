import Mathlib.Data.Int.Notation
import Usbws.Ctx.Basic

/-!
# The service of the daemon

`usbws_service` statement by statement, with SIGINT at any time: also behind its end, when the
process goes on in `main`.

* `ServicePc`, `ServicePc.next` : the program points and the next statement with its operation on
  the context.
* `Service` : the system.
* `Service.exec_view` : the operations of a run are a run of the operations.
* `Service.usable_iff` : at which program points the pointer to the context is usable.
-/

namespace Usbws

/-- The program points of `usbws_service`. -/
inductive ServicePc where
  /-- At `usbws_ctx_create`. -/
  | create
  /-- At the two statements of `usbws_set_sigint`. -/
  | register
  | install
  /-- At `while (!usbws_ctx_stopped(&service_ctx))`. -/
  | test
  /-- In `lws_service`. -/
  | service
  /-- In `usbws_health_check`. -/
  | healthCheck
  /-- At the statements of `usbws_ctx_destroy`. -/
  | destroyTest
  | destroy
  | clear
  /-- `usbws_service` has returned. -/
  | done (ret : ℤ)
  deriving DecidableEq, Repr

/-- The next statement of `usbws_service`; `ok` is the answer of libwebsockets. -/
def ServicePc.next (c : Ctx) (ok : Bool) : ServicePc → Option (ServicePc × Option Ctx.Op)
  | .create => some (if ok then .register else .done (-1), some (.create ok))
  | .register => some (.install, some .register)
  | .install => some (.test, some .install)
  | .test => some (if c.cont then .service else .destroyTest, none)
  | .service => some (if ok then .healthCheck else .destroyTest, none)
  | .healthCheck => some (.test, none)
  | .destroyTest => some (if c.context.isSome then .destroy else .done 0, none)
  | .destroy => some (.clear, some .destroy)
  | .clear => some (.done 0, some .clear)
  | .done _ => none

/-- The service has created its context and not called `lws_context_destroy` yet. -/
def ServicePc.holdsContext : ServicePc → Bool
  | create | clear | done _ => false
  | _ => true

/-- The daemon. -/
structure Service where
  /-- `service_ctx`. -/
  ctx : Ctx
  /-- Where `usbws_service` is. -/
  pc : ServicePc
  deriving DecidableEq, Repr

namespace Service

/-- The steps of the daemon. -/
inductive Label where
  /-- The next statement of `usbws_service`. -/
  | run (ok : Bool)
  /-- A statement of the handler of SIGINT. -/
  | handler (h : Ctx.HandlerStep)
  deriving DecidableEq, Repr

/-- The successor function. -/
def next (p : Service) : Label → Option Service
  | .run ok => (p.pc.next p.ctx ok).bind fun r => (p.ctx.perform r.2).map fun c => ⟨c, r.1⟩
  | .handler h => (p.ctx.handle h).map fun c => { p with ctx := c }

/-- The system. -/
def lts : LTS Service Label := .ofNext next

/-- The call of `usbws_service`. -/
def start : Service := ⟨.init, .create⟩

/-- The moves of the system. -/
abbrev Move := LTS.Move Service Label

/-- The operation of a move on the context. -/
def op (m : Move) : Option Ctx.Op :=
  match m.label with
  | .run ok => (m.pre.pc.next m.pre.ctx ok).bind Prod.snd
  | .handler h => some (.handler h)

/-- The operations of a run on the context. -/
def view (tr : List Move) : List Ctx.Move := LTS.project Service.ctx op tr

/-- A move performs its operation on the context. -/
theorem perform_op {p p' : Service} {l : Label} (h : lts.step p l p') :
    p.ctx.perform (op ⟨p, l, p'⟩) = some p'.ctx := by
  change next p l = some p' at h
  cases l with
  | run ok =>
    obtain ⟨r, hr, h⟩ := Option.bind_eq_some_iff.1 h
    obtain ⟨c, hc, rfl⟩ := Option.map_eq_some_iff.1 h
    simpa only [op, hr, Option.bind_some] using hc
  | handler =>
    obtain ⟨c, hc, rfl⟩ := Option.map_eq_some_iff.1 h
    exact hc

/-- The operations of a run are a run of the operations. -/
theorem exec_view {tr : List Move} {p : Service} (he : lts.Exec start tr p) :
    Ctx.lts.Exec .init (view tr) p.ctx :=
  Ctx.exec_project (fun _ _ _ => perform_op) he

/-- **While the service holds its context**, and only then, the pointer is usable. -/
theorem usable_iff {tr : List Move} {p : Service} (he : lts.Exec start tr p) :
    p.ctx.Usable ↔ p.pc.holdsContext = true := by
  induction he with
  | nil => simp [start, Ctx.Usable, Ctx.init, ServicePc.holdsContext]
  | @snoc tr p p' l hex hst ih =>
    have hok := Ctx.ok_of_exec (exec_view hex)
    change next p l = some p' at hst
    cases l with
    | handler h =>
      obtain ⟨c, hc, rfl⟩ := Option.map_eq_some_iff.1 hst
      have hsame : c.Usable ↔ p.ctx.Usable := Ctx.usable_of_apply (o := .handler h) hc rfl
      exact hsame.trans ih
    | run ok =>
      obtain ⟨r, hr, hst⟩ := Option.bind_eq_some_iff.1 hst
      obtain ⟨c, hc, rfl⟩ := Option.map_eq_some_iff.1 hst
      cases hpc : p.pc with
      | create =>
        rw [hpc] at hr
        cases hr
        rw [Ctx.usable_of_apply_onContext hok hc rfl]
        cases ok <;> simp [ServicePc.holdsContext]
      | destroy | clear =>
        rw [hpc] at hr
        cases hr
        simp only [Ctx.perform] at hc
        rw [Ctx.usable_of_apply_onContext hok hc rfl]
        simp [ServicePc.holdsContext]
      | register | install =>
        rw [hpc] at hr ih
        cases hr
        simp only [Ctx.perform] at hc
        exact (Ctx.usable_of_apply hc rfl).trans ih
      | test | service =>
        rw [hpc] at hr ih
        cases hr
        cases hc
        refine ih.trans (iff_of_true rfl ?_)
        split_ifs <;> rfl
      | healthCheck =>
        rw [hpc] at hr ih
        cases hr
        cases hc
        exact ih
      | destroyTest =>
        rw [hpc] at hr ih
        cases hr
        cases hc
        -- there is a context to destroy
        obtain ⟨n, hn, -⟩ := ih.2 rfl
        rw [Option.mem_def.1 hn]
        exact ih
      | done =>
        rw [hpc] at hr
        cases hr

/-- The same in front of every move of a run. -/
theorem usable_iff_of_mem {tr : List Move} {p : Service} (he : lts.Exec start tr p) :
    ∀ m ∈ tr, m.pre.ctx.Usable ↔ m.pre.pc.holdsContext = true := by
  induction he with
  | nil => simp
  | snoc hex _ ih =>
    rw [List.forall_mem_cons]
    exact ⟨usable_iff hex, ih⟩

end Service

end Usbws

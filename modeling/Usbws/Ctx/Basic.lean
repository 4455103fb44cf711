import Mathlib.Data.Nat.Notation
import Mathlib.Data.Option.Basic
import Mathlib.Tactic.SplitIfs
import Usbws.Lts.Basic

/-!
# The context and the handler of SIGINT

The operations of `struct usbws_ctx` with the lifetimes of the contexts of libwebsockets, which are
numbered in the order of their creation, and with the runs of `usbws_sighandler`, which stop the
context that `usbws_set_sigint` has registered in `servicing_ctx`.  Both programs have a single
`struct usbws_ctx`, and nothing resets `servicing_ctx`.

* `Ctx` : the struct, the contexts, the registration and the handlers in progress.
* `Ctx.Op` : the operations statement by statement, `Ctx.apply` what they do.
* `Ctx.Usable` : the pointer to the context refers to one that has been created and has not been
  handed to `lws_context_destroy`.
* `Ctx.usable_of_apply`, `Ctx.usable_of_apply_onContext` : what the operations make of that.
-/

namespace Usbws

/-- A `struct usbws_ctx` with what concerns it. -/
structure Ctx where
  /-- `cont`. -/
  cont : Bool
  /-- `context` : the number of the context, or NULL. -/
  context : Option ℕ
  /-- The number of contexts created. -/
  created : ℕ
  /-- The contexts handed to `lws_context_destroy`. -/
  destroyed : List ℕ
  /-- `servicing_ctx` is not NULL. -/
  servicing : Bool
  /-- `usbws_sighandler` is installed. -/
  installed : Bool
  /-- The number of handlers in `usbip_break_all_connections`. -/
  breaking : ℕ
  /-- The number of handlers at `lws_cancel_service`. -/
  cancelling : ℕ
  deriving DecidableEq, Repr

namespace Ctx

/-- A statement of `usbws_sighandler`. -/
inductive HandlerStep where
  /-- SIGINT is delivered, and the handler begins. -/
  | enter
  /-- Behind `usbip_break_all_connections` : the test of `servicing_ctx`, and `ctx->cont = 0`. -/
  | stop
  /-- `lws_cancel_service(ctx->context)`. -/
  | cancel
  deriving DecidableEq, Repr

/-- The operations on the context. -/
inductive Op where
  /-- `ctx->context = lws_create_context(info)`, successful or not. -/
  | create (ok : Bool)
  /-- `servicing_ctx = ctx`. -/
  | register
  /-- `signal(SIGINT, usbws_sighandler)`. -/
  | install
  /-- `ctx->cont = 0` in a `usbws_ctx_stop` of the program itself. -/
  | stop
  /-- `lws_context_destroy(ctx->context)`. -/
  | destroy
  /-- `ctx->context = NULL`. -/
  | clear
  /-- A statement of the handler. -/
  | handler (h : HandlerStep)
  deriving DecidableEq, Repr

/-- The operation concerns the pointer to the context. -/
def Op.onContext : Op → Bool
  | create _ | destroy | clear => true
  | _ => false

/-- `usbws_ctx_init`. -/
def init : Ctx := ⟨true, none, 0, [], false, false, 0, 0⟩

/-- What a statement of the handler does. -/
def handle (c : Ctx) : HandlerStep → Option Ctx
  -- without a handler SIGINT ends the process
  | .enter => if c.installed then some { c with breaking := c.breaking + 1 } else none
  | .stop =>
    if 0 < c.breaking then
      let c := { c with breaking := c.breaking - 1 }
      some (if c.servicing then { c with cont := false, cancelling := c.cancelling + 1 } else c)
    else none
  | .cancel => if 0 < c.cancelling then some { c with cancelling := c.cancelling - 1 } else none

/-- What an operation does. -/
def apply (c : Ctx) : Op → Option Ctx
  | .create true => some { c with context := some c.created, created := c.created + 1 }
  | .create false => some { c with context := none }
  | .register => some { c with servicing := true }
  | .install => some { c with installed := true }
  | .stop => some { c with cont := false }
  | .destroy => some { c with destroyed := c.context.toList ++ c.destroyed }
  | .clear => some { c with context := none }
  | .handler h => c.handle h

/-- What a statement with or without an operation does. -/
def perform (c : Ctx) : Option Op → Option Ctx
  | none => some c
  | some o => c.apply o

/-- The operations in any order. -/
def lts : LTS Ctx Op := .ofNext apply

/-- The moves of the operations. -/
abbrev Move := LTS.Move Ctx Op

/-- The context has been created and has not been handed to `lws_context_destroy`. -/
def Live (c : Ctx) (n : ℕ) : Prop := n < c.created ∧ n ∉ c.destroyed

/-- `ctx->context` is not NULL and refers to a live context. -/
def Usable (c : Ctx) : Prop := ∃ n ∈ c.context, c.Live n

instance (c : Ctx) (n : ℕ) : Decidable (c.Live n) := inferInstanceAs (Decidable (_ ∧ _))

instance (c : Ctx) : Decidable c.Usable := inferInstanceAs (Decidable (∃ n ∈ c.context, c.Live n))

variable {c c' : Ctx} {o : Op} {ops : List Move}

/-! ### The pointer to the context -/

/-- The other operations leave the pointer and the lifetimes alone. -/
theorem context_of_apply (h : c.apply o = some c') (ho : o.onContext = false) :
    c'.context = c.context ∧ c'.created = c.created ∧ c'.destroyed = c.destroyed := by
  cases o with
  | create | destroy | clear => cases ho
  | register | install | stop => cases h; exact ⟨rfl, rfl, rfl⟩
  | handler s =>
    simp only [apply] at h
    cases s <;>
      simp only [handle, Option.ite_none_right_eq_some, Option.some.injEq] at h
    · obtain ⟨-, rfl⟩ := h
      exact ⟨rfl, rfl, rfl⟩
    · obtain ⟨-, rfl⟩ := h
      split_ifs <;> exact ⟨rfl, rfl, rfl⟩
    · obtain ⟨-, rfl⟩ := h
      exact ⟨rfl, rfl, rfl⟩

theorem usable_of_apply (h : c.apply o = some c') (ho : o.onContext = false) :
    c'.Usable ↔ c.Usable := by
  obtain ⟨h₁, h₂, h₃⟩ := context_of_apply h ho
  simp only [Usable, Live, h₁, h₂, h₃]

/-- Only contexts that have been created are destroyed. -/
def Ok (c : Ctx) : Prop := (∀ n ∈ c.context, n < c.created) ∧ ∀ n ∈ c.destroyed, n < c.created

theorem init_ok : init.Ok := by simp [Ok, init]

theorem Ok.apply (hc : c.Ok) (h : c.apply o = some c') : c'.Ok := by
  cases ho : o.onContext with
  | false =>
    obtain ⟨h₁, h₂, h₃⟩ := context_of_apply h ho
    simp only [Ok, h₁, h₂, h₃]
    exact hc
  | true =>
    cases o with
    | create ok =>
      cases ok <;> cases h
      · exact ⟨by simp, hc.2⟩
      · exact ⟨fun n hn => by cases hn; exact Nat.lt_succ_self _,
          fun n hn => Nat.lt_succ_of_lt (hc.2 n hn)⟩
    | destroy =>
      cases h
      refine ⟨hc.1, fun n hn => ?_⟩
      rcases List.mem_append.1 hn with hn | hn
      · exact hc.1 n (Option.mem_toList.1 hn)
      · exact hc.2 n hn
    | clear => cases h; exact ⟨by simp, hc.2⟩
    | register | install | stop | handler => cases ho

/-- **Which operations leave a usable pointer**: only a successful creation. -/
theorem usable_of_apply_onContext (hc : c.Ok) (h : c.apply o = some c')
    (ho : o.onContext = true) : c'.Usable ↔ o = .create true := by
  cases o with
  | create ok =>
    cases ok <;> cases h
    · simp [Usable]
    · have hlive : c.created ∉ c.destroyed := fun hn => Nat.lt_irrefl _ (hc.2 _ hn)
      simp [Usable, Live, hlive]
  | destroy =>
    cases h
    refine iff_of_false ?_ (fun hn => by cases hn)
    rintro ⟨n, hn, -, hd⟩
    exact hd (List.mem_append_left _ (Option.mem_toList.2 hn))
  | clear => cases h; simp [Usable]
  | register | install | stop | handler => cases ho

theorem ok_of_exec (he : lts.Exec init ops c) : c.Ok :=
  he.invariant init_ok fun _ _ _ h hst => h.apply hst

/-- **Programs on the context.**  If every move of a program performs its operation, the operations
of a run are a run of the operations. -/
theorem exec_project {S L : Type*} {A : LTS S L} {view : S → Ctx} {op : LTS.Move S L → Option Op}
    (hop : ∀ s l s', A.step s l s' → (view s).perform (op ⟨s, l, s'⟩) = some (view s'))
    {s₀ s : S} {tr : List (LTS.Move S L)} (he : A.Exec s₀ tr s) :
    lts.Exec (view s₀) (LTS.project view op tr) (view s) := by
  refine LTS.Exec.project view op ?_ ?_ he
  · intro s l s' hst o ho
    have hc := hop s l s' hst
    rw [Option.mem_def.1 ho] at hc
    exact hc
  · intro s l s' hst ho
    have hc := hop s l s' hst
    rw [ho] at hc
    exact (Option.some.inj hc).symm

end Ctx

end Usbws

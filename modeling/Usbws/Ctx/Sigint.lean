import Usbws.Client.Held
import Usbws.Ctx.Service

/-!
# SIGINT and the lifetime of the context

The handler calls `lws_cancel_service` with `servicing_ctx->context`, whatever has become of it.
Neither program takes the registration back, so a SIGINT behind the end of `usbws_service`, behind
the end of a client thread or behind a failing `pthread_create` finds NULL there, and one in
`usbws_ctx_destroy` a context that is being destroyed.

* `Opening.CancelsHeld` : all calls of the handlers come while the opener or its thread holds the
  context.
* `cancels_usable_iff_held` : in a run of either program the handlers act on live contexts only,
  exactly if all their calls come at such program points.
-/

namespace Usbws

namespace Opening

/-- Every call that a handler has made in a run came while the context was held. -/
def CancelsHeld : List Move → Prop
  | [] => True
  | m :: tr => (m.label = .handler .cancel → Held tr m.pre) ∧ CancelsHeld tr

instance decidableCancelsHeld : (tr : List Move) → Decidable (CancelsHeld tr)
  | [] => .isTrue trivial
  | m :: tr =>
    have := decidableCancelsHeld tr
    inferInstanceAs (Decidable ((m.label = .handler .cancel → Held tr m.pre) ∧ CancelsHeld tr))

/-- So all the handlers act on live contexts, and only so. -/
theorem usable_iff_cancelsHeld {signed : Bool} {tr : List Move} {p : Opening}
    (he : (lts signed).Exec start tr p) :
    (∀ m ∈ tr, m.label = .handler .cancel → m.pre.ctx.Usable) ↔ CancelsHeld tr := by
  induction he with
  | nil => simp [CancelsHeld]
  | snoc hex _ ih => rw [List.forall_mem_cons, CancelsHeld, ← usable_iff_held hex, ih]

end Opening

/-- **The handler acts on a live context**

* in a run of the daemon exactly if each of its calls comes while `usbws_service` is behind
  `usbws_ctx_create` and in front of `lws_context_destroy`,
* in a run of a client exactly if each of its calls comes while the opener, or its thread, is behind
  a successful `usbws_ctx_create` of the latest open and in front of `lws_context_destroy`, and no
  thread of an earlier open has come to its `lws_context_destroy` or its `context = NULL` since;

and a registered context is live under the same conditions on the program points reached. -/
theorem cancels_usable_iff_held {tr : List Service.Move} {p : Service}
    {tr' : List Opening.Move} {p' : Opening} {signed : Bool} (he : Service.lts.Exec .start tr p)
    (he' : (Opening.lts signed).Exec .start tr' p') :
    (((∀ m ∈ tr, m.label = .handler .cancel → m.pre.ctx.Usable) ↔
        ∀ m ∈ tr, m.label = .handler .cancel → m.pre.pc.holdsContext = true) ∧
      ((p.ctx.servicing = true → p.ctx.Usable) ↔
        (p.ctx.servicing = true → p.pc.holdsContext = true))) ∧
    ((∀ m ∈ tr', m.label = .handler .cancel → m.pre.ctx.Usable) ↔ Opening.CancelsHeld tr') ∧
      ((p'.ctx.servicing = true → p'.ctx.Usable) ↔
        (p'.ctx.servicing = true → Opening.Held tr' p')) := by
  refine ⟨⟨?_, by rw [Service.usable_iff he]⟩, Opening.usable_iff_cancelsHeld he',
    by rw [Opening.usable_iff_held he']⟩
  have hm := Service.usable_iff_of_mem he
  exact ⟨fun h m hmem hl => (hm m hmem).1 (h m hmem hl),
    fun h m hmem hl => (hm m hmem).2 (h m hmem hl)⟩

/-- A SIGINT stops the service of the daemon, and another one stops a client that is waiting. -/
theorem cancels_usable_of_service :
    (∃ tr p, Service.lts.Exec .start tr p ∧ p.pc = .done 0 ∧ p.ctx.cont = false ∧
      ∀ m ∈ tr, m.label = .handler .cancel → m.pre.ctx.Usable) ∧
    ∃ tr p, (Opening.lts true).Exec .start tr p ∧ p.ctx.cont = false ∧
      ∀ m ∈ tr, m.label = .handler .cancel → m.pre.ctx.Usable := by
  obtain ⟨tr, p, he, hp, hcont, hc⟩ : ∃ tr p, Service.lts.Exec .start tr p ∧ p.pc = .done 0 ∧
      p.ctx.cont = false ∧
      ∀ m ∈ tr, m.label = .handler .cancel → m.pre.pc.holdsContext = true :=
    LTS.exists_exec_of_replay
      [.run true, .run true, .run true, .run true, .handler .enter, .handler .stop,
        .handler .cancel, .run true, .run true, .run true, .run true, .run true, .run true] _
      (fun _ _ _ h => h) (by decide)
  obtain ⟨tr', p', he', hp', hc'⟩ : ∃ tr p, (Opening.lts true).Exec .start tr p ∧
      p.ctx.cont = false ∧ Opening.CancelsHeld tr :=
    LTS.exists_exec_of_replay
      [.call, .opener true, .opener true, .opener true, .opener true, .opener true, .opener true,
        .spawn true, .thread 0 true, .handler .enter, .handler .stop, .handler .cancel] _
      (fun _ _ _ h => h) (by decide)
  have h := cancels_usable_iff_held he he'
  exact ⟨⟨tr, p, he, hp, hcont, h.1.1.2 hc⟩, ⟨tr', p', he', hp', h.2.1.2 hc'⟩⟩

/-- A SIGINT behind the end of the service, and one behind an open whose `pthread_create` failed,
call `lws_cancel_service` with NULL. -/
theorem exists_cancel_null :
    (∃ tr p, Service.lts.Exec .start tr p ∧ p.pc = .done 0 ∧ p.ctx.context = none ∧
      ¬ ∀ m ∈ tr, m.label = .handler .cancel → m.pre.ctx.Usable) ∧
    ∃ tr p, (Opening.lts true).Exec .start tr p ∧ p.opener = .done false ∧ p.ctx.context = none ∧
      ¬ ∀ m ∈ tr, m.label = .handler .cancel → m.pre.ctx.Usable :=
  ⟨LTS.exists_exec_of_replay
      [.run true, .run true, .run true, .run true, .run false, .run true, .run true, .run true,
        .handler .enter, .handler .stop, .handler .cancel] _
      (fun _ _ _ h => h) (by decide),
    LTS.exists_exec_of_replay
      [.call, .opener true, .opener true, .opener true, .opener true, .opener true, .opener true,
        .spawn false, .opener true, .opener true, .opener true, .handler .enter, .handler .stop,
        .handler .cancel] _
      (fun _ _ _ h => h) (by decide)⟩

end Usbws

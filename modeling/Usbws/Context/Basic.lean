import Mathlib.Logic.Function.Basic
import Usbws.Conn.Basic

/-!
# The sessions of a context

A context serves the connections `ι`.  `usbws_send` on one of them broadcasts
`USBWS_CALLBACK_SEND_REQUEST` (`usbws_request_send`), which visits the connections of the context
in some order, so a sender may transmit for any of them.  The service thread delivers the other
callbacks.

`Context.exec_view` : every connection sees a run of its own, so what holds of all runs of a
connection holds of each connection in all runs of a context.
-/

namespace Usbws

/-- The connections of a context, with the ones that the broadcast of each sender has still to
visit. -/
structure Context (ι : Type*) where
  /-- The connections. -/
  conn : ι → Conn
  /-- The rest of each sender's broadcast. -/
  broadcast : ι → List ι

namespace Context

variable {ι : Type*}

/-- What can happen in a context. -/
inductive Label (ι : Type*) where
  /-- The sender of a connection calls `usbws_send`; its broadcast will visit `order`. -/
  | send (i : ι) (data : Bytes) (order : List ι)
  /-- The broadcast of a sender visits its next connection. -/
  | request (i : ι) (env : Env)
  /-- The sender of a connection, whose broadcast is over, finds its loop condition false. -/
  | leave (i : ι)
  /-- Some other event of a connection. -/
  | own (i : ι) (e : Event)

/-- The events that are neither part of `usbws_send` before its return nor of a broadcast. -/
def isOwn : Event → Bool
  | .send _ | .leave | .callback .sendRequest _ _ => false
  | _ => true

/-- The connection that takes part in a step, and its event. -/
def event (c : Context ι) : Label ι → Option (ι × Event)
  | .send i data _ => some (i, .send data)
  | .request i env => (c.broadcast i).head?.map fun k => (k, .callback .sendRequest env [])
  | .leave i => if (c.broadcast i).isEmpty then some (i, .leave) else none
  | .own i e => if isOwn e then some (i, e) else none

variable [DecidableEq ι]

/-- What becomes of the broadcasts. -/
def advance (c : Context ι) : Label ι → ι → List ι
  | .send i _ order => Function.update c.broadcast i order
  | .request i _ => Function.update c.broadcast i (c.broadcast i).tail
  | _ => c.broadcast

/-- The successor function. -/
def next (pingPong : ℤ) (ok : DataWrite → Prop) [DecidablePred ok] (c : Context ι)
    (l : Label ι) : Option (Context ι) :=
  (c.event l).bind fun x =>
    ((c.conn x.1).next pingPong ok x.2).map fun k => ⟨Function.update c.conn x.1 k, c.advance l⟩

/-- The system of a context. -/
def lts (pingPong : ℤ) (ok : DataWrite → Prop) [DecidablePred ok] :
    LTS (Context ι) (Label ι) := .ofNext (next pingPong ok)

/-- Freshly established sessions whose senders have not called yet. -/
def start (now : ι → ℤ) : Context ι := ⟨fun i => .start (now i), fun _ => []⟩

/-- The moves of a context. -/
abbrev Move (ι : Type*) := LTS.Move (Context ι) (Label ι)

/-- The event of the connection `i` in a move. -/
def eventOf (i : ι) (m : Move ι) : Option Event :=
  (m.pre.event m.label).bind fun x => if x.1 = i then some x.2 else none

/-- What the connection `i` sees of a run. -/
def view (i : ι) (tr : List (Move ι)) : List Conn.Move :=
  LTS.project (fun c => c.conn i) (eventOf i) tr

variable {pingPong : ℤ} {ok : DataWrite → Prop} [DecidablePred ok] {c c' : Context ι}
  {l : Label ι} {i : ι}

/-- In a step one connection makes a step of its own and the others do nothing. -/
theorem step_iff : (lts pingPong ok).step c l c' ↔ ∃ j e k, c.event l = some (j, e) ∧
    (Conn.lts pingPong ok).step (c.conn j) e k ∧
    c' = ⟨Function.update c.conn j k, c.advance l⟩ := by
  simp only [lts, LTS.ofNext_step, next, Option.bind_eq_some_iff, Option.map_eq_some_iff,
    Prod.exists, Conn.lts]
  constructor
  · rintro ⟨j, e, he, k, hk, rfl⟩
    exact ⟨j, e, k, he, hk, rfl⟩
  · rintro ⟨j, e, k, he, hk, rfl⟩
    exact ⟨j, e, he, k, hk, rfl⟩

/-- **The runs of a context** are runs of each of its connections. -/
theorem exec_view {c₀ : Context ι} {tr : List (Move ι)} (h : (lts pingPong ok).Exec c₀ tr c)
    (i : ι) : (Conn.lts pingPong ok).Exec (c₀.conn i) (view i tr) (c.conn i) := by
  refine h.project (fun c => c.conn i) (eventOf i) ?_ ?_
  · intro c l c' hst e he
    obtain ⟨j, e', k, hev, hk, rfl⟩ := step_iff.1 hst
    simp only [eventOf, hev, Option.bind_some, Option.mem_def, Option.ite_none_right_eq_some,
      Option.some.injEq] at he
    obtain ⟨rfl, rfl⟩ := he
    simpa using hk
  · intro c l c' hst he
    obtain ⟨j, e', k, hev, hk, rfl⟩ := step_iff.1 hst
    simp only [eventOf, hev, Option.bind_some, ite_eq_right_iff, reduceCtorEq, imp_false] at he
    exact Function.update_of_ne (Ne.symm he) _ _

end Context

end Usbws

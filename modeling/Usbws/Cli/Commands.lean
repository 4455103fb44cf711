import Usbws.Cli.Options
import Usbws.Client.Stores

/-!
# The commands of `usbws`

A command of `usbws` gets the whole command line.  It takes its options, sets the target up if it
has one, and calls one of the device and port functions of the USB/IP library.  The functions that
set the library up (`usbip_conn_init`, `usbip_set_use_stderr` and `usbip_set_use_debug`) are left
out.

* `LibCall`, `Shell`, `Run` : what a command calls, what it gets from its surroundings, and what it
  does.
* `usbwsConnectKind`, `usbwsList`, `usbwsBindKind`, `usbwsPort`, `usbwsDetach`, `usbwsCommands` :
  the commands and their table.
* `Demand`, `Prints` : what a command line asks for, by the last value of each option, and when the
  command just prints something.
* `Cli.Does`, `Cli.proc_does` : each command of the table does what is demanded of it.
* `SetsTarget`, `Cli.proc_balanced_iff` : which target it sets, and when it releases its strings.
-/

namespace Usbws

open Getopt

/-- A call of a device or port function of the USB/IP library. -/
inductive LibCall where
  /-- `usbip_connect_device` -/
  | connectDevice (host port busid : CStr)
  /-- `usbip_disconnect_device` -/
  | disconnectDevice (host port busid : CStr)
  /-- `usbip_attach_device` -/
  | attachDevice (host port busid : CStr)
  /-- `usbip_detach_port` -/
  | detachPort (port : CStr)
  /-- `usbip_list_imported_devices` -/
  | listImportedDevices
  /-- `usbip_list_local_devices` -/
  | listLocalDevices (parsable : Bool)
  /-- `usbip_list_importable_devices` -/
  | listImportableDevices (host port : CStr)
  /-- `usbip_bind_device` -/
  | bindDevice (busid : CStr)
  /-- `usbip_unbind_device` -/
  | unbindDevice (busid : CStr)
  deriving DecidableEq, Repr

/-- `enum usbws_command`. -/
inductive Command where
  | connect
  | disconnect
  | attach
  | detach
  | port
  | list
  | bind
  | unbind
  | help
  | version
  | error
  deriving DecidableEq, Repr

/-- The surroundings of a command. -/
structure Shell where
  /-- `POSIXLY_CORRECT` is set. -/
  posixly : Bool
  /-- `lws_parse_uri`. -/
  parse : CStr → Option Uri
  /-- Which calls of `malloc` succeed. -/
  allocs : Allocs
  /-- What the device and port functions of the USB/IP library return. -/
  lib : LibCall → ℤ

/-- What a program calls, the ledger of the allocator in the end, and the value returned. -/
structure Run where
  calls : List LibCall
  ledger : Ledger
  ret : ℤ
  deriving DecidableEq

/-! ### The programs -/

/-- The function of the USB/IP library that a command of `usbws_connect_kind` calls. -/
def connectCall : Command → Option (CStr → CStr → CStr → LibCall)
  | .connect => some .connectDevice
  | .disconnect => some .disconnectDevice
  | .attach => some .attachDevice
  | _ => none

/-- `usbws_connect_kind`. -/
def usbwsConnectKind (sh : Shell) (argv : List CStr) (cmd : Command) : Run :=
  let c := Client.init
  match ConnectKind.options.handleOptions sh.posixly argv with
  | .go o =>
    let r := c.setTarget sh.parse sh.allocs .empty o.url o.proxy
    let ledger := r.client.free r.ledger
    if r.ret ≠ 0 then ⟨[], ledger, -1⟩
    else
      match connectCall cmd with
      | some make =>
        let call := make (r.client.host.getD []) r.client.tcpPortS o.busid
        ⟨[call], ledger, if sh.lib call ≠ 0 then -1 else 0⟩
      | none => ⟨[], ledger, -1⟩
  | .help => ⟨[], c.free .empty, 0⟩
  | _ => ⟨[], c.free .empty, -1⟩

/-- `usbws_list`. -/
def usbwsList (sh : Shell) (argv : List CStr) : Run :=
  let c := Client.init
  match ListDevices.options.handleOptions sh.posixly argv with
  | .go o =>
    if o.isLocal then
      let call := .listLocalDevices o.parsable
      ⟨[call], c.free .empty, if sh.lib call ≠ 0 then -1 else 0⟩
    else
      let r := c.setTarget sh.parse sh.allocs .empty (o.url.getD []) o.proxy
      let ledger := r.client.free r.ledger
      if r.ret ≠ 0 then ⟨[], ledger, -1⟩
      else
        let call := .listImportableDevices (r.client.host.getD []) r.client.tcpPortS
        ⟨[call], ledger, if sh.lib call ≠ 0 then -1 else 0⟩
  | .help => ⟨[], c.free .empty, 0⟩
  | _ => ⟨[], c.free .empty, -1⟩

/-- A command without a client: the library is called with what its options are. -/
def callWith {α : Type*} (sh : Shell) (options : Handled α) (make : α → Option LibCall) : Run :=
  match options with
  | .go a =>
    match make a with
    | some call => ⟨[call], .empty, sh.lib call⟩
    | none => ⟨[], .empty, -1⟩
  | .help => ⟨[], .empty, 0⟩
  | _ => ⟨[], .empty, -1⟩

/-- The function of the USB/IP library that a command of `usbws_bind_kind` calls. -/
def bindCall : Command → Option (CStr → LibCall)
  | .bind => some .bindDevice
  | .unbind => some .unbindDevice
  | _ => none

/-- `usbws_bind_kind`. -/
def usbwsBindKind (sh : Shell) (argv : List CStr) (cmd : Command) : Run :=
  callWith sh (BindKind.options.handleOptions sh.posixly argv) fun busid =>
    (bindCall cmd).map fun make => make busid

/-- `usbws_detach`. -/
def usbwsDetach (sh : Shell) (argv : List CStr) : Run :=
  callWith sh (Detach.options.handleOptions sh.posixly argv) fun port => some (.detachPort port)

/-- `usbws_port`. -/
def usbwsPort (sh : Shell) (argv : List CStr) : Run :=
  callWith sh (Port.options.handleOptions sh.posixly argv) fun _ => some .listImportedDevices

/-- `help` and `version`. -/
def printed : Run := ⟨[], .empty, 0⟩

/-- `usbws_commands`. -/
def usbwsCommands : List (Command × String × (Shell → List CStr → Command → Run)) :=
  [(.connect, "connect", usbwsConnectKind), (.disconnect, "disconnect", usbwsConnectKind),
    (.attach, "attach", usbwsConnectKind),
    (.detach, "detach", fun sh argv _ => usbwsDetach sh argv),
    (.port, "port", fun sh argv _ => usbwsPort sh argv),
    (.list, "list", fun sh argv _ => usbwsList sh argv), (.bind, "bind", usbwsBindKind),
    (.unbind, "unbind", usbwsBindKind), (.help, "help", fun _ _ _ => printed),
    (.version, "version", fun _ _ _ => printed)]

/-! ### What is asked for -/

/-- The URL of a target has been cut to `u`, and there is what is needed for its proxy. -/
structure TargetSet (sh : Shell) (url : CStr) (proxy : Option CStr) (u : Uri) : Prop where
  work : sh.allocs.urlWork = true
  uri : sh.parse url = some u
  method : u.method = ws ∨ u.method = wss
  proxy : ∀ p, proxy = some p → sh.allocs.tmp = true ∧ sh.allocs.proxy = true ∧
    ∃ v, sh.parse p = some v ∧ 0 ≤ proxyLen v.host

/-- The text of a port in `tcp_port_s`. -/
def portText (u : Uri) : CStr := snprintf tcpPortLen (decimal u.port)

/-- What becomes of the URL of a proxy. -/
def proxyText (sh : Shell) (p : CStr) : Option CStr :=
  (sh.parse p).map fun v => snprintf (proxyLen v.host).toNat (v.host ++ ':' :: decimal v.port)

/-- The options of a command. -/
def specOf : Command → Spec
  | .connect | .disconnect | .attach => ConnectKind.spec
  | .list => ListDevices.spec
  | .bind | .unbind => BindKind.spec
  | .detach => Detach.spec
  | .port => Port.spec
  | .help | .version | .error => ⟨[], []⟩

/-- **What a command with some options asks for.** -/
inductive Demand (sh : Shell) (items : List Item) : Command → LibCall → Prop
  | connectKind {cmd : Command} {make : CStr → CStr → CStr → LibCall} {url busid : CStr} {u : Uri} :
      connectCall cmd = some make → (∀ i ∈ items, ConnectKind.Accepts i) →
      lastArg 'u' items = some url →
      lastArg 'b' items = some busid →
      TargetSet sh url (lastArg 'x' items) u →
      Demand sh items cmd (make u.host (portText u) busid)
  | listLocal : (∀ i ∈ items, ListDevices.Accepts i) → isGiven 'l' items = true →
      Demand sh items .list (.listLocalDevices (isGiven 'p' items))
  | listRemote {url : CStr} {u : Uri} : (∀ i ∈ items, ListDevices.Accepts i) →
      isGiven 'l' items = false → lastArg 'u' items = some url →
      TargetSet sh url (lastArg 'x' items) u →
      Demand sh items .list (.listImportableDevices u.host (portText u))
  | bindKind {cmd : Command} {make : CStr → LibCall} {busid : CStr} : bindCall cmd = some make →
      (∀ i ∈ items, ValueAccepts 'b' i) → lastArg 'b' items = some busid →
      Demand sh items cmd (make busid)
  | detach {port : CStr} : (∀ i ∈ items, ValueAccepts 'p' i) →
      lastArg 'p' items = some port → Demand sh items .detach (.detachPort port)
  | port : (∀ i ∈ items, Port.Accepts i) → Demand sh items .port .listImportedDevices

/-- A command with some options sets a target. -/
inductive SetsTarget (items : List Item) : Command → CStr → Option CStr → Prop
  | connectKind {cmd : Command} {make : CStr → CStr → CStr → LibCall} {url busid : CStr} :
      connectCall cmd = some make → (∀ i ∈ items, ConnectKind.Accepts i) →
      lastArg 'u' items = some url → lastArg 'b' items = some busid →
      SetsTarget items cmd url (lastArg 'x' items)
  | list {url : CStr} : (∀ i ∈ items, ListDevices.Accepts i) → isGiven 'l' items = false →
      lastArg 'u' items = some url → SetsTarget items .list url (lastArg 'x' items)

/-- The options that a command takes. -/
def Accepts : Command → Item → Prop
  | .connect | .disconnect | .attach => ConnectKind.Accepts
  | .list => ListDevices.Accepts
  | .bind | .unbind => ValueAccepts 'b'
  | .detach => ValueAccepts 'p'
  | .port => Port.Accepts
  | .help | .version | .error => fun _ => True

/-- A command with some options prints something and does nothing else. -/
def Prints (items : List Item) : Command → Prop
  | .help | .version => True
  | .error => False
  | cmd => HelpFirst (Accepts cmd) items

/-- The options of a command line for a command. -/
def itemsOf (sh : Shell) (argv : List CStr) (cmd : Command) : List Item :=
  (specOf cmd).getoptLong sh.posixly argv

namespace Cli

variable {sh : Shell} {argv : List CStr} {cmd : Command} {call : LibCall} {url : CStr}
  {proxy : Option CStr} {u : Uri}

/-! ### The target -/

/-- **When `usbws_client_set_target` succeeds**, and what it stores then. -/
theorem client_of_targetSet (h : TargetSet sh url proxy u) :
    (Client.init.setTarget sh.parse sh.allocs .empty url proxy).ret = 0 ∧
      ∃ s : Option HeapStr,
        (Client.init.setTarget sh.parse sh.allocs .empty url proxy).client =
          { Client.init.parsed .empty url u with proxy := s } ∧
        s.map HeapStr.text = proxy.bind (proxyText sh) := by
  cases hr : (Client.init.parsed .empty url u).setProxy sh.parse sh.allocs
      (Ledger.empty.alloc (url.length + 1)) proxy with
  | mk c' L' ret =>
    have hret : ret = 0 ∧ c'.proxy.map HeapStr.text = proxy.bind (proxyText sh) := by
      cases proxy with
      | none =>
        cases hr
        exact ⟨rfl, rfl⟩
      | some p =>
        obtain ⟨ht, hp, v, hv, hn⟩ := h.proxy p rfl
        cases Client.proxySet_of_setProxy hr with
        | noTmp hf => rw [ht] at hf; cases hf
        | noUri _ hf => rw [hv] at hf; cases hf
        | noProxy _ hv' hf =>
          cases hv.symm.trans hv'
          rcases hf with hf | hf
          · rw [hp] at hf
            cases hf
          · omega
        | ok _ hv' => exact ⟨rfl, by simp [proxyText, hv']⟩
    have hclient : c' = { Client.init.parsed .empty url u with proxy := c'.proxy } :=
      Client.client_of_setProxy hr
    rw [Client.setTarget_of_parsed h.work h.uri h.method hr]
    simp only [hret.1, ne_eq, not_true_eq_false, if_false]
    exact ⟨trivial, _, hclient, hret.2⟩

theorem setTarget_of_targetSet (h : TargetSet sh url proxy u) :
    (Client.init.setTarget sh.parse sh.allocs .empty url proxy).ret = 0 ∧
      (Client.init.setTarget sh.parse sh.allocs .empty url proxy).client.host = some u.host ∧
      (Client.init.setTarget sh.parse sh.allocs .empty url proxy).client.tcpPortS = portText u := by
  obtain ⟨hret, s, hclient, -⟩ := client_of_targetSet h
  rw [hclient]
  exact ⟨hret, rfl, rfl⟩

theorem exists_targetSet (h : (Client.init.setTarget sh.parse sh.allocs .empty url proxy).ret = 0) :
    ∃ u, TargetSet sh url proxy u := by
  cases ha : sh.allocs.urlWork with
  | false => simp [Client.setTarget, ha] at h
  | true =>
    cases hu : sh.parse url with
    | none => simp [Client.setTarget, ha, hu] at h
    | some u =>
      by_cases hm : u.method = ws ∨ u.method = wss
      · cases hr : (Client.init.parsed .empty url u).setProxy sh.parse sh.allocs
            (Ledger.empty.alloc (url.length + 1)) proxy with
        | mk c' L' ret =>
          rw [Client.setTarget_of_parsed ha hu hm hr] at h
          refine ⟨u, ha, hu, hm, ?_⟩
          rintro p rfl
          cases Client.proxySet_of_setProxy hr with
          | noTmp | noUri | noProxy => simp at h
          | ok ht hv hp hn => exact ⟨ht, hp, _, hv, hn⟩
      · simp [Client.setTarget, ha, hu, hm] at h

theorem targetSet_unique {u' : Uri} (h : TargetSet sh url proxy u)
    (h' : TargetSet sh url proxy u') : u = u' :=
  Option.some.inj (h.uri.symm.trans h'.uri)

/-! ### What the commands do -/

theorem status_eq_zero_iff {n m : ℤ} (hm : m ≠ 0) : (if n ≠ 0 then m else 0) = 0 ↔ n = 0 := by
  by_cases h : n = 0 <;> simp [h, hm]

/-- A command makes the one call that is demanded and passes its success on, or none is demanded and
it succeeds exactly if it prints something. -/
inductive Does (sh : Shell) (demand : LibCall → Prop) (prints : Prop) : Run → Prop
  | quiet {L : Ledger} {ret : ℤ} : (∀ call, ¬ demand call) → (ret = 0 ↔ prints) →
      Does sh demand prints ⟨[], L, ret⟩
  | calls {call : LibCall} {L : Ledger} {ret : ℤ} : (∀ call', demand call' ↔ call' = call) →
      (ret = 0 ↔ sh.lib call = 0) → ¬ prints → Does sh demand prints ⟨[call], L, ret⟩

namespace Does

variable {demand : LibCall → Prop} {prints : Prop} {r : Run}

theorem mem_calls_iff (h : Does sh demand prints r) : call ∈ r.calls ↔ demand call := by
  cases h with
  | quiet hn => simp [hn]
  | calls hc => simp [hc]

theorem length_calls_le (h : Does sh demand prints r) : r.calls.length ≤ 1 := by
  cases h <;> simp

theorem ret_eq_zero_iff (h : Does sh demand prints r) :
    r.ret = 0 ↔ (∃ call, demand call ∧ sh.lib call = 0) ∨ prints := by
  cases h with
  | quiet hn hret => simp [hn, hret]
  | calls hc hret hp => simp [hc, hret, hp]

/-- `main` turns what is not 0 into 1. -/
theorem status {n : ℤ} (h : Does sh demand prints r) (hn : n ≠ 0) :
    Does sh demand prints { r with ret := if r.ret ≠ 0 then n else 0 } := by
  cases h with
  | quiet hd hret => exact .quiet hd ((status_eq_zero_iff hn).trans hret)
  | calls hc hret hp => exact .calls hc ((status_eq_zero_iff hn).trans hret) hp

end Does

/-- A demand of `usbws_connect_kind` in terms of its `handle_options`. -/
theorem demand_connectKind_iff {make : CStr → CStr → CStr → LibCall}
    (hmake : connectCall cmd = some make) :
    Demand sh (ConnectKind.options.items sh.posixly argv) cmd call ↔
      ∃ a u, ConnectKind.options.handleOptions sh.posixly argv = .go a ∧
        TargetSet sh a.url a.proxy u ∧ call = make u.host (portText u) a.busid := by
  simp only [ConnectKind.options_means.handleOptions_eq_go_iff sh.posixly argv]
  constructor
  · intro h
    cases h with
    | connectKind hm ha hu hb ht =>
      cases hmake.symm.trans hm
      exact ⟨_, _, ⟨ha, ConnectKind.check_eq_some_iff.2 ⟨_, _, hu, hb, rfl⟩⟩, ht, rfl⟩
    | listLocal | listRemote | detach | port => cases hmake
    | bindKind hm =>
      cases cmd with
      | bind | unbind => cases hmake
      | _ => cases hm
  · rintro ⟨a, u, ⟨ha, hc⟩, ht, rfl⟩
    obtain ⟨url, busid, hu, hb, rfl⟩ := ConnectKind.check_eq_some_iff.1 hc
    exact .connectKind hmake ha hu hb ht

theorem connectKind_does {make : CStr → CStr → CStr → LibCall}
    (hmake : connectCall cmd = some make) :
    Does sh (Demand sh (ConnectKind.options.items sh.posixly argv) cmd)
      (HelpFirst ConnectKind.Accepts (ConnectKind.options.items sh.posixly argv))
      (usbwsConnectKind sh argv cmd) := by
  rw [← ConnectKind.options_means.handleOptions_eq_help_iff]
  simp only [usbwsConnectKind, hmake]
  cases ho : ConnectKind.options.handleOptions sh.posixly argv with
  | go o =>
    have hd : ∀ call, Demand sh (ConnectKind.options.items sh.posixly argv) cmd call ↔
        ∃ u, TargetSet sh o.url o.proxy u ∧
          call = make u.host (portText u) o.busid := fun call => by
      simp [demand_connectKind_iff hmake, ho]
    by_cases hr : (Client.init.setTarget sh.parse sh.allocs .empty o.url o.proxy).ret = 0
    · obtain ⟨u, ht⟩ := exists_targetSet hr
      obtain ⟨-, hhost, hport⟩ := setTarget_of_targetSet ht
      simp only [hr, hhost, hport, Option.getD_some, ne_eq, not_true_eq_false, if_false]
      refine .calls (fun call => ?_) (status_eq_zero_iff (by decide)) (by simp)
      rw [hd]
      constructor
      · rintro ⟨u', ht', rfl⟩
        rw [targetSet_unique ht ht']
      · exact fun h => ⟨u, ht, h⟩
    · simp only [hr, ne_eq, not_false_eq_true, if_true]
      refine .quiet (fun call h => ?_) (by simp)
      obtain ⟨u, ht, -⟩ := (hd call).1 h
      exact hr (setTarget_of_targetSet ht).1
  | help | version | error =>
    refine .quiet (fun call h => ?_) (by simp)
    obtain ⟨a, u, ha, -⟩ := (demand_connectKind_iff hmake).1 h
    rw [ho] at ha
    cases ha

/-- A demand of `usbws_list` in terms of its `handle_options`. -/
theorem demand_list_iff : Demand sh (ListDevices.options.items sh.posixly argv) .list call ↔
    ∃ o, ListDevices.options.handleOptions sh.posixly argv = .go o ∧
      (o.isLocal = true ∧ call = .listLocalDevices o.parsable ∨
        o.isLocal = false ∧ ∃ u, TargetSet sh (o.url.getD []) o.proxy u ∧
          call = .listImportableDevices u.host (portText u)) := by
  simp only [ListDevices.options_means.handleOptions_eq_go_iff sh.posixly argv]
  constructor
  · intro h
    cases h with
    | connectKind hm | bindKind hm => cases hm
    | listLocal ha hl =>
      exact ⟨_, ⟨ha, ListDevices.check_eq_some_iff.2 ⟨.inl hl, rfl⟩⟩, .inl ⟨hl, rfl⟩⟩
    | @listRemote url u ha hl hu ht =>
      have hsome :
          (ListDevices.meaning (ListDevices.options.items sh.posixly argv)).url = some url :=
        hu
      refine ⟨_, ⟨ha, ListDevices.check_eq_some_iff.2 ⟨.inr (by rw [hsome]; rfl), rfl⟩⟩,
        .inr ⟨hl, u, ?_, rfl⟩⟩
      rw [hsome]
      exact ht
  · rintro ⟨o, ⟨ha, hc⟩, h⟩
    obtain ⟨hl, rfl⟩ := ListDevices.check_eq_some_iff.1 hc
    rcases h with ⟨hl, rfl⟩ | ⟨hl, u, ht, rfl⟩
    · exact .listLocal ha hl
    · rcases ‹_ ∨ _› with hl' | hu
      · rw [hl] at hl'
        cases hl'
      · obtain ⟨url, hu⟩ := Option.isSome_iff_exists.1 hu
        rw [hu] at ht
        exact .listRemote ha hl hu ht

theorem list_does : Does sh (Demand sh (ListDevices.options.items sh.posixly argv) .list)
    (HelpFirst ListDevices.Accepts (ListDevices.options.items sh.posixly argv))
    (usbwsList sh argv) := by
  rw [← ListDevices.options_means.handleOptions_eq_help_iff]
  simp only [usbwsList]
  cases ho : ListDevices.options.handleOptions sh.posixly argv with
  | go o =>
    have hd : ∀ call, Demand sh (ListDevices.options.items sh.posixly argv) .list call ↔
        (o.isLocal = true ∧ call = .listLocalDevices o.parsable ∨
          o.isLocal = false ∧ ∃ u, TargetSet sh (o.url.getD []) o.proxy u ∧
            call = .listImportableDevices u.host (portText u)) := fun call => by
      simp [demand_list_iff, ho]
    dsimp only
    by_cases hl : o.isLocal = true
    · rw [if_pos hl]
      exact .calls (by simp [hd, hl]) (status_eq_zero_iff (by decide)) (by simp)
    · rw [if_neg hl]
      simp only [hl, Bool.false_eq_true, false_and, false_or, true_and] at hd
      by_cases hr :
          (Client.init.setTarget sh.parse sh.allocs .empty (o.url.getD []) o.proxy).ret = 0
      · obtain ⟨u, ht⟩ := exists_targetSet hr
        obtain ⟨-, hhost, hport⟩ := setTarget_of_targetSet ht
        simp only [hr, hhost, hport, Option.getD_some, ne_eq, not_true_eq_false, if_false]
        refine .calls (fun call => ?_) (status_eq_zero_iff (by decide)) (by simp)
        rw [hd]
        constructor
        · rintro ⟨u', ht', rfl⟩
          rw [targetSet_unique ht ht']
        · exact fun h => ⟨u, ht, h⟩
      · simp only [hr, ne_eq, not_false_eq_true, if_true]
        refine .quiet (fun call h => ?_) (by simp)
        obtain ⟨u, ht, -⟩ := (hd call).1 h
        exact hr (setTarget_of_targetSet ht).1
  | help | version | error =>
    refine .quiet (fun call h => ?_) (by simp)
    obtain ⟨o, ha, -⟩ := demand_list_iff.1 h
    rw [ho] at ha
    cases ha

/-- The commands without a client. -/
theorem callWith_does {α : Type*} (options : Handled α) (make : α → Option LibCall) :
    Does sh (fun call => ∃ a, options = .go a ∧ make a = some call) (options = .help)
      (callWith sh options make) := by
  unfold callWith
  cases options with
  | go a =>
    dsimp only
    cases hm : make a with
    | some call => exact .calls (by simp [hm, eq_comm]) Iff.rfl (by simp)
    | none => exact .quiet (by simp [hm]) (by simp)
  | help | version | error => exact .quiet (by simp) (by simp)

theorem bindKind_does {make : CStr → LibCall} (hmake : bindCall cmd = some make) :
    Does sh (Demand sh (BindKind.options.items sh.posixly argv) cmd)
      (HelpFirst (ValueAccepts 'b') (BindKind.options.items sh.posixly argv))
      (usbwsBindKind sh argv cmd) := by
  have hmeans : BindKind.options.Means _ _ _ := valueOptions_means BindKind.spec (by simp)
  rw [← hmeans.handleOptions_eq_help_iff]
  have hd : Demand sh (BindKind.options.items sh.posixly argv) cmd = fun call => ∃ a,
      BindKind.options.handleOptions sh.posixly argv = .go a ∧
        ((bindCall cmd).map fun make => make a) = some call := by
    funext call
    simp only [hmeans.handleOptions_eq_go_iff sh.posixly argv, hmake, Option.map_some,
      Option.some.injEq, eq_iff_iff]
    constructor
    · intro h
      cases h with
      | bindKind hm ha hb =>
        cases hmake.symm.trans hm
        exact ⟨_, ⟨ha, hb⟩, rfl⟩
      | listLocal | listRemote | detach | port => cases hmake
      | connectKind hm =>
        cases cmd with
        | bind | unbind => cases hm
        | _ => cases hmake
    · rintro ⟨a, ⟨ha, hb⟩, rfl⟩
      exact .bindKind hmake ha hb
  rw [hd]
  exact callWith_does _ _

theorem detach_does : Does sh (Demand sh (Detach.options.items sh.posixly argv) .detach)
    (HelpFirst (ValueAccepts 'p') (Detach.options.items sh.posixly argv))
    (usbwsDetach sh argv) := by
  have hmeans : Detach.options.Means _ _ _ := valueOptions_means Detach.spec (by simp)
  rw [← hmeans.handleOptions_eq_help_iff]
  have hd : Demand sh (Detach.options.items sh.posixly argv) .detach = fun call => ∃ a,
      Detach.options.handleOptions sh.posixly argv = .go a ∧
        some (LibCall.detachPort a) = some call := by
    funext call
    simp only [hmeans.handleOptions_eq_go_iff sh.posixly argv, Option.some.injEq, eq_iff_iff]
    constructor
    · intro h
      cases h with
      | detach ha hp => exact ⟨_, ⟨ha, hp⟩, rfl⟩
      | connectKind hm | bindKind hm => cases hm
    · rintro ⟨a, ⟨ha, hp⟩, rfl⟩
      exact .detach ha hp
  rw [hd]
  exact callWith_does _ _

theorem port_does : Does sh (Demand sh (Port.options.items sh.posixly argv) .port)
    (HelpFirst Port.Accepts (Port.options.items sh.posixly argv)) (usbwsPort sh argv) := by
  rw [← Port.options_means.handleOptions_eq_help_iff]
  have hd : Demand sh (Port.options.items sh.posixly argv) .port = fun call => ∃ a,
      Port.options.handleOptions sh.posixly argv = .go a ∧
        some LibCall.listImportedDevices = some call := by
    funext call
    simp only [Port.options_means.handleOptions_eq_go_iff sh.posixly argv, Option.some.injEq,
      eq_iff_iff]
    constructor
    · intro h
      cases h with
      | port ha => exact ⟨_, ⟨ha, rfl⟩, rfl⟩
      | connectKind hm | bindKind hm => cases hm
    · rintro ⟨a, ⟨ha, -⟩, rfl⟩
      exact .port ha
  rw [hd]
  exact callWith_does _ _

/-- **Each command of the table does what is demanded of it.** -/
theorem proc_does {name : String} {proc : Shell → List CStr → Command → Run}
    (h : (cmd, name, proc) ∈ usbwsCommands) :
    Does sh (Demand sh (itemsOf sh argv cmd) cmd) (Prints (itemsOf sh argv cmd) cmd)
      (proc sh argv cmd) := by
  simp only [usbwsCommands, List.mem_cons, List.not_mem_nil, or_false, Prod.mk.injEq] at h
  rcases h with h | h | h | h | h | h | h | h | h | h <;> obtain ⟨rfl, -, rfl⟩ := h
  · exact connectKind_does rfl
  · exact connectKind_does rfl
  · exact connectKind_does rfl
  · exact detach_does
  · exact port_does
  · exact list_does
  · exact bindKind_does rfl
  · exact bindKind_does rfl
  all_goals
    refine .quiet (fun call h => ?_) (by simp [Prints])
    cases h with
    | connectKind hm | bindKind hm => cases hm

/-! ### The strings of the target -/

/-- A command line for a command with a client, as far as its strings are concerned. -/
def targetOptions {α : Type*} (target : α → Options) : Handled α → Options
  | .go a => target a
  | .help => .help
  | _ => .error

/-- The strings of a target are released as it is done for its options. -/
theorem connectKind_of_usbwsConnectKind {make : CStr → CStr → CStr → LibCall}
    (hmake : connectCall cmd = some make) : ∃ lib,
    ((usbwsConnectKind sh argv cmd).ledger, (usbwsConnectKind sh argv cmd).ret) =
      connectKind sh.parse sh.allocs (targetOptions (fun a => .target a.url a.proxy)
        (ConnectKind.options.handleOptions sh.posixly argv)) .connect lib ∧
    ∀ call ∈ (usbwsConnectKind sh argv cmd).calls, lib = sh.lib call := by
  simp only [usbwsConnectKind, hmake]
  cases ConnectKind.options.handleOptions sh.posixly argv with
  | go o =>
    by_cases hr : (Client.init.setTarget sh.parse sh.allocs .empty o.url o.proxy).ret = 0
    · refine ⟨sh.lib (make ((Client.init.setTarget sh.parse sh.allocs .empty o.url
        o.proxy).client.host.getD []) (Client.init.setTarget sh.parse sh.allocs .empty o.url
        o.proxy).client.tcpPortS o.busid), ?_, by simp [hr]⟩
      simp only [targetOptions, connectKind, hr, ne_eq, not_true_eq_false, if_false]
      split_ifs <;> rfl
    · exact ⟨0, by simp [targetOptions, connectKind, hr], by simp [hr]⟩
  | help | version | error => exact ⟨0, rfl, by simp⟩

theorem list_of_usbwsList : ∃ lib,
    ((usbwsList sh argv).ledger, (usbwsList sh argv).ret) =
      list sh.parse sh.allocs (targetOptions (fun o => if o.isLocal then .localDevices
          else .target (o.url.getD []) o.proxy)
        (ListDevices.options.handleOptions sh.posixly argv)) lib ∧
    ∀ call ∈ (usbwsList sh argv).calls, lib = sh.lib call := by
  simp only [usbwsList]
  cases ListDevices.options.handleOptions sh.posixly argv with
  | go o =>
    by_cases hl : o.isLocal = true
    · refine ⟨sh.lib (.listLocalDevices o.parsable), ?_, by simp [hl]⟩
      simp only [targetOptions, list, hl, if_true]
      split_ifs <;> rfl
    · by_cases hr :
          (Client.init.setTarget sh.parse sh.allocs .empty (o.url.getD []) o.proxy).ret = 0
      · refine ⟨sh.lib (.listImportableDevices ((Client.init.setTarget sh.parse sh.allocs .empty
          (o.url.getD []) o.proxy).client.host.getD []) (Client.init.setTarget sh.parse sh.allocs
          .empty (o.url.getD []) o.proxy).client.tcpPortS), ?_, by simp [hl, hr]⟩
        simp only [targetOptions, list, hl, hr, Bool.false_eq_true, ne_eq, not_true_eq_false,
          if_false]
        split_ifs <;> rfl
      · exact ⟨0, by simp [targetOptions, list, hl, hr], by simp [hl, hr]⟩
  | help | version | error => exact ⟨0, rfl, by simp⟩

/-- What is released by a command with a target, in terms of its `handle_options`. -/
theorem targetOptions_eq_target_iff {α : Type*} {target : α → Options} {options : Handled α} :
    targetOptions target options = .target url proxy ↔
      ∃ a, options = .go a ∧ target a = .target url proxy := by
  cases options <;> simp [targetOptions]

theorem connectKind_releases {make : CStr → CStr → CStr → LibCall}
    (hmake : connectCall cmd = some make) : (usbwsConnectKind sh argv cmd).ledger.Balanced ↔
      ∀ url proxy, SetsTarget (ConnectKind.options.items sh.posixly argv) cmd url proxy →
        Releasable sh.parse sh.allocs url proxy := by
  obtain ⟨lib, heq, -⟩ := @connectKind_of_usbwsConnectKind sh argv cmd make hmake
  have hledger : (usbwsConnectKind sh argv cmd).ledger = _ := congrArg Prod.fst heq
  rw [hledger, connectKind_balanced_iff]
  refine forall₂_congr fun url proxy => imp_congr_left ?_
  simp only [targetOptions_eq_target_iff, Options.target.injEq,
    ConnectKind.options_means.handleOptions_eq_go_iff sh.posixly argv,
    ConnectKind.check_eq_some_iff]
  constructor
  · rintro ⟨a, ⟨ha, url, busid, hu, hb, rfl⟩, rfl, rfl⟩
    exact .connectKind hmake ha hu hb
  · intro h
    cases h with
    | connectKind _ ha hu hb => exact ⟨_, ⟨ha, _, _, hu, hb, rfl⟩, rfl, rfl⟩
    | list => cases hmake

theorem list_releases : (usbwsList sh argv).ledger.Balanced ↔
    ∀ url proxy, SetsTarget (ListDevices.options.items sh.posixly argv) .list url proxy →
      Releasable sh.parse sh.allocs url proxy := by
  obtain ⟨lib, heq, -⟩ := @list_of_usbwsList sh argv
  have hledger : (usbwsList sh argv).ledger = _ := congrArg Prod.fst heq
  rw [hledger, list_balanced_iff]
  refine forall₂_congr fun url proxy => imp_congr_left ?_
  simp only [targetOptions_eq_target_iff,
    ListDevices.options_means.handleOptions_eq_go_iff sh.posixly argv,
    ListDevices.check_eq_some_iff]
  constructor
  · rintro ⟨a, ⟨ha, hurl, rfl⟩, htarget⟩
    split_ifs at htarget with hl
    obtain ⟨rfl, rfl⟩ := Options.target.inj htarget
    obtain ⟨url, hu⟩ := Option.isSome_iff_exists.1 (hurl.resolve_left hl)
    rw [hu]
    exact .list ha (Bool.eq_false_iff.2 hl) hu
  · intro h
    cases h with
    | connectKind hm => cases hm
    | list ha hl hu =>
      have hsome :
          (ListDevices.meaning (ListDevices.options.items sh.posixly argv)).url = some url := hu
      refine ⟨_, ⟨ha, .inr (by rw [hsome]; rfl), rfl⟩, ?_⟩
      rw [hsome]
      exact if_neg (Bool.eq_false_iff.1 hl)

theorem callWith_ledger {α : Type*} (options : Handled α) (make : α → Option LibCall) :
    (callWith sh options make).ledger = .empty := by
  unfold callWith
  cases options with
  | go a =>
    dsimp only
    cases make a <;> rfl
  | help | version | error => rfl

/-- **When a command releases the strings of its target**, each exactly once: when it sets none, or
one that can be released. -/
theorem proc_balanced_iff {name : String} {proc : Shell → List CStr → Command → Run}
    (h : (cmd, name, proc) ∈ usbwsCommands) : (proc sh argv cmd).ledger.Balanced ↔
      ∀ url proxy, SetsTarget (itemsOf sh argv cmd) cmd url proxy →
        Releasable sh.parse sh.allocs url proxy := by
  simp only [usbwsCommands, List.mem_cons, List.not_mem_nil, or_false, Prod.mk.injEq] at h
  rcases h with h | h | h | h | h | h | h | h | h | h <;> obtain ⟨rfl, -, rfl⟩ := h
  · exact connectKind_releases rfl
  · exact connectKind_releases rfl
  · exact connectKind_releases rfl
  case inr.inr.inr.inr.inr.inl => exact list_releases
  all_goals
    refine iff_of_true ?_ fun url proxy h => ?_
    · have hempty : Ledger.empty.Balanced := balanced_free_init
      simpa only [usbwsDetach, usbwsPort, usbwsBindKind, printed, callWith_ledger] using hempty
    · cases h with
      | connectKind hm => cases hm

end Cli

end Usbws

import Usbws.Cli.Main

/-!
# What a command tells libwebsockets

The functions of the USB/IP library open their connections by `usbws_client_open`, which goes by
what the options and the URL have left in the client.

* `ConnectInfo`, `usbwsClientGetSsl`, `usbwsClientConnInit` : the settings of a connection.
* `Connection`, `connectionOf` : all that a command line tells libwebsockets.
* `Cli.connection_iff` : for every command line, by the last value of each option.
-/

namespace Usbws

open Getopt

/-- The fields of `struct lws_client_connect_info` that are set, apart from the context. -/
structure ConnectInfo where
  sslConnection : ℤ
  address : Option CStr
  host : Option CStr
  origin : Option CStr
  port : ℤ
  path : Option CStr
  protocol : CStr
  ietfVersionOrMinusOne : ℤ
  deriving DecidableEq, Repr

/-- `usbws_client_get_ssl`. -/
def usbwsClientGetSsl (ssl : Bool) (verification : Verification) : ℤ :=
  if ssl then if verification = .relaxed then 1 else 2 else 0

/-- `usbws_protocol_name`. -/
def usbwsProtocolName : CStr := "USB/IP".toList

/-- `usbws_client_conn_init`. -/
def usbwsClientConnInit (c : Client) (verification : Verification) : ConnectInfo where
  sslConnection := usbwsClientGetSsl c.ssl verification
  address := c.host
  host := c.host
  origin := c.host
  port := c.tcpPort
  path := c.url
  protocol := usbwsProtocolName
  ietfVersionOrMinusOne := -1

/-- What `usbws_client_open` tells libwebsockets. -/
structure Connection where
  /-- For `lws_create_context`. -/
  info : Info
  /-- For `lws_set_proxy`, which is not called without it. -/
  proxy : Option CStr
  /-- For `lws_client_connect_via_info`. -/
  conn : ConnectInfo
  deriving DecidableEq, Repr

/-- `CONTEXT_PORT_NO_LISTEN`. -/
def contextPortNoListen : ℤ := -1

/-- `usbws_client_open` with a client and its options. -/
def Client.connection (c : Client) (tls : TlsOpts) : Connection where
  info := usbwsSetInfo contextPortNoListen c.ssl tls.key tls.cert
  proxy := c.proxy.map HeapStr.text
  conn := usbwsClientConnInit c tls.verification

/-- What is told when a target has been set. -/
def targetConnection (sh : Shell) (url : CStr) (proxy : Option CStr) (tls : TlsOpts) :
    Option Connection :=
  let r := Client.init.setTarget sh.parse sh.allocs .empty url proxy
  if r.ret ≠ 0 then none else some (r.client.connection tls)

/-- What a command line tells when the library opens a connection; `none` is a command line that
calls nothing for which there are connections. -/
def connectionOf (sh : Shell) (argv : List CStr) : Option Connection :=
  match commandOf argv with
  | some .connect | some .disconnect | some .attach =>
    match ConnectKind.options.handleOptions sh.posixly argv with
    | .go o => targetConnection sh o.url o.proxy o.tls
    | _ => none
  | some .list =>
    match ListDevices.options.handleOptions sh.posixly argv with
    | .go o => if o.isLocal then none else targetConnection sh (o.url.getD []) o.proxy o.tls
    | _ => none
  | _ => none

namespace Cli

variable {sh : Shell} {argv : List CStr} {url : CStr} {proxy : Option CStr} {u : Uri}

/-- What is told for the target `u` of a URL. -/
def toldFor (sh : Shell) (url : CStr) (proxy : Option CStr) (tls : TlsOpts) (u : Uri) :
    Connection where
  info := usbwsSetInfo contextPortNoListen (decide (u.method = wss)) tls.key tls.cert
  proxy := proxy.bind (proxyText sh)
  conn := ⟨usbwsClientGetSsl (decide (u.method = wss)) tls.verification, some u.host, some u.host,
    some u.host, u.port, some url, usbwsProtocolName, -1⟩

theorem targetConnection_eq_some_iff {tls : TlsOpts} {c : Connection} :
    targetConnection sh url proxy tls = some c ↔
      ∃ u, TargetSet sh url proxy u ∧ c = toldFor sh url proxy tls u := by
  have hset : ∀ u, TargetSet sh url proxy u →
      targetConnection sh url proxy tls = some (toldFor sh url proxy tls u) := by
    intro u h
    obtain ⟨hret, s, hclient, hs⟩ := client_of_targetSet h
    unfold targetConnection toldFor
    simp only [hret, ne_eq, not_true_eq_false, if_false]
    rw [hclient, ← hs]
    rfl
  constructor
  · intro h
    by_cases hr : (Client.init.setTarget sh.parse sh.allocs .empty url proxy).ret = 0
    · obtain ⟨u, hu⟩ := exists_targetSet hr
      rw [hset u hu] at h
      exact ⟨u, hu, (Option.some.inj h).symm⟩
    · simp [targetConnection, hr] at h
  · rintro ⟨u, hu, rfl⟩
    exact hset u hu

theorem connectKind_connection_iff {c : Connection} :
    (∃ o, ConnectKind.options.handleOptions sh.posixly argv = .go o ∧
      targetConnection sh o.url o.proxy o.tls = some c) ↔
    ∃ url u, lastArg 'b' (ConnectKind.options.items sh.posixly argv) ≠ none ∧
      (∀ i ∈ ConnectKind.options.items sh.posixly argv, ConnectKind.Accepts i) ∧
      lastArg 'u' (ConnectKind.options.items sh.posixly argv) = some url ∧
      TargetSet sh url (lastArg 'x' (ConnectKind.options.items sh.posixly argv)) u ∧
      c = toldFor sh url (lastArg 'x' (ConnectKind.options.items sh.posixly argv))
        (tlsMeaning (ConnectKind.options.items sh.posixly argv)) u := by
  simp only [ConnectKind.options_means.handleOptions_eq_go_iff sh.posixly argv,
    ConnectKind.check_eq_some_iff, targetConnection_eq_some_iff]
  constructor
  · rintro ⟨o, ⟨ha, url, busid, hu, hb, rfl⟩, u, ht, hc⟩
    exact ⟨url, u, fun hn => Option.some_ne_none busid (hb.symm.trans hn), ha, hu, ht, hc⟩
  · rintro ⟨url, u, hb, ha, hu, ht, hc⟩
    obtain ⟨busid, hb⟩ := Option.ne_none_iff_exists'.1 hb
    exact ⟨_, ⟨ha, url, busid, hu, hb, rfl⟩, u, ht, hc⟩

theorem list_connection_iff {c : Connection} :
    (∃ o, ListDevices.options.handleOptions sh.posixly argv = .go o ∧ o.isLocal = false ∧
      targetConnection sh (o.url.getD []) o.proxy o.tls = some c) ↔
    ∃ url u, isGiven 'l' (ListDevices.options.items sh.posixly argv) = false ∧
      (∀ i ∈ ListDevices.options.items sh.posixly argv, ListDevices.Accepts i) ∧
      lastArg 'u' (ListDevices.options.items sh.posixly argv) = some url ∧
      TargetSet sh url (lastArg 'x' (ListDevices.options.items sh.posixly argv)) u ∧
      c = toldFor sh url (lastArg 'x' (ListDevices.options.items sh.posixly argv))
        (tlsMeaning (ListDevices.options.items sh.posixly argv)) u := by
  simp only [ListDevices.options_means.handleOptions_eq_go_iff sh.posixly argv,
    ListDevices.check_eq_some_iff, targetConnection_eq_some_iff]
  constructor
  · rintro ⟨o, ⟨ha, hl, rfl⟩, hlocal, u, ht, hc⟩
    rcases hl with hl | hu
    · rw [hlocal] at hl
      cases hl
    · obtain ⟨url, hu⟩ := Option.isSome_iff_exists.1 hu
      rw [hu] at ht hc
      exact ⟨url, u, hlocal, ha, hu, ht, hc⟩
  · rintro ⟨url, u, hlocal, ha, hu, ht, hc⟩
    have hsome :
        (ListDevices.meaning (ListDevices.options.items sh.posixly argv)).url = some url := hu
    refine ⟨_, ⟨ha, .inr (by rw [hsome]; rfl), rfl⟩, hlocal, u, ?_⟩
    rw [hsome]
    exact ⟨ht, hc⟩

/-- **What is told for a command line**: TLS is used for a URL of the scheme `wss` only, and then
with 2, which lets certificates pass that are self-signed, unless the verification is the one called
relaxed; the path is the URL as a whole. -/
theorem connection_iff (sh : Shell) (argv : List CStr) (c : Connection) :
    connectionOf sh argv = some c ↔ ∃ cmd url u, commandOf argv = some cmd ∧
      (cmd ∈ [.connect, .disconnect, .attach] ∧ lastArg 'b' (itemsOf sh argv cmd) ≠ none ∨
        cmd = .list ∧ isGiven 'l' (itemsOf sh argv cmd) = false) ∧
      (∀ i ∈ itemsOf sh argv cmd, Accepts cmd i) ∧
      lastArg 'u' (itemsOf sh argv cmd) = some url ∧
      TargetSet sh url (lastArg 'x' (itemsOf sh argv cmd)) u ∧
      c = toldFor sh url (lastArg 'x' (itemsOf sh argv cmd))
        (tlsMeaning (itemsOf sh argv cmd)) u := by
  unfold connectionOf
  cases hcmd : commandOf argv with
  | none => simp
  | some cmd =>
    cases cmd with
    | connect | disconnect | attach =>
      have hmatch : (match ConnectKind.options.handleOptions sh.posixly argv with
          | .go o => targetConnection sh o.url o.proxy o.tls
          | _ => none) = some c ↔ ∃ o, ConnectKind.options.handleOptions sh.posixly argv = .go o ∧
            targetConnection sh o.url o.proxy o.tls = some c := by
        cases ConnectKind.options.handleOptions sh.posixly argv <;> simp
      refine hmatch.trans (connectKind_connection_iff.trans ⟨?_, ?_⟩)
      · rintro ⟨url, u, hb, ha, hu, ht, hc⟩
        exact ⟨_, url, u, rfl, .inl ⟨by simp, hb⟩, ha, hu, ht, hc⟩
      · rintro ⟨_, url, u, ⟨⟩, (⟨-, hb⟩ | ⟨h, -⟩), ha, hu, ht, hc⟩
        · exact ⟨url, u, hb, ha, hu, ht, hc⟩
        · cases h
    | list =>
      have hmatch : (match ListDevices.options.handleOptions sh.posixly argv with
          | .go o => if o.isLocal then none
            else targetConnection sh (o.url.getD []) o.proxy o.tls
          | _ => none) = some c ↔ ∃ o, ListDevices.options.handleOptions sh.posixly argv = .go o ∧
            o.isLocal = false ∧ targetConnection sh (o.url.getD []) o.proxy o.tls = some c := by
        cases ListDevices.options.handleOptions sh.posixly argv with
        | go o => cases hl : o.isLocal <;> simp [hl]
        | help | version | error => simp
      refine hmatch.trans (list_connection_iff.trans ⟨?_, ?_⟩)
      · rintro ⟨url, u, hl, ha, hu, ht, hc⟩
        exact ⟨_, url, u, rfl, .inr ⟨rfl, hl⟩, ha, hu, ht, hc⟩
      · rintro ⟨_, url, u, ⟨⟩, (⟨h, -⟩ | ⟨-, hl⟩), ha, hu, ht, hc⟩
        · simp at h
        · exact ⟨url, u, hl, ha, hu, ht, hc⟩
    | detach | port | bind | unbind | help | version | error =>
      refine iff_of_false nofun ?_
      rintro ⟨_, url, u, ⟨⟩, (⟨h, -⟩ | ⟨h, -⟩), -⟩
      · simp at h
      · cases h

/-- Without an option the verification is `USBWS_VERIFY_NONE`. -/
example : (connectionOf (calm false) (["usbws", "attach", "-uwss://h/", "-b1-2"].map
    String.toList)).map (fun c => c.conn.sslConnection) = some 2 := by decide

end Cli

end Usbws

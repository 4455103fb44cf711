import Usbws.Data.CString
import Usbws.Data.Ledger

/-!
# The strings of the target

`usbws_client_set_target` copies the URL to be cut up by `lws_parse_uri`, and
`usbws_client_set_proxy` makes a copy of the proxy URL and the string for `lws_set_proxy`.  The
commands release them by `usbws_client_free`, which goes by the pointers in the client.

* `Client` : the fields of `struct usbws_client` that concern the target.
* `Client.setProxy`, `Client.setTarget`, `Client.free` : the functions with the ledger of the
  allocator; `Allocs` says which of their calls of `malloc` succeed, and `parse` is `lws_parse_uri`.
* `connectKind`, `list` : the commands, as far as these strings are concerned.
* `target_strings_freed_once_iff` : when the ledger is balanced in the end.

A failing `usbws_client_set_target` frees its copy and leaves the pointer in the client, so the copy
is freed again; and nobody frees the copy of a proxy URL that is used.
-/

namespace Usbws

/-- What `lws_parse_uri` finds in a string. -/
structure Uri where
  method : CStr
  host : CStr
  port : ℤ
  path : CStr
  deriving DecidableEq, Repr

/-- A string in a block of its own, as it was written into it. -/
structure HeapStr where
  block : ℕ
  text : CStr
  deriving DecidableEq, Repr

/-- The fields of `struct usbws_client` that concern the target; `none` is the NULL pointer.
`method`, `host` and `path` point into the copy of the URL. -/
structure Client where
  url : Option CStr
  urlWork : Option HeapStr
  proxy : Option HeapStr
  method : Option CStr
  host : Option CStr
  tcpPort : ℤ
  path : Option CStr
  tcpPortS : CStr
  ssl : Bool
  deriving DecidableEq, Repr

/-- Which calls of `malloc` succeed. -/
structure Allocs where
  urlWork : Bool := true
  tmp : Bool := true
  proxy : Bool := true
  deriving DecidableEq, Repr

/-- `USBWS_TCP_PORT_LEN`. -/
def tcpPortLen : ℕ := 7

/-- The `int` that is computed for the length of the string for `lws_set_proxy`. -/
def proxyLen (host : CStr) : ℤ := intOf (host.length + tcpPortLen + 2)

/-- The scheme of a URL for a connection without TLS. -/
def ws : CStr := "ws".toList

/-- The scheme of a URL for a connection with TLS. -/
def wss : CStr := "wss".toList

namespace Client

/-- `usbws_client_init`. -/
def init : Client where
  url := none
  urlWork := none
  proxy := none
  method := none
  host := none
  tcpPort := 0
  path := none
  tcpPortS := []
  ssl := false

/-- A client, the ledger and the value returned. -/
structure Result where
  client : Client
  ledger : Ledger
  ret : ℤ
  deriving DecidableEq, Repr

variable (parse : CStr → Option Uri) (allocs : Allocs)

/-- `usbws_client_set_proxy`. -/
def setProxy (c : Client) (L : Ledger) : Option CStr → Result
  | none => ⟨{ c with proxy := none }, L, 0⟩
  | some proxy =>
    if !allocs.tmp then ⟨c, L, -1⟩
    else
      let tmp := L.fresh
      -- `malloc(strlen(proxy + 1))`
      let L := L.alloc (proxy.drop 1).length
      match parse proxy with
      | none => ⟨c, L.free tmp, -1⟩
      | some u =>
        -- `malloc` takes a negative `len` for a huge one, and has no block for it
        let len := proxyLen u.host
        if !allocs.proxy || len < 0 then ⟨{ c with proxy := none }, L.free tmp, -1⟩
        else
          let text := snprintf len.toNat (u.host ++ ':' :: decimal u.port)
          ⟨{ c with proxy := some ⟨L.fresh, text⟩ }, L.alloc len.toNat, 0⟩

/-- `usbws_client_set_target`. -/
def setTarget (c : Client) (L : Ledger) (url : CStr) (proxy : Option CStr) : Result :=
  let c := { c with url := some url }
  if !allocs.urlWork then ⟨{ c with urlWork := none }, L, -1⟩
  else
    let work := L.fresh
    let L := L.alloc (url.length + 1)
    let c := { c with urlWork := some ⟨work, url⟩ }
    -- `err_free`
    let fail := fun (c : Client) (L : Ledger) =>
      (⟨{ c with url := none }, L.free work, -1⟩ : Result)
    match parse url with
    | none => fail c L
    | some u =>
      let c := { c with
        method := some u.method, host := some u.host, tcpPort := u.port, path := some u.path
        tcpPortS := snprintf tcpPortLen (decimal u.port) }
      if u.method = ws ∨ u.method = wss then
        let c := { c with ssl := decide (u.method = wss) }
        let r := setProxy parse allocs c L proxy
        if r.ret ≠ 0 then fail r.client r.ledger else ⟨r.client, r.ledger, 0⟩
      else fail c L

/-- `usbws_client_free`. -/
def free (c : Client) (L : Ledger) : Ledger :=
  let L := match c.urlWork with
    | some s => L.free s.block
    | none => L
  match c.proxy with
  | some s => L.free s.block
  | none => L

/-- The blocks the pointers of a client refer to. -/
def blocks (c : Client) : List ℕ :=
  c.urlWork.toList.map HeapStr.block ++ c.proxy.toList.map HeapStr.block

end Client

/-! ### The commands -/

/-- What `handle_options` makes of the command line. -/
inductive Options where
  /-- It fails. -/
  | error
  /-- It finds the option for help. -/
  | help
  /-- It finds the option for local devices, which only `usbws_list` has. -/
  | localDevices
  /-- It finds a target. -/
  | target (url : CStr) (proxy : Option CStr)
  deriving DecidableEq, Repr

/-- The commands of `usbws_connect_kind`; only without `USBIP_WITH_LIBUSB` there is `attach`. -/
inductive ConnectCmd where
  | connect
  | disconnect
  | attach
  | other
  deriving DecidableEq, Repr

section Commands

variable (parse : CStr → Option Uri) (allocs : Allocs)

/-- `usbws_connect_kind` : the ledger in the end and the value returned; `lib` is the result of the
function of the USB/IP library. -/
def connectKind (opts : Options) (cmd : ConnectCmd) (lib : ℤ) : Ledger × ℤ :=
  let c := Client.init
  match opts with
  | .error | .localDevices => (c.free .empty, -1)
  | .help => (c.free .empty, 0)
  | .target url proxy =>
    let r := c.setTarget parse allocs .empty url proxy
    if r.ret ≠ 0 then (r.client.free r.ledger, -1)
    else
      match cmd with
      | .connect | .disconnect | .attach =>
        if lib ≠ 0 then (r.client.free r.ledger, -1) else (r.client.free r.ledger, 0)
      | .other => (r.client.free r.ledger, -1)

/-- `usbws_list` : the ledger in the end and the value returned. -/
def list (opts : Options) (lib : ℤ) : Ledger × ℤ :=
  let c := Client.init
  match opts with
  | .error => (c.free .empty, -1)
  | .help => (c.free .empty, 0)
  | .localDevices => if lib ≠ 0 then (c.free .empty, -1) else (c.free .empty, 0)
  | .target url proxy =>
    let r := c.setTarget parse allocs .empty url proxy
    if r.ret ≠ 0 then (r.client.free r.ledger, -1)
    else if lib ≠ 0 then (r.client.free r.ledger, -1) else (r.client.free r.ledger, 0)

/-- The copy of the URL cannot be allocated, or the URL is parsed and has one of the two schemes and
there is no proxy. -/
def Releasable (url : CStr) (proxy : Option CStr) : Prop :=
  allocs.urlWork = false ∨ proxy = none ∧
    ∃ u, parse url = some u ∧ (u.method = ws ∨ u.method = wss)

end Commands

variable {parse : CStr → Option Uri} {allocs : Allocs} {c : Client} {L : Ledger} {url : CStr}
  {proxy : Option CStr}

/-! ### What the client owns -/

namespace Client

/-- **What `usbws_client_free` releases**: everything, if the pointers of the client agree with the
ledger, and only then. -/
theorem free_balanced_iff : (c.free L).Balanced ↔ L.Accounts c.blocks := by
  unfold free Ledger.Balanced Ledger.Accounts
  cases hu : c.urlWork with
  | none => cases hp : c.proxy <;> simp [blocks, hu, hp, Ledger.fresh, Ledger.free]
  | some w =>
    cases hp : c.proxy with
    | none => simp [blocks, hu, hp, Ledger.fresh, Ledger.free]
    | some s =>
      have hswap : (s.block :: w.block :: L.frees).Perm (w.block :: s.block :: L.frees) :=
        .swap _ _ _
      simpa [blocks, hu, hp, Ledger.fresh, Ledger.free] using
        ⟨fun h => hswap.symm.trans h, fun h => hswap.trans h⟩

/-- A client that keeps its pointer to a block it has freed does not agree with the ledger. -/
theorem not_accounts_free {b : ℕ} (hc : c.urlWork.isSome = true)
    (hL : L.fresh ≤ L.frees.length + 1) : ¬ (L.free b).Accounts c.blocks := by
  intro h
  obtain ⟨w, hw⟩ := Option.isSome_iff_exists.1 hc
  have hlen := h.length
  simp only [blocks, hw, Option.toList_some, List.map_cons, List.map_nil, List.length_append,
    List.length_cons, List.length_nil, Ledger.frees_free, Ledger.fresh_free] at hlen
  omega

/-- The ways through `usbws_client_set_proxy` with a proxy. -/
inductive ProxySet (parse : CStr → Option Uri) (allocs : Allocs) (c : Client) (L : Ledger)
    (proxy : CStr) : Result → Prop
  | noTmp : allocs.tmp = false → ProxySet parse allocs c L proxy ⟨c, L, -1⟩
  | noUri : allocs.tmp = true → parse proxy = none →
      ProxySet parse allocs c L proxy ⟨c, (L.alloc (proxy.drop 1).length).free L.fresh, -1⟩
  | noProxy {u : Uri} : allocs.tmp = true → parse proxy = some u →
      allocs.proxy = false ∨ proxyLen u.host < 0 →
      ProxySet parse allocs c L proxy
        ⟨{ c with proxy := none }, (L.alloc (proxy.drop 1).length).free L.fresh, -1⟩
  | ok {u : Uri} : allocs.tmp = true → parse proxy = some u → allocs.proxy = true →
      0 ≤ proxyLen u.host →
      ProxySet parse allocs c L proxy
        ⟨{ c with proxy := some ⟨L.fresh + 1,
            snprintf (proxyLen u.host).toNat (u.host ++ ':' :: decimal u.port)⟩ },
          (L.alloc (proxy.drop 1).length).alloc (proxyLen u.host).toNat, 0⟩

theorem proxySet_of_setProxy {p : CStr} {r : Result}
    (h : c.setProxy parse allocs L (some p) = r) : ProxySet parse allocs c L p r := by
  subst h
  unfold setProxy
  by_cases ht : allocs.tmp = true
  · cases hu : parse p with
    | none =>
      have hset : ProxySet parse allocs c L p _ := .noUri ht hu
      simpa [ht, hu] using hset
    | some u =>
      by_cases hn : allocs.proxy = false ∨ proxyLen u.host < 0
      · have hset : ProxySet parse allocs c L p _ := .noProxy ht hu hn
        simpa [ht, hu, hn] using hset
      · have hok := hn
        rw [not_or, Bool.not_eq_false, Int.not_lt] at hok
        have hset : ProxySet parse allocs c L p _ := .ok ht hu hok.1 hok.2
        simpa [ht, hu, hn] using hset
  · rw [Bool.not_eq_true] at ht
    have hset : ProxySet parse allocs c L p _ := .noTmp ht
    simpa [ht] using hset

/-- Behind a failing `usbws_client_set_proxy` the work copy of the proxy URL, if there is one, has
been freed; behind a successful one with a proxy it is live, although no pointer refers to it. -/
theorem setProxy_some {p : CStr} {r : Result} (h : c.setProxy parse allocs L (some p) = r) :
    r.client.urlWork = c.urlWork ∧
      (r.ret ≠ 0 ∧ r.ledger.frees.length + L.fresh = L.frees.length + r.ledger.fresh ∨
        r.ret = 0 ∧ r.ledger.frees = L.frees ∧ r.ledger.fresh = L.fresh + 2 ∧
          r.client.proxy.isSome = true) := by
  cases proxySet_of_setProxy h with
  | noTmp => exact ⟨rfl, .inl ⟨by simp, rfl⟩⟩
  | noUri | noProxy =>
    refine ⟨rfl, .inl ⟨by simp, ?_⟩⟩
    simp only [Ledger.frees_free, Ledger.frees_alloc, Ledger.fresh_free, Ledger.fresh_alloc,
      List.length_cons]
    omega
  | ok => exact ⟨rfl, .inr ⟨rfl, rfl, by simp, rfl⟩⟩

/-- With a proxy the pointers do not agree with the ledger, whether `usbws_client_set_proxy`
fails or not. -/
theorem not_accounts_setProxy {p : CStr} {b : ℕ} {r : Result} (hc : c.urlWork.isSome = true)
    (hL : L.fresh = L.frees.length + 1) (h : c.setProxy parse allocs L (some p) = r) :
    (r.ret ≠ 0 → ¬ (r.ledger.free b).Accounts r.client.blocks) ∧
      (r.ret = 0 → ¬ r.ledger.Accounts r.client.blocks) := by
  obtain ⟨hw, ⟨hr, hl⟩ | ⟨hr, hf, hl, hp⟩⟩ := setProxy_some h
  · exact ⟨fun _ => not_accounts_free (hw ▸ hc) (by omega), fun h => absurd h hr⟩
  · refine ⟨fun h => absurd hr h, fun _ ha => ?_⟩
    -- two pointers for three live blocks
    obtain ⟨w, hw'⟩ := Option.isSome_iff_exists.1 (hw ▸ hc)
    obtain ⟨s, hs⟩ := Option.isSome_iff_exists.1 hp
    have hlen := ha.length
    simp only [blocks, hw', hs, Option.toList_some, List.map_cons, List.map_nil,
      List.length_append, List.length_cons, List.length_nil, hf, hl] at hlen
    omega

/-- Behind a `usbws_client_set_target` of a fresh client the pointers agree with the ledger exactly
in the cases that can be released. -/
theorem setTarget_accounts_iff (url : CStr) (proxy : Option CStr) :
    (init.setTarget parse allocs .empty url proxy).ledger.Accounts
      (init.setTarget parse allocs .empty url proxy).client.blocks ↔
    Releasable parse allocs url proxy := by
  cases ha : allocs.urlWork with
  | false =>
    have hnil : Ledger.empty.Accounts [] := Ledger.accounts_empty
    simpa [setTarget, Releasable, ha, blocks, init] using hnil
  | true =>
    -- the copy of the URL is the first block
    have hfresh : (Ledger.empty.alloc (url.length + 1)).fresh = 1 := rfl
    have hfrees : (Ledger.empty.alloc (url.length + 1)).frees = [] := rfl
    cases hu : parse url with
    | none =>
      simp only [setTarget, ha, hu, Releasable]
      refine ⟨fun h => absurd h (not_accounts_free rfl (by simp [hfresh])), ?_⟩
      rintro (h | ⟨-, u, h, -⟩)
      · cases h
      · cases h
    | some u =>
      by_cases hm : u.method = ws ∨ u.method = wss
      · cases proxy with
        | none =>
          have hown : (Ledger.empty.alloc (url.length + 1)).Accounts [Ledger.empty.fresh] :=
            Ledger.accounts_empty.alloc _
          have hrel : Releasable parse allocs url none := .inr ⟨rfl, u, hu, hm⟩
          simpa [setTarget, setProxy, ha, hu, hm, hrel, blocks, init] using hown
        | some p =>
          have hrel : ¬ Releasable parse allocs url (some p) := by
            rintro (h | ⟨h, -⟩)
            · rw [ha] at h; cases h
            · cases h
          refine iff_of_false ?_ hrel
          simp only [setTarget, ha, hu, hm, if_true, Bool.not_true, Bool.false_eq_true, if_false]
          generalize hR : setProxy parse allocs _ _ (some p) = r
          have hnot := not_accounts_setProxy (b := Ledger.empty.fresh) rfl
            (by rw [hfresh, hfrees]; rfl) hR
          split_ifs with hr
          · exact hnot.1 hr
          · exact hnot.2 (not_not.1 hr)
      · have hrel : ¬ Releasable parse allocs url proxy := by
          rintro (h | ⟨-, v, h, hv⟩)
          · rw [ha] at h; cases h
          · rw [hu, Option.some.injEq] at h
            exact hm (h ▸ hv)
        refine iff_of_false ?_ hrel
        simp only [setTarget, ha, hu, hm]
        exact not_accounts_free rfl (by simp [hfresh])

end Client

/-- Without a target nothing has been allocated. -/
theorem balanced_free_init : (Client.init.free .empty).Balanced :=
  Client.free_balanced_iff.2 Ledger.accounts_empty

theorem balanced_setTarget_iff (url : CStr) (proxy : Option CStr) :
    ((Client.init.setTarget parse allocs .empty url proxy).client.free
      (Client.init.setTarget parse allocs .empty url proxy).ledger).Balanced ↔
    Releasable parse allocs url proxy :=
  Client.free_balanced_iff.trans (Client.setTarget_accounts_iff url proxy)

theorem connectKind_balanced_iff (opts : Options) (cmd : ConnectCmd) (lib : ℤ) :
    (connectKind parse allocs opts cmd lib).1.Balanced ↔
      ∀ url proxy, opts = .target url proxy → Releasable parse allocs url proxy := by
  cases opts with
  | error | help | localDevices => simpa [connectKind] using balanced_free_init
  | target url proxy =>
    have hledger : (connectKind parse allocs (.target url proxy) cmd lib).1 =
        (Client.init.setTarget parse allocs .empty url proxy).client.free
          (Client.init.setTarget parse allocs .empty url proxy).ledger := by
      simp only [connectKind]
      cases cmd <;> split_ifs <;> rfl
    simp [hledger, balanced_setTarget_iff]

theorem list_balanced_iff (opts : Options) (lib : ℤ) :
    (list parse allocs opts lib).1.Balanced ↔
      ∀ url proxy, opts = .target url proxy → Releasable parse allocs url proxy := by
  cases opts with
  | error | help => simpa [list] using balanced_free_init
  | localDevices =>
    have hledger : (list parse allocs .localDevices lib).1 = Client.init.free .empty := by
      simp only [list]
      split_ifs <;> rfl
    simpa [hledger] using balanced_free_init
  | target url proxy =>
    have hledger : (list parse allocs (.target url proxy) lib).1 =
        (Client.init.setTarget parse allocs .empty url proxy).client.free
          (Client.init.setTarget parse allocs .empty url proxy).ledger := by
      simp only [list]
      split_ifs <;> rfl
    simp [hledger, balanced_setTarget_iff]

/-- **The strings of the target are released exactly once** by either command exactly if it does not
come to set a target, or to set one that can be released. -/
theorem target_strings_freed_once_iff (opts : Options) (cmd : ConnectCmd) (lib : ℤ) :
    ((connectKind parse allocs opts cmd lib).1.Balanced ↔
      ∀ url proxy, opts = .target url proxy → Releasable parse allocs url proxy) ∧
    ((list parse allocs opts lib).1.Balanced ↔
      ∀ url proxy, opts = .target url proxy → Releasable parse allocs url proxy) :=
  ⟨connectKind_balanced_iff opts cmd lib, list_balanced_iff opts lib⟩

/-- A parser that knows two URLs and a proxy. -/
def parseExample : CStr → Option Uri := fun s =>
  if s = "http://h/".toList then some ⟨"http".toList, "h".toList, 80, "/".toList⟩
  else if s = "ws://h/".toList then some ⟨ws, "h".toList, 80, "/".toList⟩
  else if s = "http://p:8080".toList then some ⟨"http".toList, "p".toList, 8080, "/".toList⟩
  else none

/-- The copy of a URL with an unsupported scheme is freed twice, and so is that of a good one when
the proxy URL cannot be copied; the copy of a proxy URL that is used stays live. -/
theorem target_strings_not_freed_once :
    (connectKind parseExample {} (.target "http://h/".toList none) .connect 0).1.frees = [0, 0] ∧
    (list parseExample { tmp := false }
      (.target "ws://h/".toList (some "http://p:8080".toList)) 0).1.frees = [0, 0] ∧
    (list parseExample {}
      (.target "ws://h/".toList (some "http://p:8080".toList)) 0).1.Live 1 ∧
    ¬ ∀ (parse : CStr → Option Uri) allocs opts cmd lib,
      (connectKind parse allocs opts cmd lib).1.Balanced ∧
        (list parse allocs opts lib).1.Balanced := by
  refine ⟨by decide, by decide, by decide, fun h => ?_⟩
  have hb := (h parseExample {} (.target "http://h/".toList none) .connect 0).1
  revert hb
  decide

end Usbws

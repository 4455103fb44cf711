import Usbws.Client.Proxy

/-!
# Room for the strings of the target

`usbws_client_set_target` and `usbws_client_set_proxy` store four strings, each in a destination
whose size is computed in its own way: two copies, which must fit, and two renderings, which are
bounded and may be cut off.

* `Store` : a `strcpy` or `snprintf`; `Store.Inside` says that it stays inside of its destination,
  `Store.Whole` that nothing is cut off.
* `Client.setTargetStores` : the stores of `usbws_client_set_target`.
* `Client.stored_of_setTarget` : the strings of the client are what was stored.
* `stores_safe_iff` : when all of them are inside and whole.

The block for the copy of the proxy URL is two bytes too short: its size is `strlen(proxy + 1)`
where `strlen(proxy) + 1` is needed.
-/

namespace Usbws

/-- Where a string is stored. -/
inductive Dest where
  /-- A block of the allocator. -/
  | block (b : ℕ)
  /-- The field `tcp_port_s`. -/
  | tcpPortS
  deriving DecidableEq, Repr

/-- The size of a destination. -/
def Dest.size (L : Ledger) : Dest → ℕ
  | block b => L.size b
  | tcpPortS => tcpPortLen + 1

/-- A `strcpy`, or an `snprintf` with its bound. -/
structure Store where
  dest : Dest
  /-- The text to be stored. -/
  text : CStr
  bound : Option ℕ
  deriving DecidableEq, Repr

namespace Store

/-- What is stored in front of the terminator. -/
def stored (w : Store) : CStr := w.bound.elim w.text fun n => snprintf n w.text

/-- The number of bytes written, with the terminator. -/
def bytes (w : Store) : ℕ := w.bound.elim (w.text.length + 1) fun n => min n (w.text.length + 1)

/-- Nothing is written behind the destination. -/
def Inside (w : Store) (L : Ledger) : Prop := w.bytes ≤ w.dest.size L

/-- Nothing of the text is cut off. -/
def Whole (w : Store) : Prop := w.stored = w.text

/-- The string has been stored in its block. -/
def Holds (w : Store) (s : HeapStr) : Prop := w.dest = .block s.block ∧ w.stored = s.text

theorem holds_strcpy (b : ℕ) (text : CStr) : Holds ⟨.block b, text, none⟩ ⟨b, text⟩ := ⟨rfl, rfl⟩

theorem holds_snprintf (b : ℕ) (text : CStr) (n : ℕ) :
    Holds ⟨.block b, text, some n⟩ ⟨b, snprintf n text⟩ := ⟨rfl, rfl⟩

instance (w : Store) (L : Ledger) : Decidable (w.Inside L) := inferInstanceAs (Decidable (_ ≤ _))

instance (w : Store) : Decidable w.Whole := inferInstanceAs (Decidable (_ = _))

end Store

namespace Client

section Stores

variable (parse : CStr → Option Uri) (allocs : Allocs)

/-- The stores of `usbws_client_set_proxy`. -/
def setProxyStores (L : Ledger) : Option CStr → List Store
  | none => []
  | some proxy =>
    if !allocs.tmp then []
    else
      let tmp := L.fresh
      let L := L.alloc (proxy.drop 1).length
      ⟨.block tmp, proxy, none⟩ ::
        match parse proxy with
        | none => []
        | some u =>
          let len := proxyLen u.host
          if !allocs.proxy || len < 0 then []
          else [⟨.block L.fresh, u.host ++ ':' :: decimal u.port, some len.toNat⟩]

/-- The stores of `usbws_client_set_target`. -/
def setTargetStores (L : Ledger) (url : CStr) (proxy : Option CStr) : List Store :=
  if !allocs.urlWork then []
  else
    let work := L.fresh
    let L := L.alloc (url.length + 1)
    ⟨.block work, url, none⟩ ::
      match parse url with
      | none => []
      | some u =>
        ⟨.tcpPortS, decimal u.port, some tcpPortLen⟩ ::
          if u.method = ws ∨ u.method = wss then setProxyStores parse allocs L proxy else []

end Stores

variable {parse : CStr → Option Uri} {allocs : Allocs} {c : Client} {L : Ledger} {url : CStr}
  {proxy : Option CStr}

/-! ### The strings of the client -/

/-- The string for `lws_set_proxy` is what `usbws_client_set_proxy` stored. -/
theorem stored_of_setProxy {s : HeapStr} {r : Result} (hc : c.proxy = none)
    (h : c.setProxy parse allocs L proxy = r) (hs : r.client.proxy = some s) :
    ∃ w ∈ setProxyStores parse allocs L proxy, w.Holds s := by
  cases proxy with
  | none => subst h; cases hs
  | some p =>
    cases proxySet_of_setProxy h with
    | noTmp | noUri => rw [hc] at hs; cases hs
    | noProxy => cases hs
    | @ok u ht hu hp hn =>
      have hmem : ⟨.block (L.fresh + 1), u.host ++ ':' :: decimal u.port,
          some (proxyLen u.host).toNat⟩ ∈ setProxyStores parse allocs L (some p) := by
        simp [setProxyStores, ht, hu, hp, hn]
      have hproxy : s = ⟨L.fresh + 1,
          snprintf (proxyLen u.host).toNat (u.host ++ ':' :: decimal u.port)⟩ :=
        (Option.some.inj hs).symm
      exact ⟨_, hmem, hproxy ▸ Store.holds_snprintf _ _ _⟩

/-- `usbws_client_set_proxy` changes only the proxy. -/
theorem client_of_setProxy {r : Result} (h : c.setProxy parse allocs L proxy = r) :
    r.client = { c with proxy := r.client.proxy } := by
  cases proxy with
  | none => subst h; rfl
  | some p => cases proxySet_of_setProxy h <;> rfl

/-- The copy of the URL and the string for `lws_set_proxy` are what `usbws_client_set_target`
stored, and so is the text of the port. -/
theorem stored_of_setTarget {r : Result} (h : init.setTarget parse allocs L url proxy = r) :
    (∀ s, r.client.urlWork = some s ∨ r.client.proxy = some s →
      ∃ w ∈ setTargetStores parse allocs L url proxy, w.Holds s) ∧
    (r.client.host ≠ none →
      ∃ w ∈ setTargetStores parse allocs L url proxy, w.dest = .tcpPortS ∧
        w.stored = r.client.tcpPortS) := by
  subst h
  by_cases ha : allocs.urlWork = true
  · cases hu : parse url with
    | none =>
      simp [setTarget, setTargetStores, ha, hu, init, Store.holds_strcpy]
    | some u =>
      by_cases hm : u.method = ws ∨ u.method = wss
      · cases hr : (init.parsed L url u).setProxy parse allocs (L.alloc (url.length + 1)) proxy with
        | mk c' L' ret =>
          have hset : setTargetStores parse allocs L url proxy = ⟨.block L.fresh, url, none⟩ ::
              ⟨.tcpPortS, decimal u.port, some tcpPortLen⟩ ::
                setProxyStores parse allocs (L.alloc (url.length + 1)) proxy := by
            simp [setTargetStores, ha, hu, hm]
          have hclient : (init.setTarget parse allocs L url proxy).client.urlWork = c'.urlWork ∧
              (init.setTarget parse allocs L url proxy).client.proxy = c'.proxy ∧
              (init.setTarget parse allocs L url proxy).client.tcpPortS = c'.tcpPortS := by
            rw [setTarget_of_parsed ha hu hm hr]
            split_ifs <;> exact ⟨rfl, rfl, rfl⟩
          have hkeep : c' = { init.parsed L url u with proxy := c'.proxy } := client_of_setProxy hr
          rw [hset, hclient.1, hclient.2.1, hclient.2.2]
          refine ⟨?_, fun _ => ⟨_, .tail _ (.head _), rfl, ?_⟩⟩
          · rintro s (hs | hs)
            · rw [hkeep] at hs
              cases hs
              exact ⟨_, .head _, Store.holds_strcpy _ _⟩
            · obtain ⟨w, hw, hd⟩ := stored_of_setProxy (c := init.parsed L url u) rfl hr hs
              exact ⟨w, .tail _ (.tail _ hw), hd⟩
          · rw [hkeep]
            rfl
      · simp [setTarget, setTargetStores, ha, hu, hm, init, Store.holds_strcpy]
        rfl
  · simp [setTarget, ha, init]

/-! ### Room -/

/-- `usbws_client_set_proxy` does not resize the blocks there are. -/
theorem size_of_setProxy {r : Result} {b : ℕ} (h : c.setProxy parse allocs L proxy = r)
    (hb : b < L.fresh) : r.ledger.size b = L.size b := by
  cases proxy with
  | none => subst h; rfl
  | some p =>
    have hb' : b < (L.alloc (p.drop 1).length).fresh := by
      rw [Ledger.fresh_alloc]
      omega
    cases proxySet_of_setProxy h with
    | noTmp => rfl
    | noUri | noProxy => exact Ledger.size_alloc_of_lt hb _
    | ok => exact (Ledger.size_alloc_of_lt hb' _).trans (Ledger.size_alloc_of_lt hb _)

/-- The block for the copy of the proxy URL has one byte less than the URL has characters. -/
theorem size_fresh_of_setProxy {p : CStr} {r : Result} (ht : allocs.tmp = true)
    (h : c.setProxy parse allocs L (some p) = r) : r.ledger.size L.fresh = p.length - 1 := by
  have hb : L.fresh < (L.alloc (p.drop 1).length).fresh := by
    rw [Ledger.fresh_alloc]
    omega
  have htmp : (L.alloc (p.drop 1).length).size L.fresh = p.length - 1 := by
    rw [Ledger.size_alloc_fresh, List.length_drop]
  cases proxySet_of_setProxy h with
  | noTmp hn => rw [ht] at hn; cases hn
  | noUri | noProxy => exact htmp
  | ok => exact (Ledger.size_alloc_of_lt hb _).trans htmp

end Client

/-! ### When the stores are safe -/

/-- The text of the port is cut off behind six characters. -/
theorem tcpPortS_safe_iff (n : ℤ) :
    ((⟨.tcpPortS, decimal n, some tcpPortLen⟩ : Store).Inside L ∧
      (⟨.tcpPortS, decimal n, some tcpPortLen⟩ : Store).Whole) ↔ -99999 ≤ n ∧ n ≤ 999999 := by
  have hinside : (⟨.tcpPortS, decimal n, some tcpPortLen⟩ : Store).Inside L :=
    (Nat.min_le_left _ _).trans (Nat.le_succ _)
  have hwhole : (⟨.tcpPortS, decimal n, some tcpPortLen⟩ : Store).Whole ↔
      (decimal n).length ≤ 5 + 1 := snprintf_eq_iff
  rw [hwhole, length_decimal_le_iff (by decide)]
  constructor
  · rintro ⟨-, h₁, h₂⟩
    omega
  · rintro ⟨h₁, h₂⟩
    exact ⟨hinside, by omega, by omega⟩

/-- A copy is made with its terminator. -/
theorem copy_safe_iff {b : ℕ} {text : CStr} :
    ((⟨.block b, text, none⟩ : Store).Inside L ∧ (⟨.block b, text, none⟩ : Store).Whole) ↔
      text.length + 1 ≤ L.size b :=
  and_iff_left rfl

/-- The copy of a proxy URL does not fit into its block. -/
theorem proxy_safe_iff {L' : Ledger}
    (hsize : ∀ p, proxy = some p → allocs.tmp = true → L'.size L.fresh = p.length - 1) :
    (∀ w ∈ Client.setProxyStores parse allocs L proxy, w.Inside L' ∧ w.Whole) ↔
      proxy = none ∨ allocs.tmp = false := by
  cases proxy with
  | none => simp [Client.setProxyStores]
  | some p =>
    by_cases ht : allocs.tmp = true
    · have hfirst : ⟨.block L.fresh, p, none⟩ ∈ Client.setProxyStores parse allocs L (some p) := by
        simp [Client.setProxyStores, ht]
      refine iff_of_false ?_ (by simp [ht])
      intro h
      have hfit := copy_safe_iff.1 (h _ hfirst)
      rw [hsize p rfl ht] at hfit
      omega
    · simp [Client.setProxyStores, ht]

/-- **The stores are safe** exactly if no copy of the proxy URL is made and the port of the target,
if there is one, has at most six characters. -/
theorem stores_safe_iff (L : Ledger) (url : CStr) (proxy : Option CStr) :
    (∀ w ∈ Client.setTargetStores parse allocs L url proxy,
      w.Inside (Client.init.setTarget parse allocs L url proxy).ledger ∧ w.Whole) ↔
    (allocs.urlWork = true → ∀ u, parse url = some u → (-99999 ≤ u.port ∧ u.port ≤ 999999) ∧
      (u.method = ws ∨ u.method = wss → proxy = none ∨ allocs.tmp = false)) := by
  by_cases ha : allocs.urlWork = true
  · have hb : L.fresh < (L.alloc (url.length + 1)).fresh := by
      rw [Ledger.fresh_alloc]
      omega
    have hwork : (L.alloc (url.length + 1)).size L.fresh = url.length + 1 :=
      Ledger.size_alloc_fresh L _
    cases hu : parse url with
    | none =>
      simp [Client.setTargetStores, Client.setTarget, ha, hu, copy_safe_iff]
    | some u =>
      by_cases hm : u.method = ws ∨ u.method = wss
      · cases hr : (Client.init.parsed L url u).setProxy parse allocs (L.alloc (url.length + 1))
            proxy with
        | mk c' L' ret =>
          have hset : Client.setTargetStores parse allocs L url proxy =
              ⟨.block L.fresh, url, none⟩ :: ⟨.tcpPortS, decimal u.port, some tcpPortLen⟩ ::
                Client.setProxyStores parse allocs (L.alloc (url.length + 1)) proxy := by
            simp [Client.setTargetStores, ha, hu, hm]
          have hsize : ∀ b, (Client.init.setTarget parse allocs L url proxy).ledger.size b =
              L'.size b := by
            intro b
            rw [Client.setTarget_of_parsed ha hu hm hr]
            split_ifs <;> rfl
          have hurl : (Client.init.setTarget parse allocs L url proxy).ledger.size L.fresh =
              url.length + 1 := (hsize _).trans ((Client.size_of_setProxy hr hb).trans hwork)
          rw [hset, List.forall_mem_cons, List.forall_mem_cons, copy_safe_iff, tcpPortS_safe_iff,
            hurl]
          have hproxy : (∀ w ∈ Client.setProxyStores parse allocs (L.alloc (url.length + 1)) proxy,
              w.Inside (Client.init.setTarget parse allocs L url proxy).ledger ∧ w.Whole) ↔
              proxy = none ∨ allocs.tmp = false := by
            refine proxy_safe_iff ?_
            rintro p rfl ht
            exact (hsize _).trans (Client.size_fresh_of_setProxy ht hr)
          rw [hproxy]
          simp [ha, hm]
      · simp [Client.setTargetStores, Client.setTarget, ha, hu, hm, copy_safe_iff,
          tcpPortS_safe_iff]
  · simp [Client.setTargetStores, ha]

/-- Without a proxy all strings of a common URL fit. -/
theorem stores_safe_of_no_proxy :
    ∀ w ∈ Client.setTargetStores cutUri {} .empty "wss://h:8443/usbip".toList none,
      w.Inside (Client.init.setTarget cutUri {} .empty "wss://h:8443/usbip".toList none).ledger ∧
        w.Whole := by
  refine (stores_safe_iff _ _ _).2 ?_
  rintro - u ⟨⟩
  decide

/-- A block of 12 bytes is allocated for the copy of a proxy URL of 13 characters, and a port of
seven digits is cut off. -/
theorem not_stores_safe_of_proxy :
    (Client.setTargetStores cutUri {} .empty "ws://h/".toList (some "http://p:8080".toList))[2]?.map
      Store.bytes = some 14 ∧
    (Client.init.setTarget cutUri {} .empty "ws://h/".toList
      (some "http://p:8080".toList)).ledger.size 1 = 12 ∧
    (Client.init.setTarget cutUri {} .empty "ws://h:1234567/".toList none).client.tcpPortS =
      "123456".toList ∧
    ¬ ∀ parse allocs L url proxy, proxy ≠ [] →
      ∀ w ∈ Client.setTargetStores parse allocs L url (some proxy),
        w.Inside (Client.init.setTarget parse allocs L url (some proxy)).ledger ∧ w.Whole := by
  refine ⟨by decide, by decide, by decide, ?_⟩
  intro h
  have hcopy := h cutUri {} .empty "ws://h/".toList "http://p:8080".toList (by decide)
    ⟨.block 1, "http://p:8080".toList, none⟩ (by decide)
  exact absurd hcopy.1 (by decide)

end Usbws

import Usbws.Ctx.Interval
import Usbws.Data.Getopt

/-!
# The options of the commands

Each command of `usbws` has a `handle_options` of its own: a loop around `getopt_long`, a `switch`
and, behind the loop, a test for the options that are required.  The first option that the `switch`
does not take ends the loop.

* `handleLoop` : the loop, for any `switch`.
* `lastValue` : of several values of an option the last one counts.
* `OptionLoop` : a `handle_options`; `OptionLoop.Means` says which options its `switch` accepts and
  what they mean together.
* `OptionLoop.Means.handleLoop_eq_go_iff`, `OptionLoop.Means.handleLoop_eq_help_iff` : from that,
  when the loop comes to its end, with what, and when it is left for help.
* `ConnectKind`, `ListDevices`, `BindKind`, `Port`, `Detach` : the tables, the `switch` and the
  `handle_options` of `usbws_connect_kind.c`, `usbws_list.c`, `usbws_bind_kind.c`, `usbws_port.c`
  and `usbws_detach.c`, as they are built without `USBIP_WITH_LIBUSB`.
-/

namespace Usbws

open Getopt

/-- Where the `switch` of a `handle_options` leads, or what the function comes to. -/
inductive Handled (σ : Type*) where
  /-- The loop goes on, or is over. -/
  | go (s : σ)
  /-- `opt_help` is set and 0 returned. -/
  | help
  /-- `opt_version` is set and 0 returned. -/
  | version
  /-- -1 is returned. -/
  | error
  deriving DecidableEq, Repr

/-- The `switch` of a `handle_options`, with the options so far. -/
abbrev Switch (σ : Type*) := σ → Char → Option CStr → Handled σ

section Loop

variable {σ : Type*}

/-- The loop of a `handle_options`. -/
def handleLoop (switch : Switch σ) : σ → List Item → Handled σ
  | s, [] => .go s
  | s, i :: is =>
    match switch s i.val i.arg with
    | .go s' => handleLoop switch s' is
    | .help => .help
    | .version => .version
    | .error => .error

/-- The last occurrence of an option. -/
def lastOf (c : Char) (items : List Item) : Option Item :=
  (items.filter fun i => i.val = c).getLast?

/-- What the last occurrence of an option makes of a variable. -/
def lastValue {β : Type*} (c : Char) (value : Item → β) (dflt : β) (items : List Item) : β :=
  ((lastOf c items).map value).getD dflt

/-- The last argument of an option. -/
def lastArg (c : Char) (items : List Item) : Option CStr := lastValue c Item.arg none items

/-- An option is there. -/
def isGiven (c : Char) (items : List Item) : Bool := lastValue c (fun _ => true) false items

/-- The first option that is not accepted asks for help, or is none at all. -/
def HelpFirst (accepts : Item → Prop) : List Item → Prop
  | [] => False
  | i :: is => i.val = 'h' ∨ i.val = '?' ∨ accepts i ∧ HelpFirst accepts is

section Last

variable {β : Type*} (c : Char) (value : Item → β) (dflt : β) (items : List Item) (i : Item)

/-- **The last occurrence counts.** -/
theorem lastValue_concat : lastValue c value dflt (items ++ [i]) =
    if i.val = c then value i else lastValue c value dflt items := by
  unfold lastValue lastOf
  rw [List.filter_append]
  by_cases h : i.val = c
  · simp [h]
  · simp [h]

theorem lastArg_concat : lastArg c (items ++ [i]) = if i.val = c then i.arg else lastArg c items :=
  lastValue_concat c Item.arg none items i

theorem isGiven_concat : isGiven c (items ++ [i]) = if i.val = c then true else isGiven c items :=
  lastValue_concat c (fun _ => true) false items i

end Last

end Loop

/-! ### `handle_options` -/

/-- A `handle_options` with the variables `σ`, whose result is of use for a command as `α`. -/
structure OptionLoop (σ α : Type*) where
  /-- `optstring` and `longopts`. -/
  spec : Spec
  /-- The variables in the beginning. -/
  init : σ
  switch : Switch σ
  /-- The test for the options that are required. -/
  check : σ → Option α

namespace OptionLoop

variable {σ α : Type*}

/-- What `getopt_long` finds. -/
def items (O : OptionLoop σ α) (posixly : Bool) (argv : List CStr) : List Item :=
  O.spec.getoptLong posixly argv

/-- The function. -/
def handleOptions (O : OptionLoop σ α) (posixly : Bool) (argv : List CStr) : Handled α :=
  match handleLoop O.switch O.init (O.items posixly argv) with
  | .go s =>
    match O.check s with
    | some a => .go a
    | none => .error
  | .help => .help
  | .version => .version
  | .error => .error

/-- What a `switch` does with an option that it does not take; only the daemon has a case for its
version. -/
def refused (version : Bool) (opt : Char) : Handled σ :=
  if opt = 'h' ∨ opt = '?' then .help
  else if opt = 'v' ∧ version = true then .version
  else .error

/-- The `switch` by the options that it accepts and what they mean: with what some of them mean it
comes to what they mean together with one more, or refuses that. -/
structure Means (O : OptionLoop σ α) (accepts : Item → Prop) [DecidablePred accepts]
    (meaning : List Item → σ) (version : Bool) : Prop where
  init_eq : O.init = meaning []
  not_help : ∀ i, accepts i → i.val ∉ ['h', '?']
  switch_eq : ∀ items (i : Item), O.switch (meaning items) i.val i.arg =
    if accepts i then .go (meaning (items ++ [i])) else refused version i.val

variable {O : OptionLoop σ α} {accepts : Item → Prop} [DecidablePred accepts]
  {meaning : List Item → σ} {version : Bool} {a : α} {items : List Item} {s : σ}

/-- **When the loop comes to its end**, and with what: when each option is accepted. -/
theorem Means.handleLoop_eq_go_iff (h : O.Means accepts meaning version) (before : List Item) :
    handleLoop O.switch (meaning before) items = .go s ↔
      (∀ i ∈ items, accepts i) ∧ s = meaning (before ++ items) := by
  induction items generalizing before with
  | nil => simp [handleLoop, eq_comm]
  | cons i is ih =>
    rw [handleLoop, h.switch_eq, List.forall_mem_cons]
    by_cases ha : accepts i
    · simp [ha, ih]
    · simp only [ha, if_false, false_and, iff_false, refused]
      split_ifs <;> nofun

/-- **When the loop ends with the option for help.** -/
theorem Means.handleLoop_eq_help_iff (h : O.Means accepts meaning version) (before : List Item) :
    handleLoop O.switch (meaning before) items = .help ↔ HelpFirst accepts items := by
  induction items generalizing before with
  | nil => simp [handleLoop, HelpFirst]
  | cons i is ih =>
    rw [handleLoop, h.switch_eq, HelpFirst]
    by_cases ha : accepts i
    · have hnot := h.not_help i ha
      simp only [List.mem_cons, List.not_mem_nil, or_false, not_or] at hnot
      simp [ha, hnot, ih]
    · simp only [ha, if_false, false_and, or_false, refused]
      split_ifs <;> simp_all

/-- **When a command can be carried out**: when all of its options are accepted and none of those
required is missing. -/
theorem Means.handleOptions_eq_go_iff (h : O.Means accepts meaning version) (posixly : Bool)
    (argv : List CStr) :
    O.handleOptions posixly argv = .go a ↔
      (∀ i ∈ O.items posixly argv, accepts i) ∧
        O.check (meaning (O.items posixly argv)) = some a := by
  have hgo := fun s => @Means.handleLoop_eq_go_iff _ _ _ _ _ _ _ (O.items posixly argv) s h []
  rw [← h.init_eq, List.nil_append] at hgo
  rw [handleOptions]
  cases hl : handleLoop O.switch O.init (O.items posixly argv) with
  | go s =>
    obtain ⟨hall, rfl⟩ := (hgo s).1 hl
    have hforall : (∀ i ∈ O.items posixly argv, accepts i) ↔ True := iff_true_intro hall
    cases hc : O.check (meaning (O.items posixly argv)) <;> simp [hc, hforall]
  | help | version | error =>
    have hnot : ¬ ∀ i ∈ O.items posixly argv, accepts i := fun hall => by
      rw [(hgo _).2 ⟨hall, rfl⟩] at hl
      cases hl
    simp [hnot]

/-- When the help of a command is printed. -/
theorem Means.handleOptions_eq_help_iff (h : O.Means accepts meaning version) (posixly : Bool)
    (argv : List CStr) :
    O.handleOptions posixly argv = .help ↔ HelpFirst accepts (O.items posixly argv) := by
  rw [← h.handleLoop_eq_help_iff [], ← h.init_eq, handleOptions]
  cases handleLoop O.switch O.init (O.items posixly argv) with
  | go s => cases hc : O.check s <;> simp [hc]
  | help | version | error => simp

end OptionLoop

/-- The long options of a table, each with the short option of the same meaning. -/
def longOptions (table : List (String × HasArg × Char)) : List LongOption :=
  table.map fun x => ⟨x.1.toList, x.2.1, x.2.2⟩

/-! ### TLS -/

/-- `USBWS_VERIFY_NONE` and `USBWS_VERIFY_RELAXED`. -/
inductive Verification where
  | none
  | relaxed
  deriving DecidableEq, Repr

/-- `usbws_client_handle_verification`; `none` is the result -1. -/
def usbwsClientHandleVerification (arg : CStr) : Option Verification :=
  if arg = "none".toList then some .none
  else if arg = "relaxed".toList then some .relaxed
  else none

/-- `usbws_default_key`. -/
def usbwsDefaultKey : CStr := "cert/server.key".toList

/-- `usbws_default_cert`. -/
def usbwsDefaultCert : CStr := "cert/server.crt".toList

/-- The options that concern TLS. -/
structure TlsOpts where
  key : Option CStr := some usbwsDefaultKey
  cert : Option CStr := some usbwsDefaultCert
  verification : Verification := .none
  deriving DecidableEq, Repr

/-- What the options that concern TLS mean. -/
def tlsMeaning (items : List Item) : TlsOpts where
  key := lastValue 'k' Item.arg (some usbwsDefaultKey) items
  cert := lastValue 'c' Item.arg (some usbwsDefaultCert) items
  verification := lastValue 'V'
    (fun i => (usbwsClientHandleVerification (i.arg.getD [])).getD .none) .none items

/-- What `usbws_set_info` tells libwebsockets about a context; `none` is the NULL pointer. -/
structure Info where
  port : ℤ
  sslPrivateKeyFilepath : Option CStr
  sslCertFilepath : Option CStr
  deriving DecidableEq, Repr

/-- `usbws_set_info`. -/
def usbwsSetInfo (port : ℤ) (ssl : Bool) (key cert : Option CStr) : Info :=
  if ssl then ⟨port, key, cert⟩ else ⟨port, none, none⟩

/-! ### `usbws_connect_kind.c` -/

namespace ConnectKind

/-- The static variables `opt_*`, and the fields of `opt_client` that are set by options. -/
structure Opts where
  debug : Bool := false
  url : Option CStr := none
  proxy : Option CStr := none
  busid : Option CStr := none
  pingPong : ℤ := pingPongDefault
  tls : TlsOpts := {}
  deriving DecidableEq, Repr

/-- `optstring` and `longopts`. -/
def spec : Spec where
  short := shortOptions "du:x:i:b:k:c:V:h".toList
  long := longOptions [("debug", .no, 'd'), ("url", .required, 'u'), ("proxy", .required, 'x'),
    ("bus-id", .required, 'b'), ("interval", .required, 'i'), ("key", .required, 'k'),
    ("cert", .required, 'c'), ("verification", .required, 'V'), ("help", .no, 'h')]

/-- The `switch`; `optarg` is not NULL where an argument is required. -/
def switch (o : Opts) (opt : Char) (optarg : Option CStr) : Handled Opts :=
  match opt with
  | 'd' => .go { o with debug := true }
  | 'u' => .go { o with url := optarg }
  | 'x' => .go { o with proxy := optarg }
  | 'b' => .go { o with busid := optarg }
  | 'i' => .go { o with pingPong := setPingPong (strtol (optarg.getD [])) }
  | 'k' => .go { o with tls := { o.tls with key := optarg } }
  | 'c' => .go { o with tls := { o.tls with cert := optarg } }
  | 'V' =>
    match usbwsClientHandleVerification (optarg.getD []) with
    | some v => .go { o with tls := { o.tls with verification := v } }
    | none => .error
  | 'h' | '?' => .help
  | _ => .error

/-- The options of a command that can be carried out. -/
structure Args where
  debug : Bool
  url : CStr
  proxy : Option CStr
  busid : CStr
  pingPong : ℤ
  tls : TlsOpts
  deriving DecidableEq, Repr

/-- The options with the URL and the bus id that are required. -/
def Opts.args (o : Opts) (url busid : CStr) : Args :=
  ⟨o.debug, url, o.proxy, busid, o.pingPong, o.tls⟩

/-- `handle_options`. -/
def options : OptionLoop Opts Args where
  spec := spec
  init := {}
  switch := switch
  check o := o.url.bind fun url => o.busid.map fun busid => o.args url busid

theorem check_eq_some_iff {o : Opts} {a : Args} : options.check o = some a ↔
    ∃ url busid, o.url = some url ∧ o.busid = some busid ∧ o.args url busid = a := by
  simp [options, Option.bind_eq_some_iff]

/-- The options the `switch` takes. -/
def Accepts (i : Item) : Prop :=
  i.val ∈ ['d', 'u', 'x', 'b', 'i', 'k', 'c'] ∨
    i.val = 'V' ∧ (usbwsClientHandleVerification (i.arg.getD [])).isSome = true

instance : DecidablePred Accepts := fun _ => inferInstanceAs (Decidable (_ ∨ _))

/-- What the options of a command line mean. -/
def meaning (items : List Item) : Opts where
  debug := isGiven 'd' items
  url := lastArg 'u' items
  proxy := lastArg 'x' items
  busid := lastArg 'b' items
  pingPong := lastValue 'i' (fun i => setPingPong (strtol (i.arg.getD []))) pingPongDefault items
  tls := tlsMeaning items

theorem options_means : options.Means Accepts meaning false where
  init_eq := rfl
  not_help i := by
    simp only [Accepts]
    grind
  switch_eq items i := by
    simp only [options, switch, Accepts, meaning, tlsMeaning, isGiven_concat, lastArg_concat,
      lastValue_concat]
    split
    case h_8 hV =>
      cases usbwsClientHandleVerification (i.arg.getD []) <;> simp [hV, OptionLoop.refused]
    all_goals simp_all [OptionLoop.refused]

end ConnectKind

/-! ### `usbws_list.c` -/

namespace ListDevices

/-- The static variables `opt_*`, and the fields of `opt_client` that are set by options. -/
structure Opts where
  debug : Bool := false
  isLocal : Bool := false
  url : Option CStr := none
  proxy : Option CStr := none
  parsable : Bool := false
  tls : TlsOpts := {}
  deriving DecidableEq, Repr

/-- `optstring` and `longopts`. -/
def spec : Spec where
  short := shortOptions "du:x:k:c:V:lph".toList
  long := longOptions [("debug", .no, 'd'), ("local", .no, 'l'), ("url", .required, 'u'),
    ("proxy", .required, 'x'), ("bus-id", .required, 'b'), ("key", .required, 'k'),
    ("cert", .required, 'c'), ("verification", .required, 'V'), ("parsable", .no, 'p'),
    ("help", .no, 'h')]

/-- The `switch`, which has no case for `bus-id`. -/
def switch (o : Opts) (opt : Char) (optarg : Option CStr) : Handled Opts :=
  match opt with
  | 'd' => .go { o with debug := true }
  | 'l' => .go { o with isLocal := true }
  | 'u' => .go { o with url := optarg }
  | 'x' => .go { o with proxy := optarg }
  | 'k' => .go { o with tls := { o.tls with key := optarg } }
  | 'c' => .go { o with tls := { o.tls with cert := optarg } }
  | 'V' =>
    match usbwsClientHandleVerification (optarg.getD []) with
    | some v => .go { o with tls := { o.tls with verification := v } }
    | none => .error
  | 'p' => .go { o with parsable := true }
  | 'h' | '?' => .help
  | _ => .error

/-- `handle_options`. -/
def options : OptionLoop Opts Opts where
  spec := spec
  init := {}
  switch := switch
  check o := if !o.isLocal && o.url.isNone then none else some o

theorem check_eq_some_iff {o a : Opts} :
    options.check o = some a ↔ (o.isLocal = true ∨ o.url.isSome = true) ∧ o = a := by
  cases hl : o.isLocal <;> cases hu : o.url <;> simp [options, hl, hu]

/-- The options the `switch` takes. -/
def Accepts (i : Item) : Prop :=
  i.val ∈ ['d', 'l', 'u', 'x', 'k', 'c', 'p'] ∨
    i.val = 'V' ∧ (usbwsClientHandleVerification (i.arg.getD [])).isSome = true

instance : DecidablePred Accepts := fun _ => inferInstanceAs (Decidable (_ ∨ _))

/-- What the options of a command line mean. -/
def meaning (items : List Item) : Opts where
  debug := isGiven 'd' items
  isLocal := isGiven 'l' items
  url := lastArg 'u' items
  proxy := lastArg 'x' items
  parsable := isGiven 'p' items
  tls := tlsMeaning items

theorem options_means : options.Means Accepts meaning false where
  init_eq := rfl
  not_help i := by
    simp only [Accepts]
    grind
  switch_eq items i := by
    simp only [options, switch, Accepts, meaning, tlsMeaning, isGiven_concat, lastArg_concat,
      lastValue_concat]
    split
    case h_7 hV =>
      cases usbwsClientHandleVerification (i.arg.getD []) <;> simp [hV, OptionLoop.refused]
    all_goals simp_all [OptionLoop.refused]

end ListDevices

/-! ### The commands with one option -/

/-- The static variables `opt_*` of a command with one option of its own. -/
structure ValueOpts where
  debug : Bool := false
  value : Option CStr := none
  deriving DecidableEq, Repr

/-- The `switch` of a command whose own option is `own`. -/
def valueSwitch (own : Char) (o : ValueOpts) (opt : Char) (optarg : Option CStr) :
    Handled ValueOpts :=
  if opt = own then .go { o with value := optarg }
  else
    match opt with
    | 'd' => .go { o with debug := true }
    | 'h' | '?' => .help
    | _ => .error

/-- The `handle_options` of a command whose own option is `own`. -/
def valueOptions (spec : Spec) (own : Char) : OptionLoop ValueOpts CStr where
  spec := spec
  init := {}
  switch := valueSwitch own
  check := ValueOpts.value

/-- The options the `switch` of such a command takes. -/
def ValueAccepts (own : Char) (i : Item) : Prop := i.val = own ∨ i.val = 'd'

/-- What the options of a command line mean for such a command. -/
def valueMeaning (own : Char) (items : List Item) : ValueOpts where
  debug := isGiven 'd' items
  value := lastArg own items

instance (own : Char) : DecidablePred (ValueAccepts own) :=
  fun _ => inferInstanceAs (Decidable (_ ∨ _))

theorem valueOptions_means (spec : Spec) {own : Char} (hown : own ∉ ['d', 'h', '?']) :
    (valueOptions spec own).Means (ValueAccepts own) (valueMeaning own) false where
  init_eq := rfl
  not_help i h hi := by
    simp only [ValueAccepts] at h
    grind
  switch_eq items i := by
    simp only [valueOptions, valueSwitch, ValueAccepts, valueMeaning, isGiven_concat,
      lastArg_concat]
    by_cases hi : i.val = own
    · have hd : i.val ≠ 'd' := fun h => hown (by simp [← hi, h])
      simp [hi, hi ▸ hd]
    · simp only [hi, if_false]
      split <;> simp_all [OptionLoop.refused]

namespace BindKind

/-- `optstring` and `longopts`. -/
def spec : Spec where
  short := shortOptions "db:h".toList
  long := longOptions [("debug", .no, 'd'), ("bus-id", .required, 'b'), ("help", .no, 'h')]

/-- `handle_options`. -/
def options : OptionLoop ValueOpts CStr := valueOptions spec 'b'

end BindKind

namespace Detach

/-- `optstring` and `longopts`. -/
def spec : Spec where
  short := shortOptions "dp:h".toList
  long := longOptions [("debug", .no, 'd'), ("port", .required, 'p'), ("help", .no, 'h')]

/-- `handle_options`. -/
def options : OptionLoop ValueOpts CStr := valueOptions spec 'p'

end Detach

/-! ### `usbws_port.c` -/

namespace Port

/-- `optstring` and `longopts`. -/
def spec : Spec where
  short := shortOptions "dh".toList
  long := longOptions [("debug", .no, 'd'), ("help", .no, 'h')]

/-- The `switch`, with the variable `opt_debug`. -/
def switch (_ : Bool) (opt : Char) (_ : Option CStr) : Handled Bool :=
  match opt with
  | 'd' => .go true
  | 'h' | '?' => .help
  | _ => .error

/-- `handle_options`. -/
def options : OptionLoop Bool Bool where
  spec := spec
  init := false
  switch := switch
  check := some

/-- The options the `switch` takes. -/
def Accepts (i : Item) : Prop := i.val = 'd'

instance : DecidablePred Accepts := fun i => inferInstanceAs (Decidable (i.val = 'd'))

theorem options_means : options.Means Accepts (isGiven 'd') false where
  init_eq := rfl
  not_help i h := by
    simp only [Accepts] at h
    simp [h]
  switch_eq items i := by
    simp only [options, switch, Accepts, isGiven_concat]
    split <;> simp_all [OptionLoop.refused]

end Port

end Usbws

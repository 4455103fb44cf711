import Usbws.Cli.Options

/-!
# The options of the daemon

`usbws_handle_options` of `usbwsd`, as it is built without `USBIP_WITH_LIBUSB`.  The option string
still has the option `f`, for which there is no case in the `switch`, and the path that is given by
an option is not used.

* `Usbwsd.options` : the function, and `Usbwsd.meaning` what the options mean.
* `Usbwsd.options_means` : of several values of an option the last one counts.
-/

namespace Usbws

open Getopt

namespace Usbwsd

/-- The static variables `opt_*`, and the interval in `service_ctx`. -/
structure Opts where
  daemonize : Bool := false
  debug : Bool := false
  tcpPort : ℤ := 0
  path : Option CStr := some "usbip".toList
  ssl : Bool := false
  pidFile : Option CStr := none
  keyFile : Option CStr := some usbwsDefaultKey
  certFile : Option CStr := some usbwsDefaultCert
  pingPong : ℤ := pingPongDefault
  deriving DecidableEq, Repr

/-- The options of `getopt_long`. -/
def spec : Spec where
  short := shortOptions "Ddf:P::t:p:i:sk:c:hv".toList
  long := longOptions [("daemon", .no, 'D'), ("debug", .no, 'd'), ("pid", .optional, 'P'),
    ("tcp-port", .required, 't'), ("path", .required, 'p'), ("interval", .required, 'i'),
    ("ssl", .no, 's'), ("key", .required, 'k'), ("cert", .required, 'c'), ("help", .no, 'h'),
    ("version", .no, 'v')]

/-- The file for an option `P`; `dflt` is `USBWS_DEFAULT_PID_FILE`. -/
def pidFileOf (dflt optarg : Option CStr) : Option CStr := optarg.or dflt

/-- The `switch`, which has no case for `f`. -/
def switch (dflt : Option CStr) (o : Opts) (opt : Char) (optarg : Option CStr) : Handled Opts :=
  match opt with
  | 'D' => .go { o with daemonize := true }
  | 'd' => .go { o with debug := true }
  | 'P' => .go { o with pidFile := pidFileOf dflt optarg }
  | 't' => .go { o with tcpPort := intOf (strtol (optarg.getD [])) }
  | 'p' => .go { o with path := optarg }
  | 'i' => .go { o with pingPong := setPingPong (strtol (optarg.getD [])) }
  | 's' => .go { o with ssl := true }
  | 'k' => .go { o with keyFile := optarg }
  | 'c' => .go { o with certFile := optarg }
  | 'v' => .version
  | 'h' | '?' => .help
  | _ => .error

/-- `usbws_handle_options`. -/
def options (dflt : Option CStr) : OptionLoop Opts Opts where
  spec := spec
  init := {}
  switch := switch dflt
  check := some

/-- The options the `switch` takes. -/
def Accepts (i : Item) : Prop := i.val ∈ ['D', 'd', 'P', 't', 'p', 'i', 's', 'k', 'c']

instance : DecidablePred Accepts := fun i => inferInstanceAs (Decidable (i.val ∈ _))

/-- What the options of a command line mean. -/
def meaning (dflt : Option CStr) (items : List Item) : Opts where
  daemonize := isGiven 'D' items
  debug := isGiven 'd' items
  tcpPort := lastValue 't' (fun i => intOf (strtol (i.arg.getD []))) 0 items
  path := lastValue 'p' Item.arg (some "usbip".toList) items
  ssl := isGiven 's' items
  pidFile := lastValue 'P' (fun i => pidFileOf dflt i.arg) none items
  keyFile := lastValue 'k' Item.arg (some usbwsDefaultKey) items
  certFile := lastValue 'c' Item.arg (some usbwsDefaultCert) items
  pingPong := lastValue 'i' (fun i => setPingPong (strtol (i.arg.getD []))) pingPongDefault items

variable {dflt : Option CStr}

theorem options_means : (options dflt).Means Accepts (meaning dflt) true where
  init_eq := rfl
  not_help i := by
    simp only [Accepts]
    grind
  switch_eq items i := by
    simp only [options, switch, Accepts, meaning, isGiven_concat, lastValue_concat]
    split <;> simp_all [OptionLoop.refused]

end Usbwsd

end Usbws

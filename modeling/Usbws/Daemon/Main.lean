import Mathlib.Logic.Function.Basic
import Usbws.Daemon.Options
import Usbws.Data.Path

/-!
# The daemon from its start to its end

`main` of `usbwsd` writes the number of its process into a file, opens the driver, detaches itself
from its terminal, serves, and takes everything back in the opposite order.  In between `daemon` has
created another process for the rest, and has led it to the root directory.

* `Usbwsd.World`, `Usbwsd.Host` : the files, the process and the calls, and what the system answers.
* `usbwsdMain` : the program; `Usbwsd.prepare` is the part in front of the service.
* `Usbwsd.Prepared` : the ways through that part.
* `Usbwsd.main_serves_iff` : when the daemon serves, with which settings, and what becomes of the
  driver.

A file is known by the way to it from the root directory; links are not followed.
-/

namespace Usbws

open Getopt

/-- `usbws_get_port`. -/
def usbwsGetPort (port : ℤ) (ssl : Bool) : ℤ :=
  if port ≠ 0 then port else if ssl then 443 else 80

namespace Usbwsd

/-! ### The program -/

/-- A call of the driver, or of the service. -/
inductive Call where
  /-- `usbipd_driver_open`, successful or not. -/
  | driverOpen (ok : Bool)
  /-- `usbws_service`, with what it tells libwebsockets and the interval. -/
  | service (info : Info) (pingPong : ℤ)
  /-- `usbipd_driver_close`. -/
  | driverClose
  deriving DecidableEq, Repr

/-- The move of a part of a name. -/
def moveOf : CStr → Path.Move CStr
  | [] | ['.'] => .stay
  | ['.', '.'] => .up
  | part => .down part

/-- The moves of a name. -/
def movesOf (name : CStr) : List (Path.Move CStr) := (name.splitOn '/').map moveOf

/-- The way that a name means in a directory. -/
def resolve (dir : Path CStr) (name : CStr) : Path CStr :=
  Path.walk (if name.head? = some '/' then [] else dir) (movesOf name)

/-- The files and the process. -/
structure World where
  /-- The files by the ways to them. -/
  files : Path CStr → Option CStr
  /-- The working directory. -/
  cwd : Path CStr
  /-- The number of the process. -/
  pid : ℕ
  /-- What has been called, newest first. -/
  calls : List Call

/-- What a call of `daemon(0, 0)` comes to. -/
structure Detached where
  /-- It returns 0. -/
  ok : Bool
  /-- The number of the process it returns in, by that of the process that calls it. -/
  pid : ℕ → ℕ
  /-- The working directory is the root directory. -/
  inRoot : Bool
  pid_ne_of_ok : ok = true → ∀ n, pid n ≠ n
  inRoot_of_ok : ok = true → inRoot = true

/-- The surroundings of the program. -/
structure Host where
  /-- `POSIXLY_CORRECT` is set. -/
  posixly : Bool
  /-- `USBWS_DEFAULT_PID_FILE`. -/
  defaultPidFile : Option CStr
  /-- The files for which `fopen` succeeds. -/
  canOpen : Path CStr → Bool
  /-- The files for which `fprintf` succeeds. -/
  canPrint : Path CStr → Bool
  /-- The files for which `fclose` comes to write what has been printed. -/
  canFlush : Path CStr → Bool
  /-- The files for which `unlink` succeeds. -/
  canUnlink : Path CStr → Bool
  /-- `usbipd_driver_open` returns 0. -/
  driverOpen : Bool
  daemon : Detached

namespace World

/-- The way that a name means in the working directory. -/
def resolve (w : World) (name : CStr) : Path CStr := Usbwsd.resolve w.cwd name

/-- Make a call. -/
def call (w : World) (c : Call) : World := { w with calls := c :: w.calls }

/-- Write or remove a file. -/
def setFile (w : World) (path : Path CStr) (content : Option CStr) : World :=
  { w with files := Function.update w.files path content }

/-- `daemon(0, 0)`. -/
def detach (w : World) (d : Detached) : World :=
  { w with pid := d.pid w.pid, cwd := if d.inRoot then [] else w.cwd }

end World

/-- What is printed into the file. -/
def pidText (pid : ℕ) : CStr := decimal pid ++ ['\n']

/-- `usbws_create_pid_file`, and whether it returns 0. -/
def createPidFile (H : Host) (w : World) (name : CStr) : World × Bool :=
  let path := w.resolve name
  if !H.canOpen path then (w, false)
  else
    let w := w.setFile path (some [])
    if !H.canPrint path then (w, false)
    else (if H.canFlush path then w.setFile path (some (pidText w.pid)) else w, true)

/-- `usbws_remove_pid_file`, if there is an option for the file. -/
def removePidFile (H : Host) (w : World) : Option CStr → World
  | some name => if H.canUnlink (w.resolve name) then w.setFile (w.resolve name) none else w
  | none => w

/-- `main` in front of `usbws_service`, and whether it goes on from there. -/
def prepare (H : Host) (w : World) (o : Opts) : World × Bool :=
  let r := match o.pidFile with
    | some name => createPidFile H w name
    | none => (w, true)
  if !r.2 then (r.1, false)
  else
    let w := r.1.call (.driverOpen H.driverOpen)
    if !H.driverOpen then (removePidFile H w o.pidFile, false)
    else if o.daemonize then
      let w := w.detach H.daemon
      if H.daemon.ok then (w, true) else (removePidFile H (w.call .driverClose) o.pidFile, false)
    else (w, true)

/-- The call of `usbws_service`. -/
def Opts.service (o : Opts) : Call :=
  .service (usbwsSetInfo (usbwsGetPort o.tcpPort o.ssl) o.ssl o.keyFile o.certFile) o.pingPong

/-- The end of a run of the program. -/
structure Result where
  /-- What the program leaves behind. -/
  world : World
  /-- What it found when it called `usbws_service`. -/
  served : Option World
  ret : ℤ

/-- `main` with its options. -/
def run (H : Host) (w : World) (o : Opts) : Result :=
  let r := prepare H w o
  if r.2 then
    ⟨removePidFile H ((r.1.call o.service).call .driverClose) o.pidFile, some r.1, 0⟩
  else ⟨r.1, none, -1⟩

end Usbwsd

/-- `main` of `usbwsd.c`. -/
def usbwsdMain (H : Usbwsd.Host) (w : Usbwsd.World) (argv : List CStr) : Usbwsd.Result :=
  match (Usbwsd.options H.defaultPidFile).handleOptions H.posixly argv with
  | .go o => Usbwsd.run H w o
  | _ => ⟨w, none, 0⟩

namespace Usbwsd

variable {H : Host} {w v : World} {o : Opts} {argv : List CStr} {name : CStr}

/-- The content of the file behind a successful `usbws_create_pid_file`. -/
def recorded (H : Host) (w : World) (path : Path CStr) : CStr :=
  if H.canFlush path then pidText w.pid else []

theorem createPidFile_of_canPrint (ho : H.canOpen (w.resolve name) = true)
    (hp : H.canPrint (w.resolve name) = true) : createPidFile H w name =
      (w.setFile (w.resolve name) (some (recorded H w (w.resolve name))), true) := by
  unfold createPidFile recorded
  by_cases hf : H.canFlush (w.resolve name) = true
  · simp [ho, hp, hf, World.setFile]
  · simp [ho, hp, hf]

/-! ### The ways to the service -/

/-- The file has been written, if there is an option for it. -/
inductive Noted (H : Host) (w : World) (o : Opts) : World → Prop
  | without : o.pidFile = none → Noted H w o w
  | written {name : CStr} : o.pidFile = some name → H.canOpen (w.resolve name) = true →
      H.canPrint (w.resolve name) = true →
      Noted H w o (w.setFile (w.resolve name) (some (recorded H w (w.resolve name))))

/-- The ways through the part in front of the service. -/
inductive Prepared (H : Host) (w : World) (o : Opts) : World × Bool → Prop
  | noOpen {name : CStr} : o.pidFile = some name → H.canOpen (w.resolve name) = false →
      Prepared H w o (w, false)
  | noPrint {name : CStr} : o.pidFile = some name → H.canOpen (w.resolve name) = true →
      H.canPrint (w.resolve name) = false →
      Prepared H w o (w.setFile (w.resolve name) (some []), false)
  | noDriver {v : World} : Noted H w o v → H.driverOpen = false →
      Prepared H w o (removePidFile H (v.call (.driverOpen false)) o.pidFile, false)
  | noDaemon {v : World} : Noted H w o v → H.driverOpen = true → o.daemonize = true →
      H.daemon.ok = false →
      Prepared H w o (removePidFile H (((v.call (.driverOpen true)).detach H.daemon).call
        .driverClose) o.pidFile, false)
  | daemon {v : World} : Noted H w o v → H.driverOpen = true → o.daemonize = true →
      H.daemon.ok = true → Prepared H w o ((v.call (.driverOpen true)).detach H.daemon, true)
  | stays {v : World} : Noted H w o v → H.driverOpen = true → o.daemonize = false →
      Prepared H w o (v.call (.driverOpen true), true)

/-- The part behind the file. -/
theorem prepared_of_noted {v : World} (h : Noted H w o v) {r : World × Bool}
    (hr : (if !H.driverOpen then
        (removePidFile H (v.call (.driverOpen H.driverOpen)) o.pidFile, false)
      else if o.daemonize then
        if H.daemon.ok then ((v.call (.driverOpen H.driverOpen)).detach H.daemon, true)
        else (removePidFile H (((v.call (.driverOpen H.driverOpen)).detach H.daemon).call
          .driverClose) o.pidFile, false)
      else (v.call (.driverOpen H.driverOpen), true)) = r) : Prepared H w o r := by
  subst hr
  cases hd : H.driverOpen with
  | false => exact .noDriver h hd
  | true =>
    cases hz : o.daemonize with
    | false => exact .stays h hd hz
    | true =>
      cases hk : H.daemon.ok with
      | false => exact .noDaemon h hd hz hk
      | true => exact .daemon h hd hz hk

theorem prepared (H : Host) (w : World) (o : Opts) : Prepared H w o (prepare H w o) := by
  unfold prepare
  cases hn : o.pidFile with
  | none =>
    refine prepared_of_noted (.without hn) ?_
    rw [hn]
    rfl
  | some name =>
    by_cases ho : H.canOpen (w.resolve name) = true
    · by_cases hp : H.canPrint (w.resolve name) = true
      · dsimp only
        rw [createPidFile_of_canPrint ho hp]
        refine prepared_of_noted (.written hn ho hp) ?_
        rw [hn]
        rfl
      · rw [Bool.not_eq_true] at hp
        simpa [createPidFile, ho, hp] using Prepared.noPrint hn ho hp
    · rw [Bool.not_eq_true] at ho
      simpa [createPidFile, ho] using Prepared.noOpen hn ho

/-! ### The service -/

/-- Nothing keeps the program from its service. -/
structure Ready (H : Host) (w : World) (o : Opts) : Prop where
  pidFile : ∀ name ∈ o.pidFile,
    H.canOpen (w.resolve name) = true ∧ H.canPrint (w.resolve name) = true
  driver : H.driverOpen = true
  daemon : o.daemonize = true → H.daemon.ok = true

theorem Noted.ready {v : World} (h : Noted H w o v) : ∀ name ∈ o.pidFile,
    H.canOpen (w.resolve name) = true ∧ H.canPrint (w.resolve name) = true := by
  cases h with
  | without hn => simp [hn]
  | written hn ho hp =>
    rw [hn]
    rintro name ⟨⟩
    exact ⟨ho, hp⟩

theorem Noted.calls {v : World} (h : Noted H w o v) : v.calls = w.calls := by
  cases h <;> rfl

theorem calls_removePidFile (H : Host) (w : World) (name : Option CStr) :
    (removePidFile H w name).calls = w.calls := by
  unfold removePidFile
  cases name with
  | none => rfl
  | some name =>
    dsimp only
    split_ifs <;> rfl

/-- What has been called in front of the service. -/
theorem calls_of_prepared {r : World × Bool} (h : Prepared H w o r) :
    (r.2 = true ↔ Ready H w o) ∧
      (r.2 = true → r.1.calls = .driverOpen true :: w.calls) ∧
      (r.2 = false → r.1.calls = w.calls ∨ r.1.calls = .driverOpen false :: w.calls ∨
        r.1.calls = .driverClose :: .driverOpen true :: w.calls) := by
  cases h with
  | noOpen hn ho =>
    refine ⟨iff_of_false nofun fun hr => ?_, nofun, fun _ => .inl rfl⟩
    have hopen := (hr.pidFile _ hn).1
    rw [ho] at hopen
    cases hopen
  | noPrint hn _ hp =>
    refine ⟨iff_of_false nofun fun hr => ?_, nofun, fun _ => .inl rfl⟩
    have hprint := (hr.pidFile _ hn).2
    rw [hp] at hprint
    cases hprint
  | noDriver hv hd =>
    refine ⟨iff_of_false nofun fun hr => ?_, nofun, fun _ => .inr (.inl ?_)⟩
    · have hdriver := hr.driver
      rw [hd] at hdriver
      cases hdriver
    · rw [calls_removePidFile, World.call, hv.calls]
  | noDaemon hv _ hz hk =>
    refine ⟨iff_of_false nofun fun hr => ?_, nofun, fun _ => .inr (.inr ?_)⟩
    · have hdaemon := hr.daemon hz
      rw [hk] at hdaemon
      cases hdaemon
    · rw [calls_removePidFile, World.call, World.detach, World.call, hv.calls]
  | daemon hv hd hz hk =>
    refine ⟨iff_of_true rfl ⟨hv.ready, hd, fun _ => hk⟩, fun _ => ?_, nofun⟩
    rw [World.detach, World.call, hv.calls]
  | stays hv hd hz =>
    refine ⟨iff_of_true rfl ⟨hv.ready, hd, fun h => ?_⟩, fun _ => ?_, nofun⟩
    · rw [hz] at h
      cases h
    · rw [World.call, hv.calls]

theorem run_of_prepare (h : (prepare H w o).2 = true) : run H w o =
    ⟨removePidFile H (((prepare H w o).1.call o.service).call .driverClose) o.pidFile,
      some (prepare H w o).1, 0⟩ := if_pos h

theorem run_of_not_prepare (h : (prepare H w o).2 = false) :
    run H w o = ⟨(prepare H w o).1, none, -1⟩ := if_neg (by simp [h])

/-- The options of a command line. -/
def itemsOf (H : Host) (argv : List CStr) : List Item := spec.getoptLong H.posixly argv

/-- The settings of a command line. -/
def optsOf (H : Host) (argv : List CStr) : Opts := meaning H.defaultPidFile (itemsOf H argv)

theorem main_of_accepts (ha : ∀ i ∈ itemsOf H argv, Accepts i) :
    usbwsdMain H w argv = run H w (optsOf H argv) := by
  have hgo : (options H.defaultPidFile).handleOptions H.posixly argv = .go (optsOf H argv) :=
    (options_means.handleOptions_eq_go_iff H.posixly argv).2 ⟨ha, rfl⟩
  rw [usbwsdMain, hgo]

theorem main_of_not_accepts (ha : ¬ ∀ i ∈ itemsOf H argv, Accepts i) :
    usbwsdMain H w argv = ⟨w, none, 0⟩ := by
  unfold usbwsdMain
  cases hgo : (options H.defaultPidFile).handleOptions H.posixly argv with
  | go o => exact absurd ((options_means.handleOptions_eq_go_iff H.posixly argv).1 hgo).1 ha
  | help | version | error => rfl

/-- **When the daemon serves**, with which settings, and what becomes of the driver: for every
command line, the service comes exactly if all options are accepted and nothing fails, between the
opening of the driver and its closing; and a driver that has been opened is always closed.  The
value returned is also 0 for an option that is not accepted. -/
theorem main_serves_iff (H : Host) (w : World) (argv : List CStr) :
    ((usbwsdMain H w argv).served ≠ none ↔
      (∀ i ∈ itemsOf H argv, Accepts i) ∧ Ready H w (optsOf H argv)) ∧
    ((usbwsdMain H w argv).ret = 0 ↔
      ((∀ i ∈ itemsOf H argv, Accepts i) → Ready H w (optsOf H argv))) ∧
    ((usbwsdMain H w argv).served ≠ none → (usbwsdMain H w argv).world.calls =
      [.driverClose, (optsOf H argv).service, .driverOpen true] ++ w.calls) ∧
    ((usbwsdMain H w argv).served = none → (usbwsdMain H w argv).world.calls = w.calls ∨
      (usbwsdMain H w argv).world.calls = .driverOpen false :: w.calls ∨
      (usbwsdMain H w argv).world.calls = .driverClose :: .driverOpen true :: w.calls) := by
  by_cases ha : ∀ i ∈ itemsOf H argv, Accepts i
  · rw [main_of_accepts ha]
    obtain ⟨hiff, hserves, hfails⟩ := calls_of_prepared (prepared H w (optsOf H argv))
    cases hr : (prepare H w (optsOf H argv)).2 with
    | true =>
      have hready := hiff.1 hr
      rw [run_of_prepare hr]
      refine ⟨iff_of_true nofun ⟨ha, hready⟩, iff_of_true rfl fun _ => hready, fun _ => ?_, nofun⟩
      rw [calls_removePidFile, World.call, World.call, hserves hr]
      rfl
    | false =>
      have hnot : ¬ Ready H w (optsOf H argv) := fun h => by
        rw [hiff.2 h] at hr
        cases hr
      rw [run_of_not_prepare hr]
      exact ⟨iff_of_false (fun h => h rfl) fun h => hnot h.2,
        iff_of_false nofun fun h => hnot (h ha), fun h => absurd rfl h, fun _ => hfails hr⟩
  · rw [main_of_not_accepts ha]
    simp [ha]

end Usbwsd

end Usbws

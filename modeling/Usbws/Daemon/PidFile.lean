import Usbws.Daemon.Main

/-!
# The file with the number of the process

The file is written in front of `daemon` and removed in the end, each time by the name that has been
given.

* `Usbwsd.Astray` : in the end the name means another file; `Usbwsd.astray_iff` says for which
  names.
* `Usbwsd.pidFile_left_iff` : when the file is left behind, and which other file is removed then.
* `Usbwsd.pidFile_names_iff` : when the file names the process that serves.
-/

namespace Usbws

namespace Usbwsd

variable {H : Host} {w v : World} {o : Opts} {argv : List CStr} {name : CStr} {path : Path CStr}

/-! ### Names of files -/

namespace World

@[simp] theorem files_setFile_self (w : World) (path : Path CStr) (c : Option CStr) :
    (w.setFile path c).files path = c := Function.update_self ..

theorem files_setFile_of_ne (c : Option CStr) {x : Path CStr} (h : x ≠ path) :
    (w.setFile path c).files x = w.files x := Function.update_of_ne h ..

end World

/-- **When a name means the same file in a directory and in the root directory**: when it is
absolute, or leads up to the root directory. -/
theorem resolve_eq_resolve_nil_iff {dir : Path CStr} : resolve dir name = resolve [] name ↔
    name.head? = some '/' ∨ dir.length ≤ Path.climbs 0 (movesOf name) := by
  unfold resolve
  by_cases habs : name.head? = some '/'
  · simp [habs]
  · simp only [habs, if_false, false_or]
    exact Path.walk_eq_walk_nil_iff

theorem files_removePidFile (H : Host) (w : World) (name : CStr) (x : Path CStr) :
    (removePidFile H w (some name)).files x =
      if x = w.resolve name ∧ H.canUnlink x = true then none else w.files x := by
  unfold removePidFile
  by_cases hx : x = w.resolve name
  · subst hx
    by_cases hun : H.canUnlink (w.resolve name) = true <;> simp [hun]
  · rw [if_neg fun h => hx h.1]
    by_cases hun : H.canUnlink (w.resolve name) = true
    · simp only [hun, if_true]
      exact World.files_setFile_of_ne _ hx
    · simp [hun]

theorem pidText_inj {n m : ℕ} : pidText n = pidText m ↔ n = m := by
  rw [pidText, pidText, List.append_left_inj, decimal_natCast_inj]

theorem pidText_ne_nil (n : ℕ) : pidText n ≠ [] := List.append_ne_nil_of_right_ne_nil _ nofun

/-- The program has led itself to the root directory. -/
def Moved (H : Host) (o : Opts) : Prop :=
  H.driverOpen = true ∧ o.daemonize = true ∧ H.daemon.inRoot = true

/-- In the end the name of the file does not mean the file any more. -/
def Astray (H : Host) (w : World) (o : Opts) (name : CStr) : Prop :=
  Moved H o ∧ w.resolve name ≠ resolve [] name

instance (H : Host) (o : Opts) : Decidable (Moved H o) := inferInstanceAs (Decidable (_ ∧ _ ∧ _))

instance (H : Host) (w : World) (o : Opts) (name : CStr) : Decidable (Astray H w o name) :=
  inferInstanceAs (Decidable (_ ∧ _))

/-- **Which names go astray**: the relative ones that do not lead up to the root directory. -/
theorem astray_iff : Astray H w o name ↔ Moved H o ∧ name.head? ≠ some '/' ∧
    Path.climbs 0 (movesOf name) < w.cwd.length := by
  rw [Astray, World.resolve, Ne, resolve_eq_resolve_nil_iff, not_or, Nat.not_le]

theorem Noted.eq {u : World} (h : Noted H w o u) (hn : o.pidFile = some name) :
    u = w.setFile (w.resolve name) (some (recorded H w (w.resolve name))) := by
  cases h with
  | without hno => rw [hno] at hn; cases hn
  | written hsome =>
    cases hsome.symm.trans hn
    rfl

/-- Where the file is removed: in the directory of the process at that time. -/
theorem exists_removePidFile (hn : o.pidFile = some name) (ho : H.canOpen (w.resolve name) = true)
    (hp : H.canPrint (w.resolve name) = true) : ∃ u : World,
      u.files = (w.setFile (w.resolve name) (some (recorded H w (w.resolve name)))).files ∧
      u.cwd = (if Moved H o then [] else w.cwd) ∧
      (run H w o).world = removePidFile H u (some name) := by
  have hprep := prepared H w o
  generalize hr : prepare H w o = r at hprep
  cases hprep with
  | noOpen hn' hno =>
    cases hn.symm.trans hn'
    rw [ho] at hno
    cases hno
  | noPrint hn' _ hno =>
    cases hn.symm.trans hn'
    rw [hp] at hno
    cases hno
  | @noDriver u hu hd =>
    have hmoved : ¬ Moved H o := fun h => by
      have hdriver := h.1
      rw [hd] at hdriver
      cases hdriver
    refine ⟨u.call (.driverOpen false), ?_, ?_, ?_⟩
    · rw [hu.eq hn]; rfl
    · rw [hu.eq hn, if_neg hmoved]; rfl
    · rw [run_of_not_prepare (by rw [hr]), hr, hn]
  | @noDaemon u hu hd hz hk =>
    refine ⟨((u.call (.driverOpen true)).detach H.daemon).call .driverClose, ?_, ?_, ?_⟩
    · rw [hu.eq hn]; rfl
    · rw [hu.eq hn]; simp [World.call, World.detach, World.setFile, Moved, hd, hz]
    · rw [run_of_not_prepare (by rw [hr]), hr, hn]
  | @daemon u hu hd hz hk =>
    refine ⟨(((u.call (.driverOpen true)).detach H.daemon).call o.service).call .driverClose,
      ?_, ?_, ?_⟩
    · rw [hu.eq hn]; rfl
    · rw [hu.eq hn]; simp [World.call, World.detach, World.setFile, Moved, hd, hz]
    · rw [run_of_prepare (by rw [hr]), hr, hn]
  | @stays u hu hd hz =>
    have hmoved : ¬ Moved H o := fun h => by
      have hdaemonize := h.2.1
      rw [hz] at hdaemonize
      cases hdaemonize
    refine ⟨((u.call (.driverOpen true)).call o.service).call .driverClose, ?_, ?_, ?_⟩
    · rw [hu.eq hn]; rfl
    · rw [hu.eq hn, if_neg hmoved]; rfl
    · rw [run_of_prepare (by rw [hr]), hr, hn]

/-- The file that the name means in the end. -/
theorem resolve_last {u : World} (hu : u.cwd = if Moved H o then [] else w.cwd) :
    u.resolve name = if Astray H w o name then resolve [] name else w.resolve name := by
  unfold World.resolve
  rw [hu]
  by_cases hm : Moved H o
  · by_cases hsame : w.resolve name = resolve [] name
    · rw [if_pos hm, if_neg fun h => h.2 hsame]
      exact hsame.symm
    · rw [if_pos hm, if_pos ⟨hm, hsame⟩]
  · rw [if_neg hm, if_neg fun h => hm h.1]

theorem world_of_not_canPrint (hn : o.pidFile = some name) (ho : H.canOpen (w.resolve name) = true)
    (hp : H.canPrint (w.resolve name) = false) :
    (run H w o).world = w.setFile (w.resolve name) (some []) := by
  have hprep := prepared H w o
  generalize hr : prepare H w o = r at hprep
  cases hprep with
  | noOpen hn' hno =>
    cases hn.symm.trans hn'
    rw [ho] at hno
    cases hno
  | noPrint hn' =>
    cases hn.symm.trans hn'
    rw [run_of_not_prepare (by rw [hr]), hr]
  | noDriver hu | noDaemon hu | daemon hu | stays hu =>
    have hprint := (hu.ready name hn).2
    rw [hp] at hprint
    cases hprint

/-- **When the file is left behind**: exactly if printing into it fails, or it cannot be removed, or
the daemon has left its directory and its name means another file in the root directory.  In the
last case that file is removed in its place; nothing else changes. -/
theorem pidFile_left_iff (ha : ∀ i ∈ itemsOf H argv, Accepts i)
    (hn : (optsOf H argv).pidFile = some name) (ho : H.canOpen (w.resolve name) = true) :
    ((usbwsdMain H w argv).world.files (w.resolve name) ≠ none ↔
      H.canPrint (w.resolve name) = false ∨ H.canUnlink (w.resolve name) = false ∨
        Astray H w (optsOf H argv) name) ∧
    ∀ x ≠ w.resolve name, (usbwsdMain H w argv).world.files x =
      if Astray H w (optsOf H argv) name ∧ x = resolve [] name ∧
        H.canPrint (w.resolve name) = true ∧ H.canUnlink x = true then none else w.files x := by
  rw [main_of_accepts ha]
  generalize optsOf H argv = o at hn ⊢
  cases hp : H.canPrint (w.resolve name) with
  | false =>
    rw [world_of_not_canPrint hn ho hp]
    refine ⟨by simp, fun x hx => ?_⟩
    rw [World.files_setFile_of_ne _ hx]
    simp
  | true =>
    obtain ⟨u, hfiles, hu, hrun⟩ := exists_removePidFile hn ho hp
    have hlast := @resolve_last H w o name u hu
    have hother : ∀ x ≠ w.resolve name, u.files x = w.files x := fun x hx => by
      rw [hfiles, World.files_setFile_of_ne _ hx]
    have hself : u.files (w.resolve name) = some (recorded H w (w.resolve name)) := by
      rw [hfiles, World.files_setFile_self]
    simp only [hrun, files_removePidFile, hlast]
    by_cases hast : Astray H w o name
    · simp only [if_pos hast]
      refine ⟨iff_of_true ?_ (.inr (.inr hast)), fun x hx => ?_⟩
      · rw [if_neg fun h => hast.2 h.1, hself]
        exact Option.some_ne_none _
      · rw [hother x hx]
        simp [hast]
    · simp only [if_neg hast]
      refine ⟨?_, fun x hx => ?_⟩
      · rw [hself]
        cases H.canUnlink (w.resolve name) <;> simp [hast]
      · rw [if_neg fun h => hx h.1, if_neg fun h => hast h.1, hother x hx]

/-- A host where nothing fails, and `daemon` creates the next process. -/
def calmHost : Host where
  posixly := false
  defaultPidFile := some "/var/run/usbwsd".toList
  canOpen _ := true
  canPrint _ := true
  canFlush _ := true
  canUnlink _ := true
  driverOpen := true
  daemon := ⟨true, fun n => n + 1, true, fun _ n => Nat.succ_ne_self n, fun _ => rfl⟩

/-- The process 42 in a directory of its own, where there are no files. -/
def home : World := ⟨fun _ => none, ["home".toList], 42, []⟩

/-- A daemon with a relative name for its file. -/
theorem pidFile_left_of_relative :
    (usbwsdMain calmHost home (["usbwsd", "-D", "-Ppid"].map String.toList)).world.files
      ["pid".toList, "home".toList] ≠ none :=
  (@pidFile_left_iff calmHost home (["usbwsd", "-D", "-Ppid"].map String.toList) "pid".toList
    (by decide) (by decide) rfl).1.2 (by decide)

/-- A name that leads up to the root directory means the same file in the end. -/
example : (usbwsdMain calmHost home (["usbwsd", "-D", "-P../pid"].map String.toList)).world.files
    ["pid".toList] = none := by decide

/-- The process that serves. -/
theorem served_of_prepared {r : World × Bool} (h : Prepared H w o r) (hr : r.2 = true)
    (hn : o.pidFile = some name) :
    r.1.files = (w.setFile (w.resolve name) (some (recorded H w (w.resolve name)))).files ∧
      r.1.pid = (if o.daemonize then H.daemon.pid w.pid else w.pid) ∧
      (o.daemonize = true → H.daemon.ok = true) := by
  cases h with
  | noOpen | noPrint | noDriver | noDaemon => cases hr
  | daemon hu _ hz hk =>
    rw [hu.eq hn, hz]
    exact ⟨rfl, rfl, fun _ => hk⟩
  | stays hu _ hz =>
    rw [hu.eq hn, hz]
    exact ⟨rfl, rfl, nofun⟩

/-- **When the file names the process that serves**: exactly if what is printed comes to be written
and the process is the one that has printed it, so never for a daemon. -/
theorem pidFile_names_iff (hn : (optsOf H argv).pidFile = some name)
    (hv : (usbwsdMain H w argv).served = some v) :
    v.files (w.resolve name) = some (pidText v.pid) ↔
      H.canFlush (w.resolve name) = true ∧ (optsOf H argv).daemonize = false := by
  by_cases ha : ∀ i ∈ itemsOf H argv, Accepts i
  · rw [main_of_accepts ha] at hv
    generalize optsOf H argv = o at hn hv ⊢
    cases hr : (prepare H w o).2 with
    | false =>
      rw [run_of_not_prepare hr] at hv
      cases hv
    | true =>
      rw [run_of_prepare hr] at hv
      cases hv
      obtain ⟨hfiles, hpid, hok⟩ := served_of_prepared (prepared H w o) hr hn
      rw [hfiles, hpid, World.files_setFile_self, Option.some.injEq, recorded]
      by_cases hf : H.canFlush (w.resolve name) = true
      · rw [if_pos hf, pidText_inj]
        cases hz : o.daemonize with
        | true => simp [(H.daemon.pid_ne_of_ok (hok hz) w.pid).symm]
        | false => simp [hf]
      · rw [if_neg hf]
        exact iff_of_false (fun h => pidText_ne_nil _ h.symm) fun h => hf h.1
  · rw [main_of_not_accepts ha] at hv
    cases hv

/-- The file of a daemon names the process that has started it. -/
theorem pidFile_names_of_daemon : ∃ v,
    (usbwsdMain calmHost home (["usbwsd", "-D", "-P"].map String.toList)).served = some v ∧
      v.pid = 43 ∧ v.files ["usbwsd".toList, "run".toList, "var".toList] ≠
        some (pidText v.pid) := by
  refine ⟨_, rfl, rfl, fun h => ?_⟩
  have hn := (@pidFile_names_iff calmHost home _ (["usbwsd", "-D", "-P"].map String.toList)
    "/var/run/usbwsd".toList (by decide) rfl).1 h
  exact absurd hn.2 (by decide)

end Usbwsd

end Usbws

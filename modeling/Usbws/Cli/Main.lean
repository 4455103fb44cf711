import Usbws.Cli.Commands

/-!
# The command line of `usbws`

`main` looks its first argument up in the table of the commands.

* `usbwsMain` : the program.
* `Cli.main_calls_iff`, `Cli.main_ret_eq_zero_iff` : which device or port function is called and
  what is the exit status, for every command line.
* `Cli.main_balanced_iff` : when it leaves a balanced ledger.
* `Cli.main_of_written` : what is asked for in writing is what is called.
* `Cli.main_of_unknown` : an option that a command does not have is no failure.
* `Cli.main_of_posixly` : with `POSIXLY_CORRECT` no command has options.
-/

namespace Usbws

open Getopt

/-- `main` of `usbws.c`; what is returned is the exit status. -/
def usbwsMain (sh : Shell) (argv : List CStr) : Run :=
  match argv[1]? with
  | none => ⟨[], .empty, 1⟩
  | some name =>
    match usbwsCommands.find? fun x => x.2.1.toList = name with
    | none => ⟨[], .empty, 1⟩
    | some (cmd, _, proc) =>
      let r := proc sh argv cmd
      { r with ret := if r.ret ≠ 0 then 1 else 0 }

/-- The command that the first argument names. -/
def commandOf (argv : List CStr) : Option Command :=
  argv[1]?.bind fun name => (usbwsCommands.find? fun x => x.2.1.toList = name).map Prod.fst

namespace Cli

variable {sh : Shell} {argv : List CStr} {cmd : Command} {call : LibCall}

/-- The command that the first argument names is carried out. -/
theorem exists_proc (h : commandOf argv = some cmd) : ∃ name proc,
    (cmd, name, proc) ∈ usbwsCommands ∧ usbwsMain sh argv =
      { proc sh argv cmd with ret := if (proc sh argv cmd).ret ≠ 0 then 1 else 0 } := by
  unfold commandOf at h
  unfold usbwsMain
  cases ha : argv[1]? with
  | none =>
    rw [ha] at h
    cases h
  | some name =>
    rw [ha] at h
    cases hf : usbwsCommands.find? fun x => x.2.1.toList = name with
    | none => simp [hf] at h
    | some x =>
      obtain ⟨cmd', n, proc⟩ := x
      have hcmd : cmd' = cmd := by simpa [hf] using h
      subst hcmd
      exact ⟨n, proc, List.mem_of_find?_eq_some hf, by simp only [hf]⟩

/-- What `main` does, by the command that the first argument names. -/
theorem main_does (h : commandOf argv = some cmd) :
    Does sh (Demand sh (itemsOf sh argv cmd) cmd) (Prints (itemsOf sh argv cmd) cmd)
      (usbwsMain sh argv) := by
  obtain ⟨name, proc, hmem, hmain⟩ := @exists_proc sh argv cmd h
  rw [hmain]
  exact (proc_does hmem).status (by decide)

theorem main_of_commandOf_none (h : commandOf argv = none) :
    usbwsMain sh argv = ⟨[], .empty, 1⟩ := by
  unfold commandOf at h
  unfold usbwsMain
  cases ha : argv[1]? with
  | none => rfl
  | some name =>
    rw [ha] at h
    cases hf : usbwsCommands.find? fun x => x.2.1.toList = name with
    | none => simp [hf]
    | some x => simp [hf] at h

/-- **What is called** of the device and port functions: for every command line, exactly the call
that the last values of its options ask for, and at most one. -/
theorem main_calls_iff (sh : Shell) (argv : List CStr) :
    (usbwsMain sh argv).calls.length ≤ 1 ∧ ∀ call, call ∈ (usbwsMain sh argv).calls ↔
      ∃ cmd, commandOf argv = some cmd ∧ Demand sh (itemsOf sh argv cmd) cmd call := by
  cases hcmd : commandOf argv with
  | none => simp [main_of_commandOf_none hcmd]
  | some cmd =>
    have hdoes := @main_does sh argv cmd hcmd
    exact ⟨hdoes.length_calls_le, fun call => by simp [hdoes.mem_calls_iff]⟩

/-- **What the exit status says**: it is 0 exactly if the call that is asked for has been made and
has returned 0, or if the command just prints something, which is also what it does at an option
that it does not know. -/
theorem main_ret_eq_zero_iff (sh : Shell) (argv : List CStr) : (usbwsMain sh argv).ret = 0 ↔
    ∃ cmd, commandOf argv = some cmd ∧
      ((∃ call, Demand sh (itemsOf sh argv cmd) cmd call ∧ sh.lib call = 0) ∨
        Prints (itemsOf sh argv cmd) cmd) := by
  cases hcmd : commandOf argv with
  | none => simp [main_of_commandOf_none hcmd]
  | some cmd => simp [(@main_does sh argv cmd hcmd).ret_eq_zero_iff]

/-- **When the strings of the target are released**, each exactly once, for every command line. -/
theorem main_balanced_iff (sh : Shell) (argv : List CStr) :
    (usbwsMain sh argv).ledger.Balanced ↔ ∀ cmd, commandOf argv = some cmd →
      ∀ url proxy, SetsTarget (itemsOf sh argv cmd) cmd url proxy →
        Releasable sh.parse sh.allocs url proxy := by
  cases hcmd : commandOf argv with
  | none =>
    have hempty : Ledger.empty.Balanced := balanced_free_init
    simpa [main_of_commandOf_none hcmd] using hempty
  | some cmd =>
    obtain ⟨name, proc, hmem, hmain⟩ := @exists_proc sh argv cmd hcmd
    rw [hmain]
    simpa using proc_balanced_iff hmem

/-! ### Command lines in writing -/

theorem commandOf_cons {name : String} {proc : Shell → List CStr → Command → Run}
    (h : (cmd, name, proc) ∈ usbwsCommands) (prog : CStr) (words : List CStr) :
    commandOf (prog :: name.toList :: words) = some cmd := by
  simp only [usbwsCommands, List.mem_cons, List.not_mem_nil, or_false, Prod.mk.injEq] at h
  rcases h with h | h | h | h | h | h | h | h | h | h <;> obtain ⟨rfl, rfl, -⟩ := h <;> rfl

/-- The name of a command is no option. -/
theorem readWord_name (S : Spec) {name : String} {proc : Shell → List CStr → Command → Run}
    (h : (cmd, name, proc) ∈ usbwsCommands) :
    name.toList ≠ ['-', '-'] ∧ S.readWord name.toList = none := by
  simp only [usbwsCommands, List.mem_cons, List.not_mem_nil, or_false, Prod.mk.injEq] at h
  rcases h with h | h | h | h | h | h | h | h | h | h <;> obtain ⟨rfl, rfl, -⟩ := h <;>
    exact ⟨by decide, rfl⟩

/-- The options of a command line behind what is written correctly. -/
theorem itemsOf_written {name : String} {proc : Shell → List CStr → Command → Run} {prog : CStr}
    {ws : List Written} (hp : sh.posixly = false) (h : (cmd, name, proc) ∈ usbwsCommands)
    (hws : ∀ w ∈ ws, w.Ok (specOf cmd) false) (words : List CStr) :
    itemsOf sh (prog :: name.toList :: (ws.flatMap Written.words ++ words)) cmd =
      ws.flatMap Written.items ++ (specOf cmd).scan false none words := by
  obtain ⟨hne, hnone⟩ := readWord_name (specOf cmd) h
  rw [itemsOf, Spec.getoptLong, hp, List.tail_cons, Spec.scan_operand hne hnone,
    Spec.scan_written hws]

/-- The surroundings of a command that succeeds. -/
def calm (posixly : Bool) : Shell := ⟨posixly, cutUri, {}, fun _ => 0⟩

example : usbwsMain (calm false) (["usbws", "connect", "-d", "--url=ws://h:8443/", "now", "-b1-2",
    "--inter", "5"].map String.toList) =
    ⟨[.connectDevice "h".toList "8443".toList "1-2".toList], ⟨[13], [0]⟩, 0⟩ := by decide

theorem helpFirst_bad {accepts : Item → Prop} {items : List Item} (h : ∀ i ∈ items, accepts i)
    (is : List Item) : HelpFirst accepts (items ++ .bad :: is) := by
  induction items with
  | nil => exact .inr (.inl rfl)
  | cons i items ih =>
    rw [List.forall_mem_cons] at h
    exact .inr (.inr ⟨h.1, ih h.2⟩)

theorem not_demand_of_bad {items : List Item} (h : .bad ∈ items) : ¬ Demand sh items cmd call := by
  intro hd
  cases hd with
  | connectKind _ ha | bindKind _ ha =>
    simpa [ConnectKind.Accepts, ValueAccepts, Item.bad] using ha _ h
  | listLocal ha | listRemote ha | detach ha | port ha =>
    simpa [ListDevices.Accepts, ValueAccepts, Port.Accepts, Item.bad] using ha _ h

/-- **An option that a command does not have**, behind correct ones, makes it print its help and
call no device or port function, and is no failure, unless `POSIXLY_CORRECT` is set. -/
theorem main_of_unknown {name : String} {proc : Shell → List CStr → Command → Run} {prog : CStr}
    {ws : List Written} {word : CStr} {r : Reading} (hp : sh.posixly = false)
    (h : (cmd, name, proc) ∈ usbwsCommands) (hws : ∀ w ∈ ws, w.Ok (specOf cmd) false)
    (hacc : ∀ i ∈ ws.flatMap Written.items, Accepts cmd i) (hw : word ≠ ['-', '-'])
    (hr : (specOf cmd).readWord word = some r) (hbad : r.1.head? = some .bad) (words : List CStr) :
    (usbwsMain sh (prog :: name.toList ::
        (ws.flatMap Written.words ++ word :: words))).calls = [] ∧
      (usbwsMain sh (prog :: name.toList ::
        (ws.flatMap Written.words ++ word :: words))).ret = 0 := by
  have hitems : itemsOf sh (prog :: _) cmd = _ := itemsOf_written hp h hws (word :: words)
  obtain ⟨is, his⟩ : ∃ is, r.1 = .bad :: is := ⟨_, (List.cons_head?_tail hbad).symm⟩
  rw [Spec.scan_cons hw hr, his] at hitems
  have hdoes := @main_does sh _ cmd
    (commandOf_cons h prog (ws.flatMap Written.words ++ word :: words))
  rw [hitems] at hdoes
  refine ⟨List.eq_nil_iff_forall_not_mem.2 fun call hc => ?_, hdoes.ret_eq_zero_iff.2 (.inr ?_)⟩
  · exact not_demand_of_bad (by simp) (hdoes.mem_calls_iff.1 hc)
  · have hfirst := helpFirst_bad hacc (is ++ (specOf cmd).scan false r.2 words)
    cases cmd with
    | help | version => trivial
    | error => simp [usbwsCommands] at h
    | _ => exact hfirst

/-- The option `--busid` of the manual is none. -/
theorem main_of_busid :
    (usbwsMain (calm false)
        (["usbws", "bind", "-d", "--busid", "1-2"].map String.toList)).calls = [] ∧
      (usbwsMain (calm false)
        (["usbws", "bind", "-d", "--busid", "1-2"].map String.toList)).ret = 0 :=
  @main_of_unknown (calm false) .bind "bind" usbwsBindKind "usbws".toList [.flags 'd' []]
    "--busid".toList ([.bad], none) rfl (by simp [usbwsCommands]) (by decide)
    (by simp [Written.items, Accepts, ValueAccepts]) (by decide) (by decide) rfl ["1-2".toList]

/-- With `POSIXLY_CORRECT` the name of a command ends its options. -/
theorem itemsOf_of_posixly (hp : sh.posixly = true) (h : commandOf argv = some cmd) :
    itemsOf sh argv cmd = [] := by
  obtain ⟨name, hname, hcmd⟩ := Option.bind_eq_some_iff.1 h
  obtain ⟨x, hx, rfl⟩ := Option.map_eq_some_iff.1 hcmd
  obtain ⟨cmd, n, proc⟩ := x
  have hmem := List.mem_of_find?_eq_some hx
  have heq : n.toList = name := by simpa using List.find?_some hx
  match argv, hname with
  | [_], hname => cases hname
  | _ :: word :: words, hname =>
    have hword : n.toList = word := heq.trans (Option.some.inj hname).symm
    rw [itemsOf, Spec.getoptLong, hp, List.tail_cons]
    exact Spec.scan_operand_of_posixly (hword ▸ (readWord_name _ hmem).2)

/-- Only one command asks for something without options. -/
theorem demand_nil_iff : Demand sh [] cmd call ↔ cmd = .port ∧ call = .listImportedDevices := by
  constructor
  · intro h
    cases h with
    | connectKind _ _ h | listLocal _ h | listRemote _ _ h | bindKind _ _ h | detach _ h => cases h
    | port => exact ⟨rfl, rfl⟩
  · rintro ⟨rfl, rfl⟩
    exact .port (by simp)

theorem prints_nil_iff : Prints [] cmd ↔ cmd = .help ∨ cmd = .version := by
  cases cmd <;> simp [Prints, HelpFirst]

/-- **With `POSIXLY_CORRECT` no command has options**, as its name is the first operand: only
`usbws port` comes to call a device or port function. -/
theorem main_of_posixly (hp : sh.posixly = true) (argv : List CStr) :
    (∀ call, call ∈ (usbwsMain sh argv).calls ↔
      commandOf argv = some .port ∧ call = .listImportedDevices) ∧
    ((usbwsMain sh argv).ret = 0 ↔ commandOf argv = some .help ∨ commandOf argv = some .version ∨
      commandOf argv = some .port ∧ sh.lib .listImportedDevices = 0) := by
  cases hcmd : commandOf argv with
  | none => simp [main_of_commandOf_none hcmd]
  | some cmd =>
    have hdoes := @main_does sh argv cmd hcmd
    rw [itemsOf_of_posixly hp hcmd] at hdoes
    refine ⟨fun call => ?_, ?_⟩
    · simp [hdoes.mem_calls_iff, demand_nil_iff]
    · simp [hdoes.ret_eq_zero_iff, demand_nil_iff, prints_nil_iff, and_assoc, or_comm, or_assoc]

theorem main_of_posixly_of_port :
    (∀ call, call ∈ (usbwsMain (calm true) (["usbws", "port", "-h"].map String.toList)).calls ↔
      commandOf (["usbws", "port", "-h"].map String.toList) = some .port ∧
        call = .listImportedDevices) ∧
    ((usbwsMain (calm true) (["usbws", "port", "-h"].map String.toList)).ret = 0 ↔
      commandOf (["usbws", "port", "-h"].map String.toList) = some .help ∨
        commandOf (["usbws", "port", "-h"].map String.toList) = some .version ∨
        commandOf (["usbws", "port", "-h"].map String.toList) = some .port ∧
          (calm true).lib .listImportedDevices = 0) :=
  @main_of_posixly (calm true) rfl _

end Cli

end Usbws

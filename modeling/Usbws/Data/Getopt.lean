import Mathlib.Data.List.Basic

/-!
# Command lines

`getopt_long` takes the options out of a command line: short ones, which may share a word, and long
ones, which may be abbreviated; the argument of an option is the rest of its word, or the next word.
The words in between are operands.  Usually they are passed over; with `POSIXLY_CORRECT` the first
of them ends the options, as the word `--` always does.

## Main definitions

* `Spec` : the options of a program, where `shortOptions` reads an `optstring`.
* `Spec.scan` : what the calls of `getopt_long` return for the words of a command line.
* `Written` : an option, or an operand, as it is written; `Written.Ok` says that it is written
  correctly.

## Main results

* `Spec.scan_written` : what is written correctly is read as it is meant.
* `Spec.scan_operand_of_posixly` : with `POSIXLY_CORRECT` nothing is read behind an operand.
-/

namespace Usbws

namespace Getopt

/-- Whether an option has an argument. -/
inductive HasArg where
  | no
  | required
  | optional
  deriving DecidableEq, Repr

/-- A `struct option` whose `flag` is NULL. -/
structure LongOption where
  name : List Char
  hasArg : HasArg
  val : Char
  deriving DecidableEq, Repr

/-- The options of a program. -/
structure Spec where
  /-- The short options. -/
  short : List (Char × HasArg)
  /-- The long options. -/
  long : List LongOption

/-- The short options of an `optstring`. -/
def shortOptions : List Char → List (Char × HasArg)
  | c :: ':' :: ':' :: cs => (c, .optional) :: shortOptions cs
  | c :: ':' :: cs => (c, .required) :: shortOptions cs
  | c :: cs => (c, .no) :: shortOptions cs
  | [] => []

/-- What a call of `getopt_long` returns, and what it leaves in `optarg`. -/
structure Item where
  val : Char
  arg : Option (List Char)
  deriving DecidableEq, Repr

/-- The result for an option that is unknown, or lacks its argument, or has one too many. -/
def Item.bad : Item := ⟨'?', none⟩

/-- What a word gives, and the option that waits for the next word. -/
abbrev Reading := List Item × Option Char

/-- The options of a word behind its hyphen. -/
def readShort (short : List (Char × HasArg)) : List Char → Reading
  | [] => ([], none)
  | c :: cs =>
    match short.lookup c with
    | none => (.bad :: (readShort short cs).1, (readShort short cs).2)
    | some .no => (⟨c, none⟩ :: (readShort short cs).1, (readShort short cs).2)
    | some .required => if cs = [] then ([], some c) else ([⟨c, some cs⟩], none)
    | some .optional => ([⟨c, if cs = [] then none else some cs⟩], none)

namespace Spec

/-- The long option of a name, which may be a beginning that only one of them has. -/
def findLong (S : Spec) (name : List Char) : Option LongOption :=
  match S.long.find? fun o => o.name = name with
  | some o => some o
  | none =>
    match S.long.filter fun o => name.isPrefixOf o.name with
    | [] => none
    | o :: os => if os.all fun o' => o'.hasArg = o.hasArg && o'.val = o.val then some o else none

/-- The long option of a word behind its two hyphens. -/
def readLong (S : Spec) (body : List Char) : Reading :=
  let name := body.takeWhile (· ≠ '=')
  let value := if '=' ∈ body then some (body.drop (name.length + 1)) else none
  match S.findLong name with
  | none => ([.bad], none)
  | some o =>
    match o.hasArg, value with
    | .no, some _ => ([.bad], none)
    | .required, none => ([], some o.val)
    | _, value => ([⟨o.val, value⟩], none)

/-- What a word other than `--` gives; `none` is an operand. -/
def readWord (S : Spec) : List Char → Option Reading
  | '-' :: '-' :: body => some (S.readLong body)
  | '-' :: c :: cs => some (readShort S.short (c :: cs))
  | _ => none

/-- What the calls of `getopt_long` return, while an option may be waiting for its argument. -/
def scan (S : Spec) (posixly : Bool) : Option Char → List (List Char) → List Item
  | none, [] => []
  | some _, [] => [.bad]
  | some c, word :: words => ⟨c, some word⟩ :: S.scan posixly none words
  | none, word :: words =>
    if word = ['-', '-'] then []
    else
      match S.readWord word with
      | none => if posixly then [] else S.scan posixly none words
      | some (items, waiting) => items ++ S.scan posixly waiting words

/-- The calls of `getopt_long` for a command line, whose first word is the name of the program. -/
def getoptLong (S : Spec) (posixly : Bool) (argv : List (List Char)) : List Item :=
  S.scan posixly none argv.tail

end Spec

/-! ### Options as they are written -/

/-- An option, or an operand, as it is written. -/
inductive Written where
  /-- `-abc` -/
  | flags (c : Char) (cs : List Char)
  /-- `-oVALUE` -/
  | attached (c : Char) (value : List Char)
  /-- `-o VALUE` -/
  | separate (c : Char) (value : List Char)
  /-- `--name` -/
  | longFlag (name : List Char) (o : LongOption)
  /-- `--name=VALUE` -/
  | longAttached (name : List Char) (o : LongOption) (value : List Char)
  /-- `--name VALUE` -/
  | longSeparate (name : List Char) (o : LongOption) (value : List Char)
  /-- A word that is no option. -/
  | operand (word : List Char)
  deriving DecidableEq, Repr

namespace Written

/-- The words. -/
def words : Written → List (List Char)
  | flags c cs => ['-' :: c :: cs]
  | attached c value => ['-' :: c :: value]
  | separate c value => [['-', c], value]
  | longFlag name _ => ['-' :: '-' :: name]
  | longAttached name _ value => ['-' :: '-' :: (name ++ '=' :: value)]
  | longSeparate name _ value => ['-' :: '-' :: name, value]
  | operand word => [word]

/-- The meaning. -/
def items : Written → List Item
  | flags c cs => (c :: cs).map fun c => ⟨c, none⟩
  | attached c value | separate c value => [⟨c, some value⟩]
  | longFlag _ o => [⟨o.val, none⟩]
  | longAttached _ o value | longSeparate _ o value => [⟨o.val, some value⟩]
  | operand _ => []

/-- The options of the program may be written so. -/
def Ok (S : Spec) (posixly : Bool) : Written → Prop
  | flags c cs => c ≠ '-' ∧ ∀ x ∈ c :: cs, S.short.lookup x = some .no
  | attached c value => c ≠ '-' ∧ value ≠ [] ∧
      (S.short.lookup c = some .required ∨ S.short.lookup c = some .optional)
  | separate c _ => c ≠ '-' ∧ S.short.lookup c = some .required
  | longFlag name o => name ≠ [] ∧ '=' ∉ name ∧ S.findLong name = some o ∧ o.hasArg ≠ .required
  | longAttached name o _ => '=' ∉ name ∧ S.findLong name = some o ∧ o.hasArg ≠ .no
  | longSeparate name o _ => name ≠ [] ∧ '=' ∉ name ∧ S.findLong name = some o ∧
      o.hasArg = .required
  | operand word => posixly = false ∧ word ≠ ['-', '-'] ∧ S.readWord word = none

instance decidableOk (S : Spec) (posixly : Bool) : DecidablePred (Ok S posixly)
  | flags c cs =>
    have := List.decidableBAll (fun x => S.short.lookup x = some .no) (c :: cs)
    inferInstanceAs (Decidable (c ≠ '-' ∧ ∀ x ∈ c :: cs, S.short.lookup x = some .no))
  | attached c value => inferInstanceAs (Decidable (c ≠ '-' ∧ value ≠ [] ∧
      (S.short.lookup c = some .required ∨ S.short.lookup c = some .optional)))
  | separate c _ =>
    inferInstanceAs (Decidable (c ≠ '-' ∧ S.short.lookup c = some .required))
  | longFlag name o => inferInstanceAs (Decidable
      (name ≠ [] ∧ '=' ∉ name ∧ S.findLong name = some o ∧ o.hasArg ≠ .required))
  | longAttached name o _ =>
    inferInstanceAs (Decidable ('=' ∉ name ∧ S.findLong name = some o ∧ o.hasArg ≠ .no))
  | longSeparate name o _ => inferInstanceAs (Decidable
      (name ≠ [] ∧ '=' ∉ name ∧ S.findLong name = some o ∧ o.hasArg = .required))
  | operand word =>
    inferInstanceAs (Decidable (posixly = false ∧ word ≠ ['-', '-'] ∧ S.readWord word = none))

end Written

/-! ### Reading what is written -/

namespace Spec

variable {S : Spec} {posixly : Bool} {c : Char} {value name word : List Char}
  {words : List (List Char)} {o : LongOption}

/-- A word that is read. -/
theorem scan_cons {r : Reading} (hw : word ≠ ['-', '-']) (hr : S.readWord word = some r) :
    S.scan posixly none (word :: words) = r.1 ++ S.scan posixly r.2 words := by
  rw [scan, if_neg hw, hr]

/-- Operands are passed over. -/
theorem scan_operand (hw : word ≠ ['-', '-']) (hr : S.readWord word = none) :
    S.scan false none (word :: words) = S.scan false none words := by
  rw [scan, if_neg hw, hr]
  rfl

/-- With `POSIXLY_CORRECT` nothing is read behind an operand. -/
theorem scan_operand_of_posixly (hr : S.readWord word = none) :
    S.scan true none (word :: words) = [] := by
  rw [scan, hr]
  simp

theorem readWord_short (hc : c ≠ '-') (cs : List Char) :
    S.readWord ('-' :: c :: cs) = some (readShort S.short (c :: cs)) := by
  unfold readWord
  split
  · rename_i h
    cases h
    exact absurd rfl hc
  · rename_i h
    cases h
    rfl
  · rename_i h
    exact absurd rfl (h c cs)

theorem readShort_flags {cs : List Char} (h : ∀ x ∈ cs, S.short.lookup x = some .no) :
    readShort S.short cs = (cs.map fun c => ⟨c, none⟩, none) := by
  induction cs with
  | nil => rfl
  | cons c cs ih =>
    rw [List.forall_mem_cons] at h
    simp [readShort, h.1, ih h.2]

/-- A name ends where its argument begins. -/
theorem takeWhile_name (h : '=' ∉ name) {rest : List Char} (hr : rest.takeWhile (· ≠ '=') = []) :
    (name ++ rest).takeWhile (· ≠ '=') = name := by
  have hall : ∀ c ∈ name, decide (c ≠ '=') = true := by
    intro c hc
    simp only [decide_eq_true_eq]
    rintro rfl
    exact h hc
  rw [List.takeWhile_append_of_pos hall, hr, List.append_nil]

/-- A long option with its argument behind the sign. -/
theorem readLong_attached (h : '=' ∉ name) (ho : S.findLong name = some o) (ha : o.hasArg ≠ .no) :
    S.readLong (name ++ '=' :: value) = ([⟨o.val, some value⟩], none) := by
  have hmem : '=' ∈ name ++ '=' :: value := by simp
  have hdrop : (name ++ '=' :: value).drop (name.length + 1) = value := by simp
  have hname : (name ++ '=' :: value).takeWhile (· ≠ '=') = name := takeWhile_name h (by simp)
  simp only [readLong, hname, ho, if_pos hmem, hdrop]
  cases hh : o.hasArg with
  | no => exact absurd hh ha
  | required | optional => rfl

/-- A long option without one. -/
theorem readLong_name (h : '=' ∉ name) (ho : S.findLong name = some o) : S.readLong name =
    if o.hasArg = .required then ([], some o.val) else ([⟨o.val, none⟩], none) := by
  have hname : name.takeWhile (· ≠ '=') = name := by
    simpa using takeWhile_name h (List.takeWhile_nil)
  simp only [readLong, hname, ho, if_neg h]
  cases o.hasArg <;> rfl

/-- One option or operand is read as it is meant. -/
theorem scan_words {w : Written} (hw : w.Ok S posixly) :
    S.scan posixly none (w.words ++ words) = w.items ++ S.scan posixly none words := by
  cases w with
  | flags c cs =>
    obtain ⟨hc, hall⟩ := hw
    have hr := readWord_short (S := S) hc cs
    rw [readShort_flags hall] at hr
    exact scan_cons (by simp [hc]) hr
  | attached c value =>
    obtain ⟨hc, hv, hl⟩ := hw
    have hr := readWord_short (S := S) hc value
    have hread : readShort S.short (c :: value) = ([⟨c, some value⟩], none) := by
      rcases hl with hl | hl <;> simp [readShort, hl, hv]
    rw [hread] at hr
    exact scan_cons (by simp [hc]) hr
  | separate c value =>
    obtain ⟨hc, hl⟩ := hw
    have hr := readWord_short (S := S) hc []
    have hread : readShort S.short [c] = ([], some c) := by simp [readShort, hl]
    rw [hread] at hr
    exact scan_cons (by simp [hc]) hr
  | longFlag name o =>
    obtain ⟨hn, hq, ho, ha⟩ := hw
    have hr : S.readWord ('-' :: '-' :: name) = some (S.readLong name) := rfl
    rw [readLong_name hq ho, if_neg ha] at hr
    exact scan_cons (by simp [hn]) hr
  | longAttached name o value =>
    obtain ⟨hq, ho, ha⟩ := hw
    have hr : S.readWord ('-' :: '-' :: (name ++ '=' :: value)) =
        some (S.readLong (name ++ '=' :: value)) := rfl
    rw [readLong_attached hq ho ha] at hr
    exact scan_cons (by simp) hr
  | longSeparate name o value =>
    obtain ⟨hn, hq, ho, ha⟩ := hw
    have hr : S.readWord ('-' :: '-' :: name) = some (S.readLong name) := rfl
    rw [readLong_name hq ho, if_pos ha] at hr
    exact scan_cons (by simp [hn]) hr
  | operand word =>
    obtain ⟨hp, hw, hr⟩ := hw
    subst hp
    exact scan_operand hw hr

/-- **What is written correctly is read as it is meant.** -/
theorem scan_written {ws : List Written} (hws : ∀ w ∈ ws, w.Ok S posixly) :
    S.scan posixly none (ws.flatMap Written.words ++ words) =
      ws.flatMap Written.items ++ S.scan posixly none words := by
  induction ws with
  | nil => rfl
  | cons w ws ih =>
    rw [List.forall_mem_cons] at hws
    simp only [List.flatMap_cons, List.append_assoc]
    rw [scan_words hws.1, ih hws.2]

end Spec

end Getopt

end Usbws

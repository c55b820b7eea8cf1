import Mathlib.Data.List.Nodup
import Mathlib.Tactic.Common

/-! # What the first word of a script line runs

`processCommand` compares the word with the names of its commands and, by `isValueCommand`, with
the types of values, one after the other. Names are of ASCII characters. -/
namespace Rts2.Script.Dispatch

/-- Commands by their whole names. -/
inductive Command where
  | c | ct | v | setOwn | g | getOwn | s | waitidle | waitmask | log | runDevice | execDevice
  | tempentry
  | registerRandevous | waitRandevous
  | valueCreate | valueDelete | valueAdd | doubleArrayAdd | statAdd
  deriving DecidableEq

/-- Types whose values a script creates and updates. -/
inductive ValueType where
  | double | timevalue | integer | string | bool | onoff | doubleArray | stat
  deriving DecidableEq

def Command.name : Command → List Char
  | .c => ['C']
  | .ct => ['C', 'T']
  | .v => ['V']
  | .setOwn => ['s', 'e', 't', '_', 'o', 'w', 'n']
  | .g => ['G']
  | .getOwn => ['g', 'e', 't', '_', 'o', 'w', 'n']
  | .s => ['S']
  | .waitidle => ['w', 'a', 'i', 't', 'i', 'd', 'l', 'e']
  | .waitmask => ['w', 'a', 'i', 't', 'm', 'a', 's', 'k']
  | .log => ['l', 'o', 'g']
  | .runDevice => ['r', 'u', 'n', '_', 'd', 'e', 'v', 'i', 'c', 'e']
  | .execDevice => ['e', 'x', 'e', 'c', '_', 'd', 'e', 'v', 'i', 'c', 'e']
  | .tempentry => ['t', 'e', 'm', 'p', 'e', 'n', 't', 'r', 'y']
  | .registerRandevous =>
    ['r', 'e', 'g', 'i', 's', 't', 'e', 'r', '_', 'r', 'a', 'n', 'd', 'e', 'v', 'o', 'u', 's']
  | .waitRandevous => ['w', 'a', 'i', 't', '_', 'r', 'a', 'n', 'd', 'e', 'v', 'o', 'u', 's']
  | .valueCreate => ['v', 'a', 'l', 'u', 'e', '_', 'c', 'r', 'e', 'a', 't', 'e']
  | .valueDelete => ['v', 'a', 'l', 'u', 'e', '_', 'd', 'e', 'l', 'e', 't', 'e']
  | .valueAdd => ['v', 'a', 'l', 'u', 'e', '_', 'a', 'd', 'd']
  | .doubleArrayAdd =>
    ['d', 'o', 'u', 'b', 'l', 'e', '_', 'a', 'r', 'r', 'a', 'y', '_', 'a', 'd', 'd']
  | .statAdd => ['s', 't', 'a', 't', '_', 'a', 'd', 'd']

def ValueType.name : ValueType → List Char
  | .double => ['d', 'o', 'u', 'b', 'l', 'e']
  | .timevalue => ['t', 'i', 'm', 'e', 'v', 'a', 'l', 'u', 'e']
  | .integer => ['i', 'n', 't', 'e', 'g', 'e', 'r']
  | .string => ['s', 't', 'r', 'i', 'n', 'g']
  | .bool => ['b', 'o', 'o', 'l']
  | .onoff => ['o', 'n', 'o', 'f', 'f']
  | .doubleArray => ['d', 'o', 'u', 'b', 'l', 'e', '_', 'a', 'r', 'r', 'a', 'y']
  | .stat => ['s', 't', 'a', 't']

/-- The commands in front of the types, in the order of their comparisons. -/
def early : List Command :=
  [.c, .ct, .v, .setOwn, .g, .getOwn, .s, .waitidle, .waitmask, .log, .runDevice, .execDevice,
    .tempentry]

def types : List ValueType :=
  [.double, .timevalue, .integer, .string, .bool, .onoff, .doubleArray, .stat]

/-- The commands behind the types; from `value_create` on they are given to the device. -/
def late : List Command :=
  [.registerRandevous, .waitRandevous, .valueCreate, .valueDelete, .valueAdd, .doubleArrayAdd,
    .statAdd]

def lower (word : List Char) : List Char := word.map Char.toLower

/-- Compared by `strcasecmp`, not by `strcmp`. -/
def Command.anyCase (command : Command) : Bool := command = .tempentry || command ∈ late

/-- The word is the name of the command. -/
def Command.Named (command : Command) (word : List Char) : Prop :=
  if command.anyCase then lower word = command.name else word = command.name

instance (command : Command) (word : List Char) : Decidable (command.Named word) := by
  unfold Command.Named
  infer_instance

/-! ## Flags -/

abbrev Flags := BitVec 32

/-- `RTS2_VALUE_WRITABLE` -/
def writable : Flags := 0x02000000#32
/-- `RTS2_VALUE_FITS` -/
def fits : Flags := 0x00000100#32
/-- `RTS2_VALUE_SCRIPTTEMPORARY` -/
def scriptTemporary : Flags := 0x04000000#32

/-- One turn of the loop of `isValueCommand`. -/
def addFlag (flags : Flags) (letter : Char) : Flags :=
  let flags := if letter = 'w' then flags ||| writable else flags
  let flags := if letter = 'f' then flags ||| fits else flags
  if letter = 't' then flags ||| scriptTemporary else flags

/-- What `isValueCommand` returns; what follows the name is not looked at. -/
def isValueCommand (cmd expected : List Char) : Bool := expected <+: lower cmd

/-- What it leaves in `flags`. -/
def valueFlags (cmd expected : List Char) : Flags :=
  match cmd.drop expected.length with
  | '_' :: letters => letters.foldl addFlag 0
  | _ => 0

/-! ## The comparisons -/

/-- What is run: the branch of a command, or that of a type with the flags. -/
inductive Handler where
  | command (command : Command)
  | value (type : ValueType) (flags : Flags)

/-- `bool` and `onoff` share a branch, which creates a value without `RTS2_DT_ONOFF` only when
the word is `bool` and no more. -/
def branch (type : ValueType) (cmd : List Char) : ValueType :=
  match type with
  | .bool | .onoff => if lower cmd = ValueType.bool.name then .bool else .onoff
  | type => type

/-- `unknow command`, and the word -/
def unknown (cmd : List Char) : List Char :=
  ['u', 'n', 'k', 'n', 'o', 'w', ' ', 'c', 'o', 'm', 'm', 'a', 'n', 'd', ' '] ++ cmd

/-- `ConnExe::processCommand`, up to the branch that is taken. -/
def processCommand (cmd : List Char) : Except (List Char) Handler :=
  match early.find? (·.Named cmd) with
  | some command => .ok (.command command)
  | none =>
    match types.find? fun type => isValueCommand cmd type.name with
    | some type => .ok (.value (branch type cmd) (valueFlags cmd type.name))
    | none =>
      match late.find? (·.Named cmd) with
      | some command => .ok (.command command)
      | none => .error (unknown cmd)

/-! ## What a word means -/

/-- A type with or without a suffix that an underscore begins. -/
def Written (type : ValueType) (word : List Char) : Prop :=
  lower word = type.name ∨ type.name ++ ['_'] <+: lower word

/-- The flags among the letters of a suffix. -/
def lettered (suffix : List Char) : Flags :=
  (if 'w' ∈ suffix then writable else 0) ||| (if 'f' ∈ suffix then fits else 0) |||
    (if 't' ∈ suffix then scriptTemporary else 0)

/-- A command by its name, else the longest type that is written, with the flags behind it. -/
inductive Means (word : List Char) : Except (List Char) Handler → Prop where
  | command {command : Command} (hnamed : command.Named word) : Means word (.ok (.command command))
  | value {type : ValueType} (hcommand : ∀ command : Command, ¬command.Named word)
      (hwritten : Written type word)
      (hlongest : ∀ other, Written other word → other.name.length ≤ type.name.length) :
      Means word (.ok (.value type (lettered (word.drop (type.name.length + 1)))))
  | unknown (hcommand : ∀ command : Command, ¬command.Named word)
      (htype : ∀ type, ¬Written type word) : Means word (.error (unknown word))

/-- No type has other characters behind it, and the word is none of `double_array` with or without
a suffix, `stat_add` and `bool` with a suffix. -/
structure Fits (word : List Char) : Prop where
  whole : ∀ type : ValueType, type ≠ .doubleArray → type.name <+: lower word → Written type word
  array : ¬Written .doubleArray word
  stat : lower word ≠ Command.statAdd.name
  bool : ¬ValueType.bool.name ++ ['_'] <+: lower word

variable {word : List Char} {command : Command} {type other : ValueType}

/-! ## Names -/

theorem mem_types (type : ValueType) : type ∈ types := by
  cases type <;> decide

theorem mem_early_or_late (command : Command) : command ∈ early ++ late := by
  cases command <;> decide

/-- Names differ also when case does not count. -/
theorem lower_names_nodup : ((early ++ late).map fun command => lower command.name).Nodup := by
  decide

theorem lower_of_named (h : command.Named word) : lower word = lower command.name := by
  unfold Command.Named at h
  by_cases hcase : command.anyCase
  · rw [if_pos hcase] at h
    rw [h]
    cases command <;> first | rfl | exact absurd hcase (by decide)
  · rw [if_neg hcase] at h
    rw [h]

theorem named_unique {command' : Command} (h : command.Named word) (h' : command'.Named word) :
    command = command' := by
  refine List.inj_on_of_nodup_map lower_names_nodup (mem_early_or_late _) (mem_early_or_late _) ?_
  exact (lower_of_named h).symm.trans (lower_of_named h')

/-- Of two types one of which begins with the other, the shorter is `double`. -/
theorem prefix_of_types (h : type.name <+: other.name) :
    type = other ∨ type = .double ∧ other = .doubleArray := by
  have hall : ∀ type ∈ types, ∀ other ∈ types, type.name <+: other.name →
      type = other ∨ type = .double ∧ other = .doubleArray := by
    decide
  exact hall type (mem_types type) other (mem_types other) h

theorem types_of_word (h : type.name <+: lower word) (hother : other.name <+: lower word) :
    type = other ∨ type = .double ∧ other = .doubleArray ∨
      other = .double ∧ type = .doubleArray := by
  rcases List.prefix_or_prefix_of_prefix h hother with hpre | hpre
  · exact (prefix_of_types hpre).imp_right .inl
  · rcases prefix_of_types hpre with heq | hboth
    · exact .inl heq.symm
    · exact .inr (.inr hboth)

/-- Two commands begin with types. -/
theorem command_of_type (hnamed : command.Named word) (h : type.name <+: lower word) :
    command = .doubleArrayAdd ∨ command = .statAdd := by
  have hall : ∀ command ∈ early ++ late, ∀ type ∈ types, type.name <+: lower command.name →
      command = .doubleArrayAdd ∨ command = .statAdd := by
    decide
  rw [lower_of_named hnamed] at h
  exact hall command (mem_early_or_late command) type (mem_types type) h

/-! ## Flags of a suffix -/

theorem addFlag_or (flags : Flags) (letter : Char) : addFlag flags letter = flags ||| lettered [letter] := by
  unfold addFlag lettered
  by_cases hw : letter = 'w'
  · subst hw
    rfl
  · by_cases hf : letter = 'f'
    · subst hf
      rfl
    · by_cases ht : letter = 't'
      · subst ht
        rfl
      · simp [hw, hf, ht, Ne.symm hw, Ne.symm hf, Ne.symm ht]

theorem lettered_cons (letter : Char) (suffix : List Char) :
    lettered (letter :: suffix) = lettered [letter] ||| lettered suffix := by
  have hor : ∀ (flag : Flags) (a b : Prop) [Decidable a] [Decidable b],
      (if a ∨ b then flag else 0) = (if a then flag else 0) ||| (if b then flag else 0) := by
    intro flag a b _ _
    by_cases ha : a
    · by_cases hb : b <;> simp [ha, hb]
    · by_cases hb : b <;> simp [ha, hb]
  unfold lettered
  simp only [List.mem_cons, List.not_mem_nil, or_false, hor]
  ac_rfl

theorem foldl_addFlag (letters : List Char) (flags : Flags) :
    letters.foldl addFlag flags = flags ||| lettered letters := by
  induction letters generalizing flags with
  | nil => exact (BitVec.or_zero).symm
  | cons letter letters ih =>
    rw [List.foldl_cons, ih, addFlag_or, lettered_cons letter letters, BitVec.or_assoc]

theorem underscore_of_lower {c : Char} (h : c.toLower = '_') : c = '_' := by
  by_cases hup : c.val ≥ 'A'.val ∧ c.val ≤ 'Z'.val
  · have hval : c.val + 32 = 95 := (congrArg Char.val (dif_pos hup)).symm.trans (congrArg Char.val h)
    have hquestion : c.val = 63 := by
      rw [← UInt32.add_sub_cancel c.val 32, hval]
      rfl
    rw [hquestion] at hup
    exact absurd hup (by decide)
  · exact (dif_neg hup).symm.trans h

/-- The flags of a type that is written are those lettered behind it. -/
theorem valueFlags_of_written (h : Written type word) :
    valueFlags word type.name = lettered (word.drop (type.name.length + 1)) := by
  have hlength : (lower word).length = word.length := List.length_map _
  unfold valueFlags
  rw [← List.tail_drop]
  cases hdrop : word.drop type.name.length with
  | nil => rfl
  | cons mark letters =>
    have hmark : mark = '_' := by
      rcases h with hname | hpre
      · have hempty : word.drop type.name.length = [] := by
          rw [← hname, hlength, List.drop_length]
        rw [hempty] at hdrop
        cases hdrop
      · obtain ⟨more, hmore⟩ := hpre
        have hlower : lower (word.drop type.name.length) = '_' :: more := by
          rw [lower, List.map_drop, ← lower, ← hmore, List.append_assoc, List.drop_left]
          rfl
        rw [hdrop] at hlower
        exact underscore_of_lower (List.cons.inj hlower).1
    subst hmark
    exact (foldl_addFlag letters 0).trans BitVec.zero_or

/-! ## Which branch is taken -/

theorem find_named {commands : List Command} (hmem : command ∈ commands) (h : command.Named word) :
    commands.find? (·.Named word) = some command := by
  have hsome : (commands.find? (·.Named word)).isSome :=
    List.find?_isSome.mpr ⟨command, hmem, decide_eq_true h⟩
  obtain ⟨found, hfound⟩ := Option.isSome_iff_exists.mp hsome
  have hnamed : found.Named word := by simpa using List.find?_some hfound
  rw [hfound, named_unique hnamed h]

theorem find_none {commands : List Command}
    (h : ∀ command ∈ commands, ¬command.Named word) : commands.find? (·.Named word) = none :=
  List.find?_eq_none.mpr fun command hmem => fun hnamed => h command hmem (of_decide_eq_true hnamed)

/-- `double_array` is never the first type that a word begins with. -/
theorem first_type (h : type.name <+: lower word) (hne : type ≠ .doubleArray) :
    types.find? (fun type => isValueCommand word type.name) = some type := by
  by_cases hdouble : ValueType.double.name <+: lower word
  · have hfirst : types.find? (fun type => isValueCommand word type.name) = some .double :=
      List.find?_cons_of_pos (decide_eq_true hdouble)
    rw [hfirst]
    rcases types_of_word h hdouble with heq | hboth | hboth
    · rw [heq]
    · exact absurd hboth.2 (by decide)
    · exact absurd hboth.2 hne
  · have hsome : (types.find? (fun type => isValueCommand word type.name)).isSome :=
      List.find?_isSome.mpr ⟨type, mem_types type, decide_eq_true h⟩
    obtain ⟨found, hfound⟩ := Option.isSome_iff_exists.mp hsome
    have hpre : found.name <+: lower word := by simpa [isValueCommand] using List.find?_some hfound
    rw [hfound]
    rcases types_of_word hpre h with heq | hboth | hboth
    · rw [heq]
    · exact absurd hboth.2 hne
    · exact absurd (hboth.1 ▸ h) hdouble

theorem no_type (h : ∀ type : ValueType, ¬type.name <+: lower word) :
    types.find? (fun type => isValueCommand word type.name) = none :=
  List.find?_eq_none.mpr fun type _ => fun hpre => h type (of_decide_eq_true hpre)

/-- A word that begins with a type runs its branch. -/
theorem processCommand_of_type (h : type.name <+: lower word) (hne : type ≠ .doubleArray) :
    processCommand word = .ok (.value (branch type word) (valueFlags word type.name)) := by
  have hearly : early.find? (·.Named word) = none := by
    refine find_none fun command hmem => fun hnamed => ?_
    rcases command_of_type hnamed h with rfl | rfl
    · exact absurd hmem (by decide)
    · exact absurd hmem (by decide)
  unfold processCommand
  rw [hearly, first_type h hne]

/-- The name of a command that does not begin with a type runs the command. -/
theorem processCommand_of_named (h : command.Named word)
    (htype : ∀ type : ValueType, ¬type.name <+: lower word) :
    processCommand word = .ok (.command command) := by
  unfold processCommand
  rcases List.mem_append.mp (mem_early_or_late command) with hmem | hmem
  · rw [find_named hmem h]
  · have hearly : early.find? (·.Named word) = none := by
      refine find_none fun other hother => fun hnamed => ?_
      rw [named_unique hnamed h] at hother
      have hapart : ∀ command ∈ early, command ∉ late := by decide
      exact hapart command hother hmem
    rw [hearly, no_type htype, find_named hmem h]

theorem processCommand_unknown (h : ∀ command : Command, ¬command.Named word)
    (htype : ∀ type : ValueType, ¬type.name <+: lower word) :
    processCommand word = .error (unknown word) := by
  unfold processCommand
  rw [find_none fun command _ => h command, no_type htype, find_none fun command _ => h command]

/-! ## Words that run what they mean -/

theorem prefix_of_written (h : Written type word) : type.name <+: lower word := by
  rcases h with hname | hpre
  · exact hname ▸ List.prefix_rfl
  · exact (List.prefix_append _ _).trans hpre

/-- A written type is no longer than another one, unless it is `double_array`. -/
theorem longest_of_written (h : Written type word) (harray : ¬Written .doubleArray word)
    (hother : Written other word) : other.name.length ≤ type.name.length := by
  rcases types_of_word (prefix_of_written h) (prefix_of_written hother) with heq | hboth | hboth
  · exact heq ▸ Nat.le_refl _
  · exact absurd (hboth.2 ▸ hother) harray
  · exact absurd (hboth.2 ▸ h) harray

/-- The branch of a type is its own, unless a suffix follows `bool`. -/
theorem branch_of_written (h : Written type word)
    (hbool : ¬ValueType.bool.name ++ ['_'] <+: lower word) : branch type word = type := by
  cases type with
  | bool => exact if_pos (h.resolve_right hbool)
  | onoff =>
    refine if_neg fun hname => ?_
    have hpre := prefix_of_written h
    rw [hname] at hpre
    exact absurd hpre (by decide)
  | double => rfl
  | timevalue => rfl
  | integer => rfl
  | string => rfl
  | doubleArray => rfl
  | stat => rfl

theorem Fits.means (h : Fits word) : Means word (processCommand word) := by
  by_cases htype : ∃ type : ValueType, type ≠ .doubleArray ∧ type.name <+: lower word
  · obtain ⟨type, hne, hpre⟩ := htype
    have hwritten := h.whole type hne hpre
    rw [processCommand_of_type hpre hne, branch_of_written hwritten h.bool,
      valueFlags_of_written hwritten]
    refine .value (fun command hnamed => ?_) hwritten fun other =>
      longest_of_written hwritten h.array
    rcases command_of_type hnamed hpre with rfl | rfl
    · have harray : ValueType.doubleArray.name ++ ['_'] <+: lower word := by
        rw [lower_of_named hnamed]
        decide
      exact h.array (.inr harray)
    · exact h.stat (lower_of_named hnamed)
  · have hnone : ∀ type : ValueType, ¬type.name <+: lower word := by
      intro type hpre
      by_cases hne : type = .doubleArray
      · refine htype ⟨.double, by decide, List.IsPrefix.trans ?_ hpre⟩
        rw [hne]
        decide
      · exact htype ⟨type, hne, hpre⟩
    by_cases hcommand : ∃ command : Command, command.Named word
    · obtain ⟨command, hnamed⟩ := hcommand
      rw [processCommand_of_named hnamed hnone]
      exact .command hnamed
    · rw [processCommand_unknown (not_exists.mp hcommand) hnone]
      exact .unknown (not_exists.mp hcommand) fun type hwritten =>
        hnone type (prefix_of_written hwritten)

/-- What a word means is a value only if its type is written and the longest. -/
theorem Means.of_value {flags : Flags} (h : Means word (.ok (.value type flags))) :
    (∀ command : Command, ¬command.Named word) ∧ Written type word ∧
      ∀ other, Written other word → other.name.length ≤ type.name.length := by
  cases h with
  | value hcommand hwritten hlongest => exact ⟨hcommand, hwritten, hlongest⟩

theorem fits_of_means (h : Means word (processCommand word)) : Fits word := by
  have hrun : ∀ type : ValueType, type ≠ .doubleArray → type.name <+: lower word →
      (∀ command : Command, ¬command.Named word) ∧ Written (branch type word) word ∧
        ∀ other, Written other word → other.name.length ≤ (branch type word).name.length := by
    intro type hne hpre
    rw [processCommand_of_type hpre hne] at h
    exact h.of_value
  have hbool : ValueType.bool.name <+: lower word → lower word = ValueType.bool.name := by
    intro hpre
    by_contra hname
    have honoff : branch .bool word = .onoff := if_neg hname
    have hwritten := (hrun .bool (by decide) hpre).2.1
    rw [honoff] at hwritten
    rcases types_of_word hpre (prefix_of_written hwritten) with heq | hboth | hboth
    · exact absurd heq (by decide)
    · exact absurd hboth.1 (by decide)
    · exact absurd hboth.1 (by decide)
  constructor
  · intro type hne hpre
    by_cases hshared : type = .bool
    · subst hshared
      exact .inl (hbool hpre)
    · have hwritten := (hrun type hne hpre).2.1
      cases type with
      | bool => exact absurd rfl hshared
      | doubleArray => exact absurd rfl hne
      | onoff =>
        by_cases hname : lower word = ValueType.bool.name
        · rw [hname] at hpre
          exact absurd hpre (by decide)
        · rwa [show branch .onoff word = .onoff from if_neg hname] at hwritten
      | double => exact hwritten
      | timevalue => exact hwritten
      | integer => exact hwritten
      | string => exact hwritten
      | stat => exact hwritten
  · intro harray
    have hpre : ValueType.double.name <+: lower word :=
      List.IsPrefix.trans (by decide) (prefix_of_written harray)
    have hlength : ValueType.doubleArray.name.length ≤ ValueType.double.name.length :=
      (hrun .double (by decide) hpre).2.2 _ harray
    exact absurd hlength (by decide)
  · intro hname
    have hpre : ValueType.stat.name <+: lower word := by
      rw [hname]
      decide
    have hnamed : Command.statAdd.Named word := hname
    exact (hrun .stat (by decide) hpre).1 _ hnamed
  · intro hpre
    have hname := hbool ((List.prefix_append _ _).trans hpre)
    rw [hname] at hpre
    exact absurd hpre (by decide)

/-- A word runs what it means, or raises the error if it means nothing, unless it begins with a
type in one of four ways. -/
theorem means_iff (word : List Char) : Means word (processCommand word) ↔ Fits word :=
  ⟨fits_of_means, Fits.means⟩

/-- `double_array` runs the branch of `double`. -/
theorem array_as_double : ¬∀ word, Means word (processCommand word) := by
  intro hall
  have hmeans := hall ValueType.doubleArray.name
  have hpre : ValueType.double.name <+: lower ValueType.doubleArray.name := by decide
  rw [processCommand_of_type hpre (by decide)] at hmeans
  have hlength : ValueType.doubleArray.name.length ≤ ValueType.double.name.length :=
    hmeans.of_value.2.2 .doubleArray (.inl (by decide))
  exact absurd hlength (by decide)

end Rts2.Script.Dispatch

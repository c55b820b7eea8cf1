import Mathlib.Data.List.Basic
import Mathlib.Data.List.InsertIdx
import Mathlib.Data.List.Perm.Basic
import Mathlib.Data.BitVec
import Rts2.Connection.Params
import Rts2.Lib.Run

/-! # The value list of a connection

The other side of a connection creates the values by `E` lines, gives the names of
selections by `F` lines, deletes values by `Z` lines and sends what they hold by `V`
lines. `info_time` is a second pointer into the list, to the value named `infotime`.
What a value holds, and how it is read from a line, is the business of its class. -/
namespace Rts2.ValueList

open Rts2.Lib Rts2.Connection

/-! ## Types and names -/

/-- `rts2Type`: the flags, and in the lower bits the type. -/
abbrev ValueType := BitVec 32

def valueMask : ValueType := 0x0000007f#32
def baseType : ValueType := 0x0000000f#32
def extType : ValueType := 0x00000070#32
def valueFits : ValueType := 0x00000100#32
def valueSelection : ValueType := 0x00000007#32

/-- The flags `Value::setValueFlags` takes over: `RTS2_TYPE_MASK`, `RTS2_VWHEN_MASK`,
`RTS2_VWHEN_RECORD_CHANGE`, `RTS2_VALUE_DEVPREFIX`, `RTS2_VALUE_DEBUG`,
`RTS2_FITS_HEADERS`, `RTS2_VALUE_WRITABLE`, `RTS2_VALUE_NOTNULL`, `RTS2_VALUE_ERRORMASK`
and `RTS2_VALUE_AUTOSAVE`. -/
def flagsMask : ValueType := 0x3afffa80#32

def tolower (b : Byte) : Byte := if 65 ≤ b ∧ b ≤ 90 then b + 32 else b

/-- `strcasecmp (a, b) == 0`. -/
def SameName (a b : List Byte) : Prop := a.map tolower = b.map tolower

instance (a b : List Byte) : Decidable (SameName a b) :=
  inferInstanceAs (Decidable (_ = _))

/-- `RTS2_VALUE_INFOTIME`, "infotime". -/
def infotime : List Byte := [105, 110, 102, 111, 116, 105, 109, 101]

/-- What comes of the `switch` of `metaInfo` over a type: a value of a class, which sets
its type, no value, or the end of the program. -/
inductive Created where
  | value (rts2Type : ValueType)
  | null
  | exit
  deriving DecidableEq

/-- The flags of a value just constructed. -/
def constructed (rts2Type : ValueType) : ValueType :=
  (rts2Type &&& valueFits) ||| (rts2Type &&& flagsMask)

/-- `newValue`. -/
def newValue (rts2Type : ValueType) : Created :=
  let base := rts2Type &&& baseType
  if base ∈ [1#32, 2#32, 3#32, 4#32, 5#32, 6#32, 7#32, 8#32, 9#32, 10#32, 11#32] then
    .value (constructed rts2Type ||| base)
  else .null

/-- The `switch` of `Connection::metaInfo`. -/
def newMetaValue (rts2Type : ValueType) : Created :=
  let base := rts2Type &&& baseType
  let ext := rts2Type &&& extType
  if ext = 0 then newValue rts2Type
  else if ext = 0x10#32 then .value (constructed rts2Type ||| 0x14#32)
  else if ext = 0x20#32 then
    if base ∈ [4#32, 2#32] then .value (constructed rts2Type ||| 0x20#32 ||| base) else .exit
  else if ext = 0x30#32 then .value (0x30#32 ||| rts2Type)
  else if ext = 0x40#32 then
    if base ∈ [1#32, 4#32, 3#32, 2#32, 6#32] then
      .value (constructed rts2Type ||| 0x40#32 ||| base)
    else .exit
  else if ext = 0x70#32 then .value (constructed rts2Type ||| 0x74#32)
  else .null

/-! ## The list -/

/-- A value; `address` tells the objects apart, `selVals` are the names of a selection. -/
structure Value (C : Type*) where
  address : Nat
  name : List Byte
  rts2Type : ValueType
  description : List Byte
  selVals : List (List Byte)
  content : C

namespace Value
variable {C : Type*}

/-- `Value::isValue`. -/
def isValue (v : Value C) (name : List Byte) : Bool := SameName name v.name

def getValueType (v : Value C) : ValueType := v.rts2Type &&& valueMask

/-- `Value::setFlags`. -/
def setFlags (v : Value C) (nflags : ValueType) : Value C :=
  { v with rts2Type := (nflags &&& ~~~valueMask) ||| (v.rts2Type &&& valueMask) }

end Value

/-- The classes of values: what a new value holds, and `setValue` of what follows the name
in a `V` line. -/
structure Classes (C : Type*) where
  init : ValueType → C
  setValue : ValueType → C → List Byte → C

/-- What `Connection` keeps of values. `allocated` counts the values made so far, `exited`
says that `exit` was called. -/
structure Connection (C : Type*) where
  values : List (Value C) := []
  info_time : Option Nat := none
  allocated : Nat := 0
  exited : Bool := false

namespace Connection
variable {C : Type*} (classes : Classes C)

/-- `ValueVector::getValueIterator`, the size of the list where it ends. -/
def getValueIterator (conn : Connection C) (name : List Byte) : Nat :=
  conn.values.findIdx fun v => v.isValue name

/-- `ValueVector::getValue`. -/
def getValue (conn : Connection C) (name : List Byte) : Option (Value C) :=
  conn.values[conn.getValueIterator name]?

/-- `ValueVector::removeValue`: the iterator it returns is the one it found. -/
def removeValue (conn : Connection C) (name : List Byte) : Connection C :=
  { conn with values := conn.values.eraseIdx (conn.getValueIterator name) }

/-- `Connection::addValue`. -/
def addValue (conn : Connection C) (value : Value C) (eiter : Nat) : Connection C :=
  { conn with
    info_time := if value.isValue infotime then some value.address else conn.info_time
    values := conn.values.insertIdx eiter value }

/-- A value is made and put into the list. -/
def createValue (conn : Connection C) (rts2Type : ValueType) (name desc : List Byte) (eiter : Nat) :
    Int × Connection C :=
  match newMetaValue rts2Type with
  | .null => (-2, conn)
  | .exit => (-1, { conn with exited := true })
  | .value type =>
    let value : Value C := {
      address := conn.allocated, name, rts2Type := type, description := desc
      selVals := [], content := classes.init type }
    (-1, { conn with allocated := conn.allocated + 1 }.addValue value eiter)

/-- `Connection::metaInfo`. -/
def metaInfo (conn : Connection C) (rts2Type : ValueType) (name desc : List Byte) :
    Int × Connection C :=
  let i := conn.getValueIterator name
  match conn.values[i]? with
  | some existing =>
    if existing.getValueType = rts2Type &&& valueMask then
      let value := { existing.setFlags rts2Type with description := desc }
      (-1, { conn with values := conn.values.set i value })
    else (conn.removeValue name).createValue classes rts2Type name desc i
  | none => conn.createValue classes rts2Type name desc conn.values.length

/-- `Connection::selMetaClear` and `Connection::selMetaInfo`. -/
def selMeta (conn : Connection C) (name : List Byte)
    (change : List (List Byte) → List (List Byte)) : Int × Connection C :=
  let i := conn.getValueIterator name
  match conn.values[i]? with
  | none => (-2, conn)
  | some val =>
    if val.getValueType ≠ valueSelection then (-2, conn)
    else
      let value := { val with selVals := change val.selVals }
      (-1, { conn with values := conn.values.set i value })

def selMetaClear (conn : Connection C) (name : List Byte) : Int × Connection C :=
  conn.selMeta name fun _ => []

def selMetaInfo (conn : Connection C) (name sel_name : List Byte) : Int × Connection C :=
  conn.selMeta name fun selVals => selVals ++ [sel_name]

/-- The `Z` line. -/
def deleteValue (conn : Connection C) (name : List Byte) : Int × Connection C :=
  match conn.getValue name with
  | some _ => (-1, conn.removeValue name)
  | none => (-2, conn)

/-- `Connection::commandValue`. -/
def commandValue (conn : Connection C) (name : List Byte) (params : List Byte) : Connection C :=
  let i := conn.getValueIterator name
  match conn.values[i]? with
  | none => conn
  | some value =>
    let value := { value with content := classes.setValue value.rts2Type value.content params }
    { conn with values := conn.values.set i value }

end Connection

/-! ## Lines -/

/-- What a line asks for; `malformed` is a line with the wrong parameters, or one that
has nothing to do with the list. -/
inductive Request where
  | metaInfo (rts2Type : ValueType) (name desc : List Byte)
  | delete (name : List Byte)
  | value (name params : List Byte)
  | selMetaClear (name : List Byte)
  | selMetaInfo (name sel_name : List Byte)
  | malformed
  deriving DecidableEq

/-- `E`: a type, a name and a description. -/
def readMetaInfo (params : List Byte) : Request :=
  match paramNextInteger params with
  | none => .malformed
  | some (m_type, params) =>
    match paramNextString params [] with
    | none => .malformed
    | some (m_name, params) =>
      match paramNextString params [] with
      | none => .malformed
      | some (m_descr, params) =>
        if paramEnd params then .metaInfo (.ofInt 32 m_type) m_name m_descr else .malformed

/-- `Z`: a name. -/
def readDelete (params : List Byte) : Request :=
  match paramNextString params [] with
  | none => .malformed
  | some (m_name, params) => if paramEnd params then .delete m_name else .malformed

/-- `V`: a name, the rest is read by the value. -/
def readValue (params : List Byte) : Request :=
  match paramNextString params [] with
  | none => .malformed
  | some (m_name, params) => .value m_name params

/-- `F`: a name, and one more if the selection is not to be cleared. -/
def readSelMetaInfo (params : List Byte) : Request :=
  match paramNextString params [] with
  | none => .malformed
  | some (m_name, params) =>
    if paramEnd params then .selMetaClear m_name
    else match paramNextString params [] with
      | none => .malformed
      | some (sel_name, params) =>
        if paramEnd params then .selMetaInfo m_name sel_name else .malformed

/-- The part of `Connection::processLine` that reads the lines about the list. -/
def readLine (line : List Byte) : Request :=
  let params := (line.dropWhile (!isspace ·)).drop 1
  match line.takeWhile (!isspace ·) with
  | [69] => readMetaInfo params
  | [90] => readDelete params
  | [86] => readValue params
  | [70] => readSelMetaInfo params
  | _ => .malformed

variable {C : Type*}

/-- A line is received. -/
def processLine (classes : Classes C) (conn : Connection C) (line : List Byte) : Connection C :=
  if conn.exited then conn
  else match readLine line with
    | .metaInfo type name desc => (conn.metaInfo classes type name desc).2
    | .delete name => (conn.deleteValue name).2
    | .value name params => conn.commandValue classes name params
    | .selMetaClear name => (conn.selMetaClear name).2
    | .selMetaInfo name sel_name => (conn.selMetaInfo name sel_name).2
    | .malformed => conn

/-- The value `infotime` is not deleted, and not replaced by a value of a type that is not
known. -/
def KeepsInfoTime (conn : Connection C) (line : List Byte) : Prop :=
  match readLine line with
  | .metaInfo type name _ => SameName name infotime → ∀ v ∈ conn.getValue name,
    v.getValueType = type &&& valueMask ∨ newMetaValue type ≠ .null
  | .delete name => SameName name infotime → conn.getValue name = none
  | _ => True

instance (conn : Connection C) (line : List Byte) : Decidable (KeepsInfoTime conn line) := by
  unfold KeepsInfoTime
  cases readLine line <;> infer_instance

/-! ## What holds of the list -/

/-- The name of a value as `strcasecmp` sees it. -/
def Value.key (v : Value C) : List Byte := v.name.map tolower

/-- What holds of the list between any two lines: no two values have the same name, and
`info_time` points to the value of its name. -/
structure Sound (conn : Connection C) : Prop where
  unique : (conn.values.map Value.key).Nodup
  listed : conn.exited = false → ∀ a, conn.info_time = some a →
    ∃ v ∈ conn.values, v.address = a ∧ v.isValue infotime = true

section
variable {conn : Connection C} {name : List Byte}

theorem isValue_iff {v : Value C} : v.isValue name = true ↔ v.key = name.map tolower := by
  rw [Value.isValue, decide_eq_true_iff]
  exact eq_comm

theorem iterator_some {v : Value C} (h : conn.values[conn.getValueIterator name]? = some v) :
    v.key = name.map tolower := by
  obtain ⟨hlt, hv⟩ := List.getElem?_eq_some_iff.1 h
  rw [← hv]
  exact isValue_iff.1 (List.findIdx_getElem (w := hlt))

theorem iterator_none (h : conn.values[conn.getValueIterator name]? = none) :
    name.map tolower ∉ conn.values.map Value.key := by
  intro hmem
  obtain ⟨v, hv, hkey⟩ := List.mem_map.1 hmem
  have hlt : conn.getValueIterator name < conn.values.length :=
    List.findIdx_lt_length_of_exists ⟨v, hv, isValue_iff.2 hkey⟩
  rw [List.getElem?_eq_none_iff] at h
  exact absurd hlt (Nat.not_lt.2 h)

/-- A value is changed in its place: its name and address stay. -/
theorem Sound.set (h : Sound conn) {i : Nat} {v v' : Value C} (hv : conn.values[i]? = some v)
    (haddress : v'.address = v.address) (hname : v'.name = v.name) :
    Sound { conn with values := conn.values.set i v' } := by
  obtain ⟨hlt, hget⟩ := List.getElem?_eq_some_iff.1 hv
  constructor
  · have hlt' : i < (conn.values.map Value.key).length := by simpa using hlt
    have hkey : v'.key = (conn.values.map Value.key)[i] := by
      simp [Value.key, hname, ← hget]
    rw [List.map_set, hkey, List.set_getElem_self]
    exact h.unique
  · intro hrunning a ha
    obtain ⟨w, hw, hwa, hwname⟩ := h.listed hrunning a ha
    obtain ⟨j, hj, rfl⟩ := List.mem_iff_getElem.1 hw
    by_cases hij : i = j
    · subst hij
      refine ⟨v', List.mem_set hlt v', ?_, ?_⟩
      · rw [haddress, ← hget, hwa]
      · rw [Value.isValue, hname, ← hget]
        exact hwname
    · refine ⟨conn.values[j], ?_, hwa, hwname⟩
      rw [List.mem_iff_getElem?]
      exact ⟨j, by rw [List.getElem?_set_ne hij, List.getElem?_eq_getElem hj]⟩

/-- A value is removed that is not the one `info_time` points to. -/
theorem Sound.removeValue (h : Sound conn) (hname : ¬ SameName name infotime) :
    Sound (conn.removeValue name) := by
  constructor
  · rw [Connection.removeValue, ← List.eraseIdx_map]
    exact h.unique.sublist (List.eraseIdx_sublist _ _)
  · intro hrunning a ha
    obtain ⟨v, hv, hva, hvname⟩ := h.listed hrunning a ha
    refine ⟨v, ?_, hva, hvname⟩
    obtain ⟨j, hj, rfl⟩ := List.mem_iff_getElem.1 hv
    refine List.mem_eraseIdx_iff_getElem.2 ⟨j, hj, ?_, rfl⟩
    intro hji
    have hget : conn.values[conn.getValueIterator name]? = some conn.values[j] := by
      rw [← hji, List.getElem?_eq_getElem hj]
    have hkey := iterator_some hget
    exact hname (hkey.symm.trans (isValue_iff.1 hvname))

/-- A value of a new name is made: it takes the place `info_time` points to if it is named
`infotime`. -/
theorem sound_createValue (classes : Classes C) {type : ValueType} {desc : List Byte} {i : Nat}
    (hunique : (conn.values.map Value.key).Nodup)
    (hnew : name.map tolower ∉ conn.values.map Value.key) (hi : i ≤ conn.values.length)
    (hlisted : ¬ SameName name infotime ∨ newMetaValue type = .null → Sound conn) :
    Sound (conn.createValue classes type name desc i).2 := by
  unfold Connection.createValue
  cases hcreated : newMetaValue type with
  | null => exact hlisted (Or.inr hcreated)
  | exit => exact ⟨hunique, nofun⟩
  | value type' =>
    dsimp only [Connection.addValue]
    constructor
    · have hperm := (List.perm_insertIdx ({
        address := conn.allocated, name, rts2Type := type', description := desc
        selVals := [], content := classes.init type' } : Value C) conn.values hi).map Value.key
      rw [hperm.nodup_iff, List.map_cons, List.nodup_cons]
      exact ⟨hnew, hunique⟩
    · intro hrunning a ha
      split at ha
      next hinfo =>
        refine ⟨_, List.mem_insertIdx hi |>.2 (Or.inl rfl), ?_, hinfo⟩
        exact Option.some.inj ha
      next hinfo =>
        have hother : ¬ SameName name infotime := by
          intro hsame
          exact hinfo (by simpa [Value.isValue, SameName, eq_comm] using hsame)
        obtain ⟨v, hv, hva⟩ := (hlisted (Or.inl hother)).listed hrunning a ha
        exact ⟨v, List.mem_insertIdx hi |>.2 (Or.inr hv), hva⟩

theorem Sound.metaInfo (h : Sound conn) (classes : Classes C) {type : ValueType}
    {desc : List Byte} (hkeeps : SameName name infotime → ∀ v ∈ conn.getValue name,
      v.getValueType = type &&& valueMask ∨ newMetaValue type ≠ .null) :
    Sound (conn.metaInfo classes type name desc).2 := by
  unfold Connection.metaInfo
  dsimp only
  cases hget : conn.values[conn.getValueIterator name]? with
  | none =>
    exact sound_createValue classes h.unique (iterator_none hget) (le_refl _) fun _ => h
  | some v =>
    obtain ⟨hlt, hv⟩ := List.getElem?_eq_some_iff.1 hget
    by_cases htype : v.getValueType = type &&& valueMask
    · simp only [htype, if_true]
      exact h.set hget rfl rfl
    · simp only [htype, if_false]
      have hperm := (List.getElem_cons_eraseIdx_perm hlt).map Value.key
      have hnodup := hperm.nodup_iff.2 h.unique
      rw [List.map_cons, List.nodup_cons, hv, iterator_some hget] at hnodup
      refine sound_createValue classes hnodup.2 hnodup.1 ?_ fun hcase => ?_
      · rw [Connection.removeValue, List.length_eraseIdx_of_lt hlt]
        omega
      · rcases hcase with hother | hnull
        · exact h.removeValue hother
        · refine h.removeValue fun hinfo => ?_
          exact (hkeeps hinfo v hget).elim htype fun hne => hne hnull

theorem Sound.selMeta (h : Sound conn) (change : List (List Byte) → List (List Byte)) :
    Sound (conn.selMeta name change).2 := by
  unfold Connection.selMeta
  dsimp only
  cases hget : conn.values[conn.getValueIterator name]? with
  | none => exact h
  | some v =>
    by_cases htype : v.getValueType = valueSelection
    · simp only [htype, ne_eq, not_true_eq_false, if_false]
      exact h.set hget rfl rfl
    · simpa only [htype, ne_eq, not_false_eq_true, if_true] using h

theorem Sound.deleteValue (h : Sound conn)
    (hkeeps : SameName name infotime → conn.getValue name = none) :
    Sound (conn.deleteValue name).2 := by
  unfold Connection.deleteValue
  cases hget : conn.getValue name with
  | none => exact h
  | some v =>
    refine h.removeValue fun hinfo => ?_
    rw [hkeeps hinfo] at hget
    cases hget

theorem Sound.commandValue (h : Sound conn) (classes : Classes C) (params : List Byte) :
    Sound (conn.commandValue classes name params) := by
  unfold Connection.commandValue
  dsimp only
  cases hget : conn.values[conn.getValueIterator name]? with
  | none => exact h
  | some v => exact h.set hget rfl rfl

/-- **Every line keeps the list sound**, if it keeps `infotime`. -/
theorem Sound.processLine (h : Sound conn) (classes : Classes C) {line : List Byte}
    (hkeeps : KeepsInfoTime conn line) : Sound (processLine classes conn line) := by
  unfold ValueList.processLine
  unfold KeepsInfoTime at hkeeps
  split
  · exact h
  · cases hline : readLine line with
    | metaInfo type name desc =>
      rw [hline] at hkeeps
      exact h.metaInfo classes hkeeps
    | delete name =>
      rw [hline] at hkeeps
      exact h.deleteValue hkeeps
    | value name params => exact h.commandValue classes params
    | selMetaClear name => exact h.selMeta _
    | selMetaInfo name sel_name => exact h.selMeta _
    | malformed => exact h

theorem processLine_value (classes : Classes C) {line params : List Byte}
    (hrunning : conn.exited = false) (hline : readLine line = .value name params) :
    processLine classes conn line = conn.commandValue classes name params := by
  simp [processLine, hrunning, hline]

/-- A `V` line changes the value of its name and no other. -/
theorem Sound.commandValue_values (h : Sound conn) (classes : Classes C) (name params : List Byte) :
    (conn.commandValue classes name params).values = conn.values.map fun v =>
      if SameName name v.name then
        { v with content := classes.setValue v.rts2Type v.content params }
      else v := by
  have hcases : ∀ v : Value C, SameName name v.name ↔ v.key = name.map tolower := fun v => eq_comm
  unfold Connection.commandValue
  dsimp only
  cases hget : conn.values[conn.getValueIterator name]? with
  | none =>
    have hnone := iterator_none hget
    symm
    refine (List.map_congr_left fun v hv => ?_).trans (List.map_id _)
    rw [if_neg]
    · rfl
    · intro hsame
      exact hnone (List.mem_map.2 ⟨v, hv, (hcases v).1 hsame⟩)
  | some v =>
    obtain ⟨hlt, hv⟩ := List.getElem?_eq_some_iff.1 hget
    have hkey := iterator_some hget
    refine List.ext_getElem (by simp) fun j hj _ => ?_
    rw [List.length_set] at hj
    rw [List.getElem_set, List.getElem_map]
    by_cases hij : conn.getValueIterator name = j
    · subst hij
      rw [if_pos rfl, hv, if_pos ((hcases v).2 hkey)]
    · rw [if_neg hij, if_neg]
      intro hsame
      -- another value of that name
      have hi' : conn.getValueIterator name < (conn.values.map Value.key).length := by
        simpa using hlt
      have hj' : j < (conn.values.map Value.key).length := by simpa using hj
      have heq : (conn.values.map Value.key)[conn.getValueIterator name] =
          (conn.values.map Value.key)[j] := by
        rw [List.getElem_map, List.getElem_map, hv, hkey, (hcases _).1 hsame]
      exact hij (h.unique.getElem_inj_iff.1 heq)

end

/-- **The value list is right** after any lines that keep `infotime`: no two values have
the same name, `info_time` points into the list, and each `V` line changes what the value
of its name holds, and nothing else in the list. -/
theorem value_list_right (classes : Classes C) {lines : List (List Byte)}
    (h : Along (processLine classes) KeepsInfoTime {} lines) :
    ((run (processLine classes) {} lines).values.Pairwise fun v w => ¬ SameName v.name w.name) ∧
    ((run (processLine classes) {} lines).exited = false →
      ∀ a, (run (processLine classes) {} lines).info_time = some a →
        ∃ v ∈ (run (processLine classes) {} lines).values, v.address = a) ∧
    ∀ before line after, lines = before ++ line :: after → ∀ name params,
      readLine line = .value name params → (run (processLine classes) {} before).exited = false →
      (run (processLine classes) {} (before ++ [line])).values =
        (run (processLine classes) {} before).values.map fun v =>
          if SameName name v.name then
            { v with content := classes.setValue v.rts2Type v.content params }
          else v := by
  have hstart : Sound ({} : Connection C) := ⟨List.nodup_nil, nofun⟩
  have hstep : ∀ (conn : Connection C) line, Sound conn → KeepsInfoTime conn line →
      Sound (processLine classes conn line) := fun conn line hs hk => hs.processLine classes hk
  have hsound := h.invariant hstart hstep
  refine ⟨List.pairwise_map.1 hsound.unique, ?_, ?_⟩
  · intro hrunning a ha
    obtain ⟨v, hv, hva, _⟩ := hsound.listed hrunning a ha
    exact ⟨v, hv, hva⟩
  · rintro before line after rfl name params hline hrunning
    rw [along_append] at h
    have hbefore := h.1.invariant hstart hstep
    rw [run_append, run_cons, run_nil]
    rw [processLine_value classes hrunning hline]
    exact hbefore.commandValue_values classes name params

/-- Values whose class keeps what it is sent. -/
def echo : Classes (List Byte) where
  init _ := []
  setValue _ _ params := params

/-- `E 3 infotime t`, `E 4 T t`, `V t 7` and `Z T`. -/
theorem value_list_right_four :
    (run (processLine echo) {} [[69, 32, 51, 32, 105, 110, 102, 111, 116, 105, 109, 101, 32, 116],
      [69, 32, 52, 32, 84, 32, 116],
      [86, 32, 116, 32, 55],
      [90, 32, 84]]).values.Pairwise
      fun v w => ¬ SameName v.name w.name := by
  have h : Along (processLine echo) KeepsInfoTime {} [[69, 32, 51, 32, 105, 110, 102, 111, 116, 105, 109, 101, 32, 116],
      [69, 32, 52, 32, 84, 32, 116],
      [86, 32, 116, 32, 55],
      [90, 32, 84]] := by
    decide
  exact (value_list_right echo h).1

/-- `E 3 infotime t` and `Z infotime`: the value is deleted, and `info_time` still points
to it. -/
theorem deleted_infotime_dangles :
    (run (processLine echo) {} [[69, 32, 51, 32, 105, 110, 102, 111, 116, 105, 109, 101, 32, 116],
      [90, 32, 105, 110, 102, 111, 116, 105, 109, 101]]).info_time = some 0 ∧
    (run (processLine echo) {} [[69, 32, 51, 32, 105, 110, 102, 111, 116, 105, 109, 101, 32, 116],
      [90, 32, 105, 110, 102, 111, 116, 105, 109, 101]]).values.map Value.address = [] := by
  decide

end Rts2.ValueList

import Mathlib.Logic.Function.Basic
import Rts2.Daemon.SetValue
import Rts2.Status

/-! # Requests that are refused

An `X` line asks a daemon to change a value. `Daemon::setValue` finds the value, makes a
new one from the line and hands it to `setCondValue`. A new value of the mode selection
sets the values listed in a section of the mode file, one after the other, by the same
functions. What the classes of values do is a parameter. -/
namespace Rts2.Modes

open Rts2.Daemon

/-- A line of a section of the mode file. -/
structure Entry where
  valueName : List Char
  suffix : List Char
  value : List Char
  deriving DecidableEq

/-- A `ValueQue`. -/
structure ValueQue (K V : Type) where
  value : K
  operation : Char
  newValue : V
  deriving DecidableEq

/-- `strcasecmp (a, b) == 0`. -/
def sameText (a b : List Char) : Bool := a.map Char.toLower = b.map Char.toLower

/-- What the values of a daemon and the daemon's class do. `readValue` is
`duplicateValue` and `setValue` of the rest of the line, `readIndices` is `duplicateValue`
and `setValues` at the indices, `readText` is `duplicateValue` and `setValueCharArr`. The
driver may answer for a value before `Daemon::setValue` is asked. -/
structure Classes (K V : Type) where
  name : K → List Char
  isArray : K → Bool
  isMMax : K → Bool
  readValue : K → V → List Char → Except Int V
  parseRange : V → List Char → Except (List Char) (List Nat)
  readIndices : K → V → List Nat → List Char → Except Int V
  readText : K → V → List Char → Option V
  setMin : V → List Char → V
  setMax : V → List Char → V
  getValueInteger : V → Int
  driver : K → V → V → Option Int

/-- A daemon: its values with their state conditions, its state, the queued changes and
the modes. -/
structure Daemon (K V : Type) where
  values : List K
  value : K → V
  writable : K → Bool
  stateCondition : K → Status
  state : Status
  queValues : List (ValueQue K V)
  modesel : Option K
  modeconf : List (List Entry)

variable {K V : Type} [DecidableEq K] [ValueOps V] (c : Classes K V)

/-- How `setMode` of a mode ends. Sections may set the mode themselves, so that it is a
parameter of the functions it calls; `none` is a recursion that does not end. -/
abbrev SetMode (K V : Type) := Int → Daemon K V → Option (Int × Daemon K V)

namespace Daemon

def set (s : Daemon K V) (k : K) (v : V) : Daemon K V :=
  { s with value := Function.update s.value k v }

/-- `Daemon::getCondValue`. -/
def getCondValue (s : Daemon K V) (v_name : List Char) : Option K :=
  s.values.find? fun k => sameText v_name (c.name k)

/-- `Daemon::queValueChange`. -/
def queValueChange (s : Daemon K V) (k : K) : Bool := s.stateCondition k &&& s.state ≠ 0

/-! ## Setting a value -/

/-- `Daemon::setValue`, with what the driver makes of it. -/
def setValue (mode : SetMode K V) (s : Daemon K V) (k : K) (newValue : V) :
    Option (Int × Daemon K V) :=
  match c.driver k (s.value k) newValue with
  | some ret => some (ret, s)
  | none =>
    if s.modesel = some k then
      (mode (c.getValueInteger newValue) s).map fun (r : Int × Daemon K V) =>
        (if r.1 ≠ 0 then -2 else 0, r.2)
    else if s.writable k then some (0, s)
    else some (-2, s)

/-- `Daemon::doSetValue`. -/
def doSetValue (mode : SetMode K V) (s : Daemon K V) (k : K) (op : Char) (newValue : V) :
    Option (Int × Daemon K V) :=
  match ValueOps.doOpValue newValue op (s.value k) with
  | none => some (-2, s)
  | some newValue =>
    (s.setValue c mode k newValue).map fun (r : Int × Daemon K V) =>
      if r.1 < 0 then r
      else if r.1 = 0 ∧ ValueOps.isEqual (r.2.value k) newValue = false then
        (0, r.2.set k (ValueOps.setFromValue (r.2.value k) newValue))
      else (0, r.2)

/-- `Daemon::setCondValue`. -/
def setCondValue (mode : SetMode K V) (s : Daemon K V) (k : K) (op : Char) (newValue : V) :
    Option (Int × Daemon K V) :=
  if (op ≠ '=' ∨ ValueOps.isEqual (s.value k) newValue = false ∨
      s.queValues.any fun q => q.value = k) ∧ s.queValueChange k then
    some (-1, { s with queValues := s.queValues ++ [⟨k, op, newValue⟩] })
  else if op = '=' ∧ ValueOps.isEqual (s.value k) newValue then some (0, s)
  else s.doSetValue c mode k op newValue

/-- `Daemon::setInitValue`: a value that is not writable is made so meanwhile. -/
def setInitValue (mode : SetMode K V) (s : Daemon K V) (k : K) (newValue : V) :
    Option (Int × Daemon K V) :=
  if s.writable k = false then
    ({ s with writable := Function.update s.writable k true }.setCondValue c mode k '='
      newValue).map fun (r : Int × Daemon K V) =>
        (r.1, { r.2 with writable := Function.update r.2.writable k false })
  else s.setCondValue c mode k '=' newValue

/-! ## Modes -/

/-- A turn of the loop of `Daemon::setSectionValues`: whether the entry was taken. -/
def setEntry (mode : SetMode K V) (use_extenstions : Bool) (s : Daemon K V) (e : Entry) :
    Option (Bool × Daemon K V) :=
  match s.getCondValue c e.valueName with
  | none => some (false, s)
  | some k =>
    if e.suffix.length > 0 ∧ use_extenstions then
      if c.isMMax k then
        if sameText e.suffix ['m', 'i', 'n'] then
          some (true, s.set k (c.setMin (s.value k) e.value))
        else if sameText e.suffix ['m', 'a', 'x'] then
          some (true, s.set k (c.setMax (s.value k) e.value))
        else some (false, s)
      else some (false, s)
    else
      match c.readText k (s.value k) e.value with
      | none => some (false, s)
      | some newValue =>
        (s.setInitValue c mode k newValue).map fun (r : Int × Daemon K V) => (r.1 ≠ -2, r.2)

/-- `Daemon::setSectionValues`. -/
def setSectionValues (mode : SetMode K V) (use_extenstions : Bool) (s : Daemon K V) :
    List Entry → Option (Int × Daemon K V)
  | [] => some (0, s)
  | e :: rest =>
    match s.setEntry c mode use_extenstions e with
    | none => none
    | some (false, s) => some (-1, s)
    | some (true, s) => s.setSectionValues mode use_extenstions rest

/-- The section of a mode, if there is one. -/
def modeSection (s : Daemon K V) (new_mode : Int) : Option (List Entry) :=
  if s.modesel = none ∨ new_mode < 0 then none else s.modeconf[new_mode.toNat]?

/-- `Daemon::setMode`, for as many modes within each other as `fuel` says. -/
def setMode : Nat → SetMode K V
  | 0, _, _ => none
  | fuel + 1, new_mode, s =>
    match s.modeSection new_mode with
    | none => some (-1, s)
    | some sect => s.setSectionValues c (setMode fuel) true sect

end Daemon

/-! ## Requests -/

/-- An `X` line: the name of the value, the operator and what follows it. -/
structure Request where
  v_name : List Char
  op : Char
  params : List Char

/-- What is sent for a request besides its return code. -/
inductive CommandEnd where
  | none
  | system (text : String)
  | paramsVal (text : List Char)
  | qued
  deriving DecidableEq

structure Reply where
  ret : Int
  commandEnd : CommandEnd
  deriving DecidableEq

/-- The request was refused: it did not succeed and no change was queued. -/
def Reply.Refused (r : Reply) : Prop := r.ret ≠ 0 ∧ r.commandEnd ≠ .qued

/-- The name up to the last `_`, and what follows it. -/
def lastUnderscore (v_name : List Char) : Option (List Char × List Char) :=
  if '_' ∈ v_name then
    some ((v_name.reverse.dropWhile (· ≠ '_')).tail.reverse,
      (v_name.reverse.takeWhile (· ≠ '_')).reverse)
  else none

namespace Daemon

/-- The value a request names, with the index: `name[index]`, or `name_index` where no
value has the whole name. -/
def findValue (s : Daemon K V) (v_name : List Char) :
    Except Reply (Option K × Option (List Char)) :=
  if '[' ∈ v_name then
    if v_name.getLast? = some ']' then
      .ok (s.getCondValue c (v_name.takeWhile (· ≠ '[')),
        some ((v_name.dropWhile (· ≠ '[')).tail.dropLast))
    else .error ⟨-1, .system "missing ] for end of array index"⟩
  else match s.getCondValue c v_name with
    | some k => .ok (some k, none)
    | none => match lastUnderscore v_name with
      | none => .ok (none, none)
      | some (base, index) => match s.getCondValue c base with
        | some k => .ok (some k, some index)
        | none => .ok (none, none)

/-- The part of `Daemon::setValue` of a connection that makes the new value. -/
def readRequest (s : Daemon K V) (r : Request) : Except Reply (K × V) :=
  match s.findValue c r.v_name with
  | .error reply => .error reply
  | .ok (none, _) => .error ⟨-2, .none⟩
  | .ok (some k, ai) =>
    if s.writable k = false then .error ⟨-1, .system "cannot set read-only value"⟩
    else match ai with
      | none => match c.readValue k (s.value k) r.params with
        | .error ret => .error ⟨ret, .none⟩
        | .ok newValue => .ok (k, newValue)
      | some ai =>
        if c.isArray k = false then .error ⟨-1, .system "trying to index non-array value"⟩
        else match c.parseRange (s.value k) ai with
          | .error endp => .error ⟨-1, .paramsVal endp⟩
          | .ok indices => match c.readIndices k (s.value k) indices r.params with
            | .error ret => .error ⟨ret, .none⟩
            | .ok newValue => .ok (k, newValue)

/-- `Daemon::setValue` of a connection. -/
def request (fuel : Nat) (s : Daemon K V) (r : Request) : Option (Reply × Daemon K V) :=
  match s.readRequest c r with
  | .error reply => some (reply, s)
  | .ok (k, newValue) =>
    (s.setCondValue c (setMode c (fuel + 1)) k r.op newValue).map fun (res : Int × Daemon K V) =>
      (⟨res.1, if res.1 = -1 then .qued else .none⟩, res.2)

end Daemon

/-! ## What a refused request leaves -/

namespace Daemon

/-- The mode a new value asks for, where it comes to `setMode`. -/
def modeOfValue (s : Daemon K V) (k : K) (op : Char) (newValue : V) : Option Int :=
  if (op ≠ '=' ∨ ValueOps.isEqual (s.value k) newValue = false ∨
      s.queValues.any fun q => q.value = k) ∧ s.queValueChange k then none
  else if op = '=' ∧ ValueOps.isEqual (s.value k) newValue then none
  else match ValueOps.doOpValue newValue op (s.value k) with
    | none => none
    | some newValue =>
      if c.driver k (s.value k) newValue = none ∧ s.modesel = some k then
        some (c.getValueInteger newValue)
      else none

/-- The mode a request asks for. -/
def askedMode (s : Daemon K V) (r : Request) : Option Int :=
  match s.readRequest c r with
  | .error _ => none
  | .ok (k, newValue) => s.modeOfValue c k r.op newValue

/-- The entries were taken one after the other. -/
def Taken (mode : SetMode K V) : Daemon K V → List Entry → Daemon K V → Prop
  | s, [], t => t = s
  | s, e :: rest, t => ∃ u, s.setEntry c mode true e = some (true, u) ∧ Taken mode u rest t

/-- The entry sets the mode selection. -/
def SetsMode (s : Daemon K V) (e : Entry) : Prop :=
  ∃ k, s.getCondValue c e.valueName = some k ∧ s.modesel = some k

/-- When an entry of the section of the mode that is asked for is refused, the entries
before it have left everything as it was; where that entry sets the mode itself, so has
the other mode up to its own refusal. -/
def NothingSet (fuel : Nat) (s : Daemon K V) (r : Request) : Prop :=
  ∀ m sect, s.askedMode c r = some m → s.modeSection m = some sect →
    ∀ before e after t t', sect = before ++ e :: after → Taken c (setMode c fuel) s before t →
      t.setEntry c (setMode c fuel) true e = some (false, t') →
      (t.SetsMode c e → t' = s) ∧ (¬ t.SetsMode c e → t = s)

end Daemon

section
variable {c} {mode : SetMode K V} {s s' : Daemon K V}

omit [ValueOps V] in
theorem setValue_same {k : K} {newValue : V} {ret : Int}
    (hmode : ¬ (c.driver k (s.value k) newValue = none ∧ s.modesel = some k))
    (h : s.setValue c mode k newValue = some (ret, s')) : s' = s := by
  unfold Daemon.setValue at h
  cases hdriver : c.driver k (s.value k) newValue with
  | some r =>
    rw [hdriver] at h
    cases h
    rfl
  | none =>
    have hsel : s.modesel ≠ some k := fun hk => hmode ⟨hdriver, hk⟩
    simp only [hdriver, hsel, if_false] at h
    split at h <;> (cases h; rfl)

/-- A new value of the mode selection is set if the mode is. -/
theorem doSetValue_mode {k : K} {op : Char} {newValue new : V}
    (hop : ValueOps.doOpValue newValue op (s.value k) = some new)
    (hdriver : c.driver k (s.value k) new = none) (hsel : s.modesel = some k) :
    s.doSetValue c mode k op newValue =
      (mode (c.getValueInteger new) s).map fun (r : Int × Daemon K V) =>
        if r.1 ≠ 0 then (-2, r.2)
        else if ValueOps.isEqual (r.2.value k) new = false then
          (0, r.2.set k (ValueOps.setFromValue (r.2.value k) new))
        else (0, r.2) := by
  simp only [Daemon.doSetValue, Daemon.setValue, hop, hdriver, hsel, if_true, Option.map_map]
  congr 1
  funext r
  by_cases hret : r.1 = 0 <;> simp [hret]

theorem doSetValue_same {k : K} {op : Char} {newValue : V} {ret : Int}
    (hmode : ∀ new, ValueOps.doOpValue newValue op (s.value k) = some new →
      ¬ (c.driver k (s.value k) new = none ∧ s.modesel = some k))
    (h : s.doSetValue c mode k op newValue = some (ret, s')) :
    ret ≤ 0 ∧ (ret < 0 → s' = s) := by
  unfold Daemon.doSetValue at h
  cases hop : ValueOps.doOpValue newValue op (s.value k) with
  | none =>
    rw [hop] at h
    cases h
    exact ⟨by decide, fun _ => rfl⟩
  | some new =>
    rw [hop] at h
    obtain ⟨⟨r, t⟩, hset, hres⟩ := Option.map_eq_some_iff.1 h
    by_cases hr : r < 0
    · rw [if_pos hr] at hres
      cases hres
      exact ⟨le_of_lt hr, fun _ => setValue_same (hmode new hop) hset⟩
    · rw [if_neg hr] at hres
      split at hres <;> (cases hres; exact ⟨le_refl 0, fun hlt => absurd hlt (lt_irrefl 0)⟩)

/-- A new value that does not come to `setMode` leaves everything as it was, if it is
refused. -/
theorem setCondValue_same {k : K} {op : Char} {newValue : V} {ret : Int}
    (hmode : s.modeOfValue c k op newValue = none)
    (h : s.setCondValue c mode k op newValue = some (ret, s')) :
    ret ≤ 0 ∧ (ret < 0 → ret ≠ -1 → s' = s) := by
  unfold Daemon.setCondValue at h
  unfold Daemon.modeOfValue at hmode
  split at h
  next =>
    cases h
    exact ⟨by decide, fun _ hne => absurd rfl hne⟩
  next hque =>
    rw [if_neg hque] at hmode
    split at h
    next =>
      cases h
      exact ⟨le_refl 0, fun hlt => absurd hlt (lt_irrefl 0)⟩
    next hset =>
      rw [if_neg hset] at hmode
      obtain ⟨hle, hsame⟩ := doSetValue_same (fun new hop hboth => by
        rw [hop] at hmode
        simp only [hboth, and_self, if_true] at hmode
        cases hmode) h
      exact ⟨hle, fun hlt _ => hsame hlt⟩

/-- A new value that comes to `setMode` ends as the mode does. -/
theorem setCondValue_mode (mode : SetMode K V) {k : K} {op : Char} {newValue : V} {m : Int}
    (hmode : s.modeOfValue c k op newValue = some m) :
    s.modesel = some k ∧ ∃ new, s.setCondValue c mode k op newValue =
      (mode m s).map fun (r : Int × Daemon K V) =>
        if r.1 ≠ 0 then (-2, r.2)
        else if ValueOps.isEqual (r.2.value k) new = false then
          (0, r.2.set k (ValueOps.setFromValue (r.2.value k) new))
        else (0, r.2) := by
  unfold Daemon.modeOfValue at hmode
  unfold Daemon.setCondValue
  split at hmode
  next => cases hmode
  next hque =>
    rw [if_neg hque]
    split at hmode
    next => cases hmode
    next hset =>
      rw [if_neg hset]
      cases hop : ValueOps.doOpValue newValue op (s.value k) with
      | none =>
        rw [hop] at hmode
        cases hmode
      | some new =>
        rw [hop] at hmode
        dsimp only at hmode
        split at hmode
        next hboth =>
          cases hmode
          exact ⟨hboth.2, new, doSetValue_mode hop hboth.1 hboth.2⟩
        next => cases hmode

theorem modeOfValue_none {k : K} {op : Char} {newValue : V} (hsel : s.modesel ≠ some k) :
    s.modeOfValue c k op newValue = none := by
  unfold Daemon.modeOfValue
  split
  · rfl
  · split
    · rfl
    · cases ValueOps.doOpValue newValue op (s.value k) <;> simp [hsel]

theorem setInitValue_same {k : K} {newValue : V} {ret : Int} (hsel : s.modesel ≠ some k)
    (h : s.setInitValue c mode k newValue = some (ret, s')) (hlt : ret < 0) (hne : ret ≠ -1) :
    s' = s := by
  unfold Daemon.setInitValue at h
  split at h
  next hw =>
    obtain ⟨⟨ret', t⟩, hset, hres⟩ := Option.map_eq_some_iff.1 h
    simp only [Prod.mk.injEq] at hres
    obtain ⟨rfl, rfl⟩ := hres
    have hsel' : ({ s with writable := Function.update s.writable k true } :
        Daemon K V).modesel ≠ some k := hsel
    have ht := (setCondValue_same (modeOfValue_none hsel') hset).2 hlt hne
    have hback : Function.update s.writable k false = s.writable := by
      rw [← hw, Function.update_eq_self]
    rw [ht, Function.update_idem, hback]
  next => exact (setCondValue_same (modeOfValue_none hsel) h).2 hlt hne

/-- An entry that is refused changes nothing, unless it sets the mode. -/
theorem setEntry_refused {e : Entry} (hmode : ¬ s.SetsMode c e)
    (h : s.setEntry c mode true e = some (false, s')) : s' = s := by
  unfold Daemon.setEntry at h
  cases hk : s.getCondValue c e.valueName with
  | none =>
    rw [hk] at h
    cases h
    rfl
  | some k =>
    have hsel : s.modesel ≠ some k := fun hk' => hmode ⟨k, hk, hk'⟩
    rw [hk] at h
    dsimp only at h
    split at h
    · split at h
      · split at h
        · cases h
        · split at h <;> (cases h; try rfl)
      · cases h
        rfl
    · cases hread : c.readText k (s.value k) e.value with
      | none =>
        rw [hread] at h
        cases h
        rfl
      | some newValue =>
        rw [hread] at h
        obtain ⟨⟨ret, t⟩, hinit, hres⟩ := Option.map_eq_some_iff.1 h
        simp only [Prod.mk.injEq, decide_eq_false_iff_not, not_not] at hres
        obtain ⟨rfl, rfl⟩ := hres
        exact setInitValue_same hsel hinit (by decide) (by decide)

/-! ## Sections -/

/-- A section is set if all its entries are taken. -/
theorem setSectionValues_taken {sect : List Entry} :
    s.setSectionValues c mode true sect = some (0, s') ↔ s.Taken c mode sect s' := by
  induction sect generalizing s with
  | nil => simp [Daemon.setSectionValues, Daemon.Taken, eq_comm]
  | cons e rest ih =>
    rw [Daemon.setSectionValues, Daemon.Taken]
    cases hentry : s.setEntry c mode true e with
    | none => simp
    | some res =>
      obtain ⟨taken, u⟩ := res
      cases taken with
      | false => simp
      | true => simp [ih]

/-- A section is refused with what the first entry refused leaves. -/
theorem setSectionValues_refused {sect : List Entry} {ret : Int} (hret : ret ≠ 0) :
    s.setSectionValues c mode true sect = some (ret, s') ↔
      ret = -1 ∧ ∃ before e after t, sect = before ++ e :: after ∧ s.Taken c mode before t ∧
        t.setEntry c mode true e = some (false, s') := by
  induction sect generalizing s with
  | nil =>
    simp only [Daemon.setSectionValues, Option.some.injEq, Prod.mk.injEq]
    constructor
    · rintro ⟨h, _⟩
      exact absurd h.symm hret
    · rintro ⟨_, before, e, after, _, hnil, _⟩
      simp at hnil
  | cons e rest ih =>
    rw [Daemon.setSectionValues]
    constructor
    · intro h
      cases hentry : s.setEntry c mode true e with
      | none =>
        rw [hentry] at h
        cases h
      | some res =>
        obtain ⟨taken, u⟩ := res
        rw [hentry] at h
        cases taken with
        | false =>
          cases h
          exact ⟨rfl, [], e, rest, s, rfl, rfl, hentry⟩
        | true =>
          obtain ⟨hm, before, e', after, t, hsplit, htaken, hrefused⟩ := ih.1 h
          exact ⟨hm, e :: before, e', after, t, by rw [hsplit]; rfl, ⟨u, hentry, htaken⟩, hrefused⟩
    · rintro ⟨rfl, before, e', after, t, hsplit, htaken, hrefused⟩
      cases before with
      | nil =>
        obtain ⟨rfl, rfl⟩ : e = e' ∧ rest = after := by simpa using hsplit
        cases htaken
        rw [hrefused]
      | cons b before =>
        obtain ⟨rfl, rfl⟩ : e = b ∧ rest = before ++ e' :: after := by simpa using hsplit
        obtain ⟨u, hentry, htaken⟩ := htaken
        rw [hentry]
        exact ih.2 ⟨rfl, before, e', after, t, rfl, htaken, hrefused⟩

/-! ## Requests -/

theorem request_mode (fuel : Nat) {r : Request} {m : Int} (hasked : s.askedMode c r = some m) :
    ∃ k new, s.modesel = some k ∧ s.request c fuel r =
      (Daemon.setMode c (fuel + 1) m s).map fun (res : Int × Daemon K V) =>
        if res.1 ≠ 0 then (⟨-2, .none⟩, res.2)
        else if ValueOps.isEqual (res.2.value k) new = false then
          (⟨0, .none⟩, res.2.set k (ValueOps.setFromValue (res.2.value k) new))
        else (⟨0, .none⟩, res.2) := by
  unfold Daemon.askedMode at hasked
  cases hread : s.readRequest c r with
  | error reply =>
    rw [hread] at hasked
    cases hasked
  | ok kv =>
    obtain ⟨k, newValue⟩ := kv
    rw [hread] at hasked
    obtain ⟨hsel, new, hset⟩ := setCondValue_mode (Daemon.setMode c (fuel + 1)) hasked
    refine ⟨k, new, hsel, ?_⟩
    rw [Daemon.request, hread]
    dsimp only
    rw [hset, Option.map_map]
    congr 1
    funext res
    dsimp only [Function.comp]
    split_ifs <;> simp_all

/-- A request that asks for no mode leaves everything as it was, if it is refused. -/
theorem request_same {fuel : Nat} {r : Request} {reply : Reply} (hasked : s.askedMode c r = none)
    (h : s.request c fuel r = some (reply, s')) (hrefused : reply.Refused) : s' = s := by
  unfold Daemon.askedMode at hasked
  unfold Daemon.request at h
  cases hread : s.readRequest c r with
  | error reply' =>
    rw [hread] at h
    cases h
    rfl
  | ok kv =>
    obtain ⟨k, newValue⟩ := kv
    rw [hread] at hasked h
    obtain ⟨⟨ret, t⟩, hset, hres⟩ := Option.map_eq_some_iff.1 h
    obtain ⟨hle, hsame⟩ := setCondValue_same hasked hset
    cases hres
    obtain ⟨hne, hqued⟩ := hrefused
    refine hsame (lt_of_le_of_ne hle hne) fun hm => ?_
    exact hqued (by simp [hm])

end

/-- A `ValueInteger`, or a selection. -/
structure ValueInteger where
  value : Int
  deriving DecidableEq, Repr

instance : ValueOps ValueInteger where
  doOpValue new op old :=
    if op = '+' then some ⟨old.value + new.value⟩
    else if op = '-' then some ⟨old.value - new.value⟩
    else if op = '=' then some new
    else none
  isEqual old new := old = new
  setFromValue _ new := new
  doOpValue_assign := by simp

/-- The two values of a daemon with a mode selection. -/
inductive Name where
  | mode
  | gain
  deriving DecidableEq, Repr

/-- A digit as a value. -/
def readDigit : List Char → Option ValueInteger
  | [d] => if d.isDigit then some ⟨d.toNat - 48⟩ else none
  | _ => none

def twoValues : Classes Name ValueInteger where
  name
    | .mode => ['M', 'O', 'D', 'E']
    | .gain => ['g', 'a', 'i', 'n']
  isArray _ := false
  isMMax _ := false
  readValue _ _ params := match readDigit params with
    | some v => .ok v
    | none => .error (-2)
  parseRange _ ai := .error ai
  readIndices _ _ _ _ := .error (-2)
  readText _ _ text := readDigit text
  setMin v _ := v
  setMax v _ := v
  getValueInteger v := v.value
  driver _ _ _ := none

/-- The second mode sets `gain` and a value that does not exist. -/
def misspelt : Daemon Name ValueInteger where
  values := [.mode, .gain]
  value _ := ⟨0⟩
  writable _ := true
  stateCondition _ := 0
  state := 0
  queValues := []
  modesel := some .mode
  modeconf := [[], [⟨['g', 'a', 'i', 'n'], [], ['5']⟩, ⟨['g', 'i', 'a', 'n'], [], ['5']⟩]]

end Rts2.Modes

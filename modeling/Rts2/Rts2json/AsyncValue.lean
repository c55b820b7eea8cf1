import Mathlib.Data.List.Basic
import Mathlib.Data.Rat.Defs
import Mathlib.Tactic.Common
import Rts2.Lib.Run

/-! # Values and states pushed to a client

`AsyncValueAPI` sends a client what it subscribed to: all at once first, then each change. Devices
are known by their names; the central server is `centrald`, whatever its connection is called. -/
namespace Rts2.Rts2json.AsyncValue
open Rts2.Lib

abbrev Name := List Char

/-- `"centrald"` -/
def centrald : Name := ['c', 'e', 'n', 't', 'r', 'a', 'l', 'd']

/-- `isValue`: names of values are compared without their case. -/
def isValue (a b : Name) : Bool := a.map Char.toLower = b.map Char.toLower

theorem isValue_iff {a b : Name} : isValue a b = true ↔ a.map Char.toLower = b.map Char.toLower :=
  decide_eq_true_iff

theorem isValue_refl (a : Name) : isValue a a = true := isValue_iff.mpr rfl

theorem isValue_comm {a b : Name} : isValue a b = isValue b a := by
  unfold isValue
  exact decide_eq_decide.mpr eq_comm

theorem isValue_congr {a b c : Name} (h : isValue a b = true) : isValue a c = isValue b c := by
  unfold isValue
  rw [isValue_iff.mp h]

/-! ## Devices -/

/-- The state of a connection, with the begin and the end of its progress, `none` for NAN. -/
structure Progress where
  value : BitVec 32
  start : Option ℚ
  expectedEnd : Option ℚ
  deriving DecidableEq

/-- What the devices are at a time: their states, and their values in the order of their
vectors. -/
structure World (V : Type) where
  state : Name → Progress
  values : Name → List (Name × V)
  distinct : ∀ device, (values device).Pairwise fun a b => isValue a.1 b.1 = false

/-- The own device, the devices with an open connection, and what the connection to the central
server is called. -/
structure Config where
  ownName : Name
  opened : List Name
  centralName : Name

variable {V : Type}

/-- `_conn->getName ()` -/
def Config.connName (cfg : Config) (device : Name) : Name :=
  if device = centrald then cfg.centralName else device

/-- `getOpenConnection` -/
def Config.getOpenConnection (cfg : Config) (name : Name) : Option Name :=
  if name ∈ cfg.opened then some name else none

/-- `getOpenConnection`, or `getSingleCentralConn` for the central server. -/
def Config.connection (cfg : Config) (name : Name) : Option Name :=
  if name = centrald then some centrald else cfg.getOpenConnection name

/-- `getValue`, and `getOwnValue` for the own device -/
def World.getValue (w : World V) (device name : Name) : Option (Name × V) :=
  (w.values device).find? fun v => isValue name v.1

/-! ## The client -/

inductive Message (V : Type) where
  | state (device : Name) (progress : Progress)
  | value (device name : Name) (content : V)

/-- What was given to `sendChunked`, with what it returned. -/
abbrev Log (V : Type) := List (Message V × Bool)

/-- `AsyncState`; before the first message `value` is 0xffffffff and the times are NAN. -/
structure AsyncState where
  name : Name
  last : Progress

def AsyncState.new (name : Name) : AsyncState := ⟨name, ⟨0xffffffff#32, none, none⟩⟩

/-- `AsyncValueAPI`; `source` is unset when the source is NULL. -/
structure Api (V : Type) where
  source : Bool
  states : List AsyncState
  devices : List Name
  values : List (Name × Name)
  log : Log V

/-- `__S__` asks for the state of a device, and `*` for its state and all its values. -/
def isState (p : Name × Name) : Bool := p.2 = ['_', '_', 'S', '_', '_'] || p.2 = ['*']
def isAll (p : Name × Name) : Bool := p.2 = ['*']

/-- The constructor, for the parameters of the request. -/
def Api.new (params : List (Name × Name)) : Api V where
  source := true
  states := (params.filter isState).map fun p => .new p.1
  devices := (params.filter isAll).map Prod.fst
  values := params.filter fun p => !isState p
  log := []

/-- The times are equal, and none is NAN. -/
def AsyncState.same (astate : AsyncState) (progress : Progress) : Bool :=
  astate.last = progress && progress.start.isSome && progress.expectedEnd.isSome

section
variable (cfg : Config) (w : World V) (ok : Nat → Bool)

/-- `sendState`, on the log; what `sendChunked` returns is not looked at. -/
def sendState (device : Name) (astate : AsyncState) (log : Log V) : AsyncState × Log V :=
  if astate.same (w.state device) then (astate, log)
  else (⟨astate.name, w.state device⟩, log ++ [(.state device (w.state device), ok log.length)])

/-- `sendValue` -/
def sendValue (device : Name) (s : Api V) (value : Name × V) : Api V :=
  if s.source then
    { s with
      source := ok s.log.length
      log := s.log ++ [(.value device value.1 value.2, ok s.log.length)] }
  else s

/-- `stateChanged`, for the connection of a device. -/
def walkStates (device : Name) : List AsyncState → Log V → List AsyncState × Log V
  | [], log => ([], log)
  | astate :: states, log =>
    if astate.name = cfg.connName device ∨ device = centrald ∧ astate.name = centrald then
      let sent := sendState w ok device astate log
      let rest := walkStates device states sent.2
      (sent.1 :: rest.1, rest.2)
    else
      let rest := walkStates device states log
      (astate :: rest.1, rest.2)

def Api.stateChanged (device : Name) (s : Api V) : Api V :=
  if s.source then
    { s with
      states := (walkStates cfg w ok device s.states s.log).1
      log := (walkStates cfg w ok device s.states s.log).2 }
  else s

def Api.valueChanged (device : Name) (value : Name × V) (s : Api V) : Api V :=
  if s.source then
    match s.devices.find? (· = cfg.connName device) with
    | some name => sendValue ok name s value
    | none =>
      match s.values.find? fun v => v.1 = cfg.connName device && isValue v.2 value.1 with
      | some v => sendValue ok v.1 s value
      | none => s
  else s

/-- What is thrown by `sendAll`. -/
inductive Thrown where
  /-- `cannot find device`, and `cannot find opened connection with name` -/
  | connection (name : Name)
  /-- `cannot find value` -/
  | value (device name : Name)

/-- The states of `sendAll`. -/
def sendStates : List AsyncState → Log V → List AsyncState × Log V × Option Thrown
  | [], log => ([], log, none)
  | astate :: states, log =>
    match cfg.connection astate.name with
    | none => (astate :: states, log, some (.connection astate.name))
    | some device =>
      let sent := sendState w ok device astate log
      let rest := sendStates states sent.2
      (sent.1 :: rest.1, rest.2)

/-- The single values of `sendAll`. -/
def sendValues : List (Name × Name) → Api V → Api V × Option Thrown
  | [], s => (s, none)
  | v :: values, s =>
    match if v.1 = cfg.ownName then some v.1 else cfg.getOpenConnection v.1 with
    | none => (s, some (.connection v.1))
    | some device =>
      match w.getValue device v.2 with
      | none => (s, some (.value v.1 v.2))
      | some value => sendValues values (sendValue ok v.1 s value)

/-- The devices of `sendAll`; it returns after the first one. -/
def sendDevices (s : Api V) : Api V × Option Thrown :=
  match s.devices with
  | name :: _ =>
    match cfg.connection name with
    | none => (s, some (.connection name))
    | some device => ((w.values device).foldl (sendValue ok name) s, none)
  | [] => sendValues cfg w ok s.values s

def Api.sendAll (s : Api V) : Api V × Option Thrown :=
  let sent := sendStates cfg w ok s.states s.log
  let s := { s with states := sent.1, log := sent.2.1 }
  match sent.2.2 with
  | some thrown => (s, some thrown)
  | none => sendDevices cfg w ok s

end

/-! ## Runs -/

/-- Changes of what the devices are. -/
inductive Event (V : Type) where
  | state (device : Name) (progress : Progress)
  | value (device name : Name) (content : V)

/-- A value in a vector, after a value has changed. -/
def changed (name : Name) (content : V) (v : Name × V) : Name × V :=
  if isValue name v.1 then (v.1, content) else v

@[simp] theorem changed_fst (name : Name) (content : V) (v : Name × V) :
    (changed name content v).1 = v.1 := by
  unfold changed
  split
  · rfl
  · rfl

/-- The devices after a change. -/
def World.apply (w : World V) : Event V → World V
  | .state device progress =>
    { w with state := fun d => if d = device then progress else w.state d }
  | .value device name content =>
    { w with
      values := fun d => if d = device then (w.values d).map (changed name content) else w.values d
      distinct := by
        intro d
        split
        · simpa [List.pairwise_map] using w.distinct d
        · exact w.distinct d }

structure System (V : Type) where
  world : World V
  api : Api V

variable (cfg : Config) (ok : Nat → Bool)

/-- A change, and what the client is told of it. -/
def System.step (s : System V) (e : Event V) : System V where
  world := s.world.apply e
  api :=
    match e with
    | .state device _ => s.api.stateChanged cfg (s.world.apply e) ok device
    | .value device name content => s.api.valueChanged cfg ok device (name, content)

/-- The system after the request. -/
def System.start (w : World V) (params : List (Name × Name)) : System V :=
  ⟨w, ((Api.new params).sendAll cfg w ok).1⟩

/-! ## What a request asks for -/

/-- The state of the device is asked for. -/
def StateOf (params : List (Name × Name)) (device : Name) : Prop :=
  ∃ p ∈ params, isState p = true ∧ p.1 = device

/-- A value of the device is asked for, with all of them or by its name. -/
def ValueOf (params : List (Name × Name)) (device name : Name) : Prop :=
  ∃ p ∈ params, p.1 = device ∧ (isAll p = true ∨ isState p = false ∧ isValue p.2 name = true)

instance (params : List (Name × Name)) (device : Name) : Decidable (StateOf params device) :=
  inferInstanceAs (Decidable (∃ p ∈ params, _))

instance (params : List (Name × Name)) (device name : Name) : Decidable (ValueOf params device name) :=
  inferInstanceAs (Decidable (∃ p ∈ params, _))

def Message.stateOf (device : Name) : Message V → Option Progress
  | .state d progress => if d = device then some progress else none
  | .value _ _ _ => none

def Message.valueOf (device name : Name) : Message V → Option V
  | .state _ _ => none
  | .value d n content => if d = device ∧ isValue name n = true then some content else none

/-- What the last messages about a state and about a value say. -/
def lastState (log : Log V) (device : Name) : Option Progress :=
  (log.filterMap fun m => m.1.stateOf device).getLast?

def lastValue (log : Log V) (device name : Name) : Option V :=
  (log.filterMap fun m => m.1.valueOf device name).getLast?

/-- The last message about what was asked for shows its present content. -/
structure Shows (params : List (Name × Name)) (w : World V) (log : Log V) : Prop where
  state : ∀ device, StateOf params device → lastState log device = some (w.state device)
  value : ∀ device name, ValueOf params device name →
    lastValue log device name = (w.getValue device name).map Prod.snd

/-- The source is not lost, or it was lost by the last send. -/
def LostLast (s : Api V) : Prop :=
  s.source = true ∧ (∀ m ∈ s.log, m.2 = true) ∨
    s.source = false ∧ ∃ log m, s.log = log ++ [(m, false)] ∧ ∀ m ∈ log, m.2 = true

/-- The state of a device is another one, or has a time that is NAN. -/
def Tells (last progress : Progress) : Prop :=
  last ≠ progress ∨ progress.start = none ∨ progress.expectedEnd = none

instance (last progress : Progress) : Decidable (Tells last progress) :=
  inferInstanceAs (Decidable (_ ∨ _ ∨ _))

/-- The message about a change of what was asked for. -/
def message (params : List (Name × Name)) (w : World V) : Event V → Option (Message V)
  | .state device progress =>
    if StateOf params device ∧ Tells (w.state device) progress then some (.state device progress)
    else none
  | .value device name content =>
    if ValueOf params device name then some (.value device name content) else none

/-- A change is sent once, if it was asked for and the source is not lost. -/
def SentOnce (params : List (Name × Name)) (s : System V) (e : Event V) : Prop :=
  (s.step cfg ok e).api.log =
    if s.api.source then
      s.api.log ++ (message params s.world e).toList.map fun m => (m, ok s.api.log.length)
    else s.api.log

/-- The request can be served: what it asks for is found where `sendAll` looks for it, there is
nothing to send but the values of the first device with all values if there is one, and no send of
a state fails. -/
structure StartFits (w : World V) (params : List (Name × Name)) : Prop where
  states : ∀ p ∈ params, isState p = true → p.1 = centrald ∨ p.1 ∈ cfg.opened
  values : (∀ p ∈ params, isAll p = false) → ∀ p ∈ params, isState p = false →
    (p.1 = cfg.ownName ∨ p.1 ∈ cfg.opened) ∧ (w.getValue p.1 p.2).isSome = true
  single : ∀ first ∈ ((params.filter isAll).map Prod.fst).head?, ∀ p ∈ params,
    isAll p = true ∧ w.values p.1 ≠ [] ∨ isState p = false → p.1 = first
  sent : ∀ i < (params.filter isState).length, ok i = true

/-- The change is of something asked for by a name that its connection has; a state that is sent was
asked for once, and its send does not fail. -/
def StepFits (params : List (Name × Name)) (s : System V) : Event V → Prop
  | .state device progress => s.api.source = true →
    (device = centrald → StateOf params cfg.centralName → cfg.centralName = centrald) ∧
      (Tells (s.world.state device) progress →
        ((params.filter isState).map Prod.fst).count device ≤ 1 ∧
          (StateOf params device → ok s.api.log.length = true))
  | .value device name _ => s.api.source = true →
    (s.world.getValue device name).isSome = true ∧
      (cfg.connName device = device ∨
        ¬ValueOf params device name ∧ ¬ValueOf params (cfg.connName device) name)

instance (params : List (Name × Name)) (s : System V) :
    ∀ e, Decidable (StepFits cfg ok params s e)
  | .state _ _ => inferInstanceAs (Decidable (_ → _ ∧ (_ → _ ∧ _)))
  | .value _ _ _ => inferInstanceAs (Decidable (_ → _ ∧ (_ ∨ _)))

end Rts2.Rts2json.AsyncValue

import Rts2.Centrald.Conditions

/-! # Blocking of operations

When the BOP state of a connection changes, `Centrald` masks the BOP state of the system and sends to
every device the states of those that block it. The state of the system is masked before the states of the
connections are joined. -/
namespace Rts2.Centrald

/-! ## The messages -/

/-- A section of the configuration, with `blocked_by` where it is given. -/
structure IniSection where
  blockedBy : Option (List String)

/-- `IniSection::containedInBlockedBy` -/
def IniSection.containedInBlockedBy (sect : IniSection) (querying_device : String) : Bool :=
  sect.blockedBy.elim true fun blockedBy => decide (querying_device ∈ blockedBy)

/-- `IniParser::blockDevice`; `getSection` finds the sections of the configuration. -/
def blockDevice (getSection : String → Option IniSection) (device_name querying_device : String) : Bool :=
  (getSection device_name).elim true (·.containedInBlockedBy querying_device)

/-- `Connection::getBopState` -/
def ConnCentrald.getBopState (c : ConnCentrald) : Status := c.serverState &&& Status.bopMask

inductive Message where
  /-- An `S` line to all connections. -/
  | status (state : Status)
  /-- A `B` line to one of them. -/
  | bop (conn : ConnCentrald) (state bopState : Status)

section
variable (getSection : String → Option IniSection) (s : Central)

/-- `Centrald::getStateForConnection` -/
def Central.getStateForConnection (conn : ConnCentrald) : Status :=
  if conn.type ≠ .deviceServer then s.state
  else s.connections.foldl
    (fun sta test_conn =>
      if blockDevice getSection conn.name test_conn.name = false then sta
      else sta ||| test_conn.getBopState)
    (s.state &&& (~~~Status.bopMask &&& ~~~Status.deviceErrorMask))

/-- The part of `Centrald::stateChanged` that sends. -/
def stateChanged (old new : Status) : List Message :=
  if new &&& ~~~Status.bopMask ≠ old &&& ~~~Status.bopMask then [.status new] else []

/-- The loop of `bopMaskChanged`: the states joined, and the messages. -/
def Central.bopLoop : List ConnCentrald → Status × List Message → Status × List Message
  | [], out => out
  | c :: connections, (bopState, sent) =>
    Central.bopLoop connections (bopState ||| c.getBopState,
      if c.type = .deviceServer then sent ++ [.bop c s.state (s.getStateForConnection getSection c)]
      else sent)

/-- `Centrald::bopMaskChanged`, with what it sends; nothing is done with the states that are joined. -/
def Central.publishBop : Central × List Message :=
  let masked := s.bopMaskChanged
  let (_, sent) := masked.bopLoop getSection masked.connections (0, stateChanged s.state masked.state)
  (masked, sent ++ [.status masked.state])

end

/-! ## What is to be sent -/

/-- The BOP bits of all these connections. -/
def bopUnion (connections : List ConnCentrald) : Status :=
  (connections.map ConnCentrald.getBopState).foldr (· ||| ·) 0#32

section
variable (getSection : String → Option IniSection) (s : Central)

/-- The connections that block one. -/
def Central.blocking (conn : ConnCentrald) : List ConnCentrald :=
  s.connections.filter fun c => blockDevice getSection conn.name c.name

/-- Every device is sent the BOP bits of those that block it, and no others. -/
def Central.Sent (messages : List Message) : Prop :=
  (∀ c ∈ s.connections, c.type = .deviceServer →
    ∃ state bopState, Message.bop c state bopState ∈ messages) ∧
  ∀ c state bopState, Message.bop c state bopState ∈ messages →
    c ∈ s.connections ∧ c.type = .deviceServer ∧
      bopState &&& Status.bopMask = bopUnion (s.blocking getSection c)

/-- The BOP bits of the system are those of all connections, and the devices are sent theirs. -/
def Central.Published : Prop :=
  (s.publishBop getSection).1.state &&& Status.bopMask = bopUnion s.connections ∧
    s.Sent getSection (s.publishBop getSection).2

end

/-! ## Joining states -/

theorem getBopState_mask (c : ConnCentrald) : c.getBopState &&& Status.bopMask = c.getBopState := by
  unfold ConnCentrald.getBopState
  rw [BitVec.and_assoc, BitVec.and_self]

theorem bopUnion_cons (c : ConnCentrald) (l : List ConnCentrald) :
    bopUnion (c :: l) = c.getBopState ||| bopUnion l := rfl

theorem bopUnion_eq_zero (l : List ConnCentrald) :
    bopUnion l = 0#32 ↔ ∀ c ∈ l, c.getBopState = 0#32 := by
  induction l with
  | nil => exact iff_of_true rfl fun c hc => by cases hc
  | cons c l ih => rw [bopUnion_cons, BitVec.or_eq_zero_iff, ih, List.forall_mem_cons]

/-- Joined to a state without BOP bits. -/
theorem foldl_bop (blocks : ConnCentrald → Bool) (l : List ConnCentrald) (sta : Status) :
    l.foldl (fun sta c => if blocks c = false then sta else sta ||| c.getBopState) sta &&& Status.bopMask =
      (sta &&& Status.bopMask) ||| bopUnion (l.filter blocks) := by
  induction l generalizing sta with
  | nil => exact BitVec.or_zero.symm
  | cons c l ih =>
    rw [List.foldl_cons, ih]
    cases hblocks : blocks c with
    | false => rw [if_pos rfl, List.filter_cons_of_neg (by rw [hblocks]; exact Bool.false_ne_true)]
    | true =>
      rw [if_neg (fun h => Bool.false_ne_true h.symm), List.filter_cons_of_pos hblocks, bopUnion_cons,
        BitVec.and_or_distrib_right, getBopState_mask, BitVec.or_assoc]

section
variable (getSection : String → Option IniSection) (s : Central)

/-- A device is given the BOP bits of those that block it. -/
theorem getStateForConnection_bop {c : ConnCentrald} (hc : c.type = .deviceServer) :
    s.getStateForConnection getSection c &&& Status.bopMask = bopUnion (s.blocking getSection c) := by
  have hclear : s.state &&& (~~~Status.bopMask &&& ~~~Status.deviceErrorMask) &&& Status.bopMask = 0#32 := by
    have hmask : ~~~Status.bopMask &&& ~~~Status.deviceErrorMask &&& Status.bopMask = 0#32 := by decide
    rw [BitVec.and_assoc, hmask]
    exact BitVec.and_zero
  unfold Central.getStateForConnection
  rw [if_neg (not_not.mpr hc), foldl_bop, hclear]
  exact BitVec.zero_or

/-- The loop sends to every device. -/
theorem bopLoop_sent (l : List ConnCentrald) (out : Status × List Message) :
    (s.bopLoop getSection l out).2 = out.2 ++
      (l.filter (·.type = .deviceServer)).map fun c =>
        Message.bop c s.state (s.getStateForConnection getSection c) := by
  induction l generalizing out with
  | nil => exact (List.append_nil _).symm
  | cons c l ih =>
    obtain ⟨bopState, sent⟩ := out
    unfold Central.bopLoop
    rw [ih]
    by_cases hc : c.type = .deviceServer
    · have hfilter : (c :: l).filter (·.type = .deviceServer) = c :: l.filter (·.type = .deviceServer) :=
        List.filter_cons_of_pos (decide_eq_true hc)
      rw [if_pos hc, hfilter, List.map_cons, List.append_assoc]
      rfl
    · have hfilter : (c :: l).filter (·.type = .deviceServer) = l.filter (·.type = .deviceServer) :=
        List.filter_cons_of_neg (by simp [hc])
      rw [if_neg hc, hfilter]

/-- `stateChanged` sends to all connections. -/
theorem bop_not_mem_stateChanged {old new state bopState : Status} {c : ConnCentrald} :
    Message.bop c state bopState ∉ stateChanged old new := by
  unfold stateChanged
  intro h
  split at h
  · cases List.mem_singleton.mp h
  · cases h

/-- The devices are sent the states of those that block them, whatever the states are. -/
theorem publishBop_sent : s.Sent getSection (s.publishBop getSection).2 := by
  have hmessages : (s.publishBop getSection).2 =
      (s.bopMaskChanged.bopLoop getSection s.connections
        (0, stateChanged s.state s.bopMaskChanged.state)).2 ++ [.status s.bopMaskChanged.state] := rfl
  rw [hmessages, bopLoop_sent]
  constructor
  · intro c hc hdevice
    refine ⟨s.bopMaskChanged.state, s.bopMaskChanged.getStateForConnection getSection c,
      List.mem_append_left _ (List.mem_append_right _ (List.mem_map.mpr ⟨c, ?_, rfl⟩))⟩
    exact List.mem_filter.mpr ⟨hc, decide_eq_true hdevice⟩
  · intro c state bopState hmem
    rcases List.mem_append.mp hmem with hmem | hmem
    · rcases List.mem_append.mp hmem with hmem | hmem
      · exact absurd hmem bop_not_mem_stateChanged
      · obtain ⟨d, hd, heq⟩ := List.mem_map.mp hmem
        obtain ⟨hd, hdevice⟩ := List.mem_filter.mp hd
        have hdevice := of_decide_eq_true hdevice
        cases heq
        exact ⟨hd, hdevice, getStateForConnection_bop getSection s.bopMaskChanged hdevice⟩
    · cases List.mem_singleton.mp hmem

/-- The system has no BOP bits after the call. -/
theorem bopMaskChanged_bop : s.bopMaskChanged.state &&& Status.bopMask = 0#32 := by
  have hmask : ~~~(Status.deviceErrorMask ||| Status.bopMask) &&& Status.bopMask = 0#32 := by decide
  unfold Central.bopMaskChanged Central.maskState
  show (s.state &&& ~~~(Status.deviceErrorMask ||| Status.bopMask) ||| 0#32) &&& Status.bopMask = 0#32
  rw [BitVec.or_zero, BitVec.and_assoc, hmask]
  exact BitVec.and_zero

end

/-- The states are published if and only if no connection has a BOP state. -/
theorem bopMaskChanged_published_iff (getSection : String → Option IniSection) (s : Central) :
    s.Published getSection ↔ ∀ c ∈ s.connections, c.getBopState = 0#32 := by
  have hstate : (s.publishBop getSection).1.state &&& Status.bopMask = 0#32 := bopMaskChanged_bop s
  unfold Central.Published
  rw [hstate, ← bopUnion_eq_zero, eq_comm, and_iff_left (publishBop_sent getSection s)]

/-- A camera that must not be disturbed by a move of the telescope. -/
def exposing : ConnCentrald where
  centraldId := 1
  type := .deviceServer
  name := "C0"
  connState := .connConnected
  serverState := Status.bopTelMove

theorem bopMaskChanged_lost :
    ¬ { Central.start 0 [] with connections := [exposing] }.Published fun _ => none := by
  intro h
  have hlost : 0#32 = Status.bopTelMove := h.1
  exact absurd hlost (by decide)

end Rts2.Centrald

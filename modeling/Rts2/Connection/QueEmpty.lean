import Rts2.Connection.CommandOrder

/-! # An empty queue

`queEmpty` and `queEmptyForOriginator` tell from `runningCommandStatus` whether the running command
is done. The status is that of the last command until it is set for the next one. -/
namespace Rts2.CommandQue
open Rts2.Lib

/-- `Connection::queEmpty` -/
def Conn.queEmpty (s : Conn) : Bool :=
  if s.runningCommandStatus ≠ .returning ∧ s.runningCommand.isSome then false
  else s.commandQue.isEmpty

/-- `Command::isOriginator` -/
def Command.isOriginator (c : Command) (testOriginator : Option Nat) : Bool :=
  c.originator = testOriginator

/-- `Connection::queEmptyForOriginator` -/
def Conn.queEmptyForOriginator (s : Conn) (testOriginator : Option Nat) : Bool :=
  if s.runningCommandStatus ≠ .returning ∧
      s.runningCommand.any (·.isOriginator testOriginator) then false
  else s.commandQue.all (!·.isOriginator testOriginator)

/-- `Connection::queClear` -/
def Conn.queClear (s : Conn) (running : Bool) : Conn :=
  { s with
    runningCommand :=
      if running ∨ s.runningCommandStatus ≠ .send then none else s.runningCommand
    commandQue := [] }

/-! ## Moments -/

/-- A connection, and the running command while the handlers of its reply run. -/
structure Moment where
  conn : Conn
  handled : Option Command

/-- What goes on at a connection, a reply in its parts. -/
inductive Part where
  | call (c : Call)
  | queClear (running : Bool)
  | reply (stat : Int)
  | returns (ret : ReturnCode)

def Moment.step (m : Moment) : Part → Moment
  | .call c => { m with conn := m.conn.call c }
  | .queClear running => { m with conn := m.conn.queClear running }
  | .reply stat =>
    match m.handled, m.conn.wire, m.conn.runningCommand with
    | none, sender :: wire, some c =>
      ⟨{ m.conn with wire }.beginReturn sender c stat, some c⟩
    | none, _ :: wire, none => { m with conn := { m.conn with wire } }
    | _, _, _ => m
  | .returns ret =>
    match m.handled with
    | none => m
    | some c =>
      ⟨if c.statusFor.isSome then m.conn.updateStatusWait.endReturn .done
        else m.conn.endReturn ret, none⟩

/-- `commandReturn` is the reply, the calls of its handlers and what they return. -/
theorem run_commandReturn (s : Conn) (stat : Int) (calls : List Call) (ret : ReturnCode)
    (hwire : s.wire ≠ []) (hrun : s.runningCommand ≠ none) :
    run Moment.step ⟨s, none⟩ (.reply stat :: (calls.map .call ++ [.returns ret])) =
      ⟨s.commandReturn stat calls ret, none⟩ := by
  have hcalls : ∀ (calls : List Call) (t : Conn) (c : Command),
      run Moment.step ⟨t, some c⟩ (calls.map .call) = ⟨run Conn.call t calls, some c⟩ := by
    intro calls
    induction calls with
    | nil => exact fun _ _ => rfl
    | cons call calls ih => exact fun t c => ih (t.call call) c
  obtain ⟨sender, wire, hw⟩ := List.exists_cons_of_ne_nil hwire
  obtain ⟨c, hc⟩ := Option.ne_none_iff_exists'.mp hrun
  have hreply : Moment.step ⟨s, none⟩ (.reply stat) =
      ⟨{ s with wire }.beginReturn sender c stat, some c⟩ := by
    simp only [Moment.step, hw, hc]
  have hreturn : s.commandReturn stat calls ret =
      if c.statusFor.isSome then
        (run Conn.call ({ s with wire }.beginReturn sender c stat) calls).updateStatusWait.endReturn
          .done
      else (run Conn.call ({ s with wire }.beginReturn sender c stat) calls).endReturn ret := by
    simp only [Conn.commandReturn, hw, hc]
  rw [run_cons, hreply, run_append, hcalls, hreturn]
  rfl

/-! ## The branch that leaves the status -/

/-- `sendCommand` of a command that waits for a state which has not come leaves the status of the
last command, which returned. -/
def Conn.leaves (s : Conn) (c : Command) : Bool :=
  s.runningCommandStatus = .returning && c.isWhileState && !c.isBlockedBy s.bopState

/-- `sendNextCommand` does. -/
def Conn.nextLeaves (s : Conn) : Bool := s.commandQue.head?.any s.leaves

def Conn.callLeaves (s : Conn) : Call → Bool
  | .queCommand r =>
    !(s.runningCommand.isSome || (s.connState ≠ .authOk && s.connState ≠ .connected)) &&
      s.leaves (s.newCommand r true)
  | .queSend r =>
    !(s.connState = .connecting || s.connState = .inprogress || s.connState = .unknow) &&
      s.runningCommand.isNone && s.leaves (s.newCommand r false)
  | .setConnState newConnState _ =>
    (newConnState = .authOk || newConnState = .connected) && s.runningCommand.isNone &&
      s.nextLeaves
  | .setBopState _ => false
  | .masterStateChanged => false

def Conn.endLeaves (s : Conn) : ReturnCode → Bool
  | .done => s.nextLeaves
  | .reque => s.runningCommand.any s.leaves
  | .keep => false

/-- No command is left with the status of the last one, and no command is deleted that is out or
whose handlers run. -/
def Moment.keeps (m : Moment) : Part → Bool
  | .call c => !m.conn.callLeaves c
  | .queClear running => m.handled.isNone && !(running && m.conn.runningCommandStatus = .send)
  | .reply _ => true
  | .returns ret =>
    match m.handled with
    | none => true
    | some c => !m.conn.endLeaves (if c.statusFor.isSome then .done else ret)

/-! ## What an empty queue says -/

/-- Nothing waits in the queue, for a state or for an answer. -/
structure Clear (s : Conn) : Prop where
  que : s.commandQue = []
  state : ∀ c, s.runningCommand = some c → c.getStatusCallProgress ≠ .run
  answer : s.wire = []

/-- Nothing of an originator does. -/
structure ClearFor (s : Conn) (testOriginator : Option Nat) : Prop where
  que : ∀ c ∈ s.commandQue, c.originator ≠ testOriginator
  state : ∀ c, s.runningCommand = some c → c.originator = testOriginator →
    c.getStatusCallProgress ≠ .run
  answer : ∀ id ∈ s.wire, ∃ c, s.runningCommand = some c ∧ c.id = id ∧
    c.originator ≠ testOriginator

/-- The questions are answered right. -/
structure Answers (s : Conn) : Prop where
  empty : s.queEmpty = true → Clear s
  emptyFor : ∀ o, s.queEmptyForOriginator o = true → ClearFor s o

/-- The status tells of a command that waits for a state. -/
def Marked (s : Conn) : Prop :=
  ∀ c, s.runningCommand = some c → c.getStatusCallProgress = .run →
    s.runningCommandStatus ≠ .returning

structure Tells (s : Conn) : Prop where
  oneOut : OneOut s
  status : StatusReturns s
  marked : Marked s

theorem Tells.answers {s : Conn} (h : Tells s) : Answers s where
  empty := by
    intro hempty
    unfold Conn.queEmpty at hempty
    by_cases hbusy : s.runningCommandStatus ≠ .returning ∧ s.runningCommand.isSome
    · rw [if_pos hbusy] at hempty
      cases hempty
    rw [if_neg hbusy] at hempty
    have hidle : ∀ c, s.runningCommand = some c → s.runningCommandStatus = .returning := by
      intro c hrun
      by_contra hst
      exact hbusy ⟨hst, by rw [hrun]; rfl⟩
    refine ⟨List.isEmpty_iff.mp hempty, ?_, h.oneOut.quiet ?_⟩
    · intro c hrun hcip
      exact h.marked c hrun hcip (hidle c hrun)
    · intro hsend
      obtain ⟨c, hrun, -⟩ := h.oneOut.out hsend
      rw [hidle c hrun] at hsend
      cases hsend
  emptyFor := by
    intro o hempty
    unfold Conn.queEmptyForOriginator at hempty
    by_cases hbusy : s.runningCommandStatus ≠ .returning ∧
        s.runningCommand.any (·.isOriginator o)
    · rw [if_pos hbusy] at hempty
      cases hempty
    rw [if_neg hbusy, List.all_eq_true] at hempty
    have hidle : ∀ c, s.runningCommand = some c → c.originator = o →
        s.runningCommandStatus = .returning := by
      intro c hrun horigin
      by_contra hst
      exact hbusy ⟨hst, by rw [hrun]; exact decide_eq_true horigin⟩
    refine ⟨?_, fun c hrun horigin hcip => h.marked c hrun hcip (hidle c hrun horigin), ?_⟩
    · intro c hc horigin
      have hnot := hempty c hc
      rw [Command.isOriginator, decide_eq_true horigin] at hnot
      cases hnot
    · intro id hid
      have hsend : s.runningCommandStatus = .send := by
        by_contra hst
        rw [h.oneOut.quiet hst] at hid
        cases hid
      obtain ⟨c, hrun, hwire, -⟩ := h.oneOut.out hsend
      rw [hwire] at hid
      refine ⟨c, hrun, (List.mem_singleton.mp hid).symm, fun horigin => ?_⟩
      rw [hidle c hrun horigin] at hsend
      cases hsend

/-! ## Sending -/

theorem sendCommand_blocked {s : Conn} {c : Command} (hrun : s.runningCommand = some c)
    (hwhile : c.isWhileState = true) (hblocked : c.isBlockedBy s.bopState = true) :
    s.sendCommand.runningCommandStatus ≠ .returning := by
  have hmask : c.bopMask ≠ 0#32 := by
    intro hzero
    rw [Command.isWhileState, hzero] at hwhile
    exact absurd hwhile (by decide)
  simp only [Conn.sendCommand, hrun, if_pos hmask, if_pos hwhile, if_pos hblocked]
  by_cases hcip : c.getStatusCallProgress = .wait
  · rw [if_pos hcip]
    exact CommandStatus.noConfusion
  · rw [if_neg hcip]
    exact CommandStatus.noConfusion

/-- Only a command whose state has not come keeps the status of the last one. -/
theorem Sends.marked {s s' : Conn} {c : Command} (h : Sends s c s') (hrun : s.runningCommand = some c)
    (hwaits : c.isWhileState = true → s.runningCommandStatus ≠ .returning) : Marked s' := by
  intro d hd hcip
  cases h with
  | unmasked | whileSent | whileWaits | asksStatus | waits | sent => exact CommandStatus.noConfusion
  | whileClear hwhile => exact hwaits hwhile
  | sentBefore hret =>
    rw [hrun] at hd
    cases hd
    rw [hret] at hcip
    cases hcip

theorem sendCommand_marked {s : Conn} {c : Command} (hrun : s.runningCommand = some c)
    (hleaves : s.leaves c = false) : Marked s.sendCommand := by
  by_cases hcame : c.isWhileState = true ∧ c.isBlockedBy s.bopState = true
  · exact fun _ _ _ => sendCommand_blocked hrun hcame.1 hcame.2
  refine (sendCommand_sends hrun).marked hrun fun hwhile hst => hcame ⟨hwhile, ?_⟩
  by_contra hblocked
  rw [Conn.leaves, hst, hwhile, Bool.not_eq_true _ |>.mp hblocked] at hleaves
  cases hleaves

theorem Tells.sendCommand {s : Conn} (ho : OneOut s) (hs : StatusReturns s)
    (hst : s.runningCommandStatus ≠ .send)
    (hl : ∀ c, s.runningCommand = some c → s.leaves c = false) : Tells s.sendCommand := by
  cases hrun : s.runningCommand with
  | none =>
    have hsame : s.sendCommand = s := by simp only [Conn.sendCommand, hrun]
    rw [hsame]
    refine ⟨ho, hs, fun c hc => ?_⟩
    rw [hrun] at hc
    cases hc
  | some c =>
    have hsends := sendCommand_sends hrun
    exact ⟨hsends.oneOut hrun hst ho, hsends.status hrun hs, sendCommand_marked hrun (hl c hrun)⟩

theorem Tells.sendNextCommand {s : Conn}
    (hs : ∀ d ∈ s.commandQue, d.statusFor.isSome → d.bopMask = CipState.ret.bits)
    (hst : s.runningCommandStatus ≠ .send) (hwire : s.wire = []) (hl : s.nextLeaves = false) :
    Tells s.sendNextCommand := by
  unfold Conn.sendNextCommand
  cases hque : s.commandQue with
  | nil =>
    refine ⟨⟨fun h => absurd h hst, fun _ => hwire⟩, fun d hd => ?_, fun c hc => ?_⟩
    · have hnil : d ∈ ([] : List Command) := hd
      cases hnil
    · cases hc
  | cons c rest =>
    refine Tells.sendCommand ⟨fun h => absurd h hst, fun _ => hwire⟩ ?_ hst ?_
    · intro d hd
      exact hs d (by rw [hque]; exact hd)
    · rintro d ⟨⟩
      rw [Conn.nextLeaves, hque] at hl
      exact hl

/-! ## Calls -/

/-- The running command and its status are as before, and so are the commands but for new ones. -/
theorem Tells.frame {s s' : Conn} (h : Tells s) (hrun : s'.runningCommand = s.runningCommand)
    (hst : s'.runningCommandStatus = s.runningCommandStatus) (hwire : s'.wire = s.wire)
    (hque : ∀ d ∈ s'.commandQue, d ∈ s.commandQue ∨ d.statusFor = none) : Tells s' := by
  refine ⟨⟨?_, ?_⟩, ?_, ?_⟩
  · rw [hst, hrun, hwire]
    exact h.oneOut.out
  · rw [hst, hwire]
    exact h.oneOut.quiet
  · intro d hd hsome
    rw [hrun] at hd
    rcases List.mem_append.mp hd with hd | hd
    · exact h.status d (List.mem_append_left _ hd) hsome
    · rcases hque d hd with hd | hnone
      · exact h.status d (List.mem_append_right _ hd) hsome
      · rw [hnone] at hsome
        cases hsome
  · intro c hc
    rw [hrun] at hc
    rw [hst]
    exact h.marked c hc

/-- A new command starts at once; another one may go back into the queue for it. -/
theorem Tells.start {s s' : Conn} {c : Command} (h : Tells s) (hst : s.runningCommandStatus ≠ .send)
    (hrun : s'.runningCommand = some c) (hnew : c.statusFor = none)
    (hst' : s'.runningCommandStatus = s.runningCommandStatus) (hwire : s'.wire = s.wire)
    (hque : ∀ d ∈ s'.commandQue, d ∈ s.runningCommand.toList ++ s.commandQue)
    (hl : s'.leaves c = false) : Tells s'.sendCommand := by
  refine Tells.sendCommand ⟨fun hsend => absurd (hst' ▸ hsend) hst, fun _ => ?_⟩ ?_ (hst' ▸ hst) ?_
  · rw [hwire]
    exact h.oneOut.quiet hst
  · intro d hd hsome
    rw [hrun] at hd
    rcases List.mem_append.mp hd with hd | hd
    · rw [List.mem_singleton.mp hd, hnew] at hsome
      cases hsome
    · exact h.status d (hque d hd) hsome
  · intro d hd
    rw [hrun] at hd
    cases hd
    exact hl

theorem Tells.queCommand {s : Conn} (h : Tells s) (r : Request)
    (hl : s.callLeaves (.queCommand r) = false) : Tells (s.queCommand r) := by
  unfold Conn.queCommand
  by_cases hpush : s.runningCommand.isSome ∨ (s.connState ≠ .authOk ∧ s.connState ≠ .connected)
  · simp only [if_pos hpush]
    refine h.frame rfl rfl rfl fun d hd => ?_
    rcases List.mem_append.mp hd with hd | hd
    · exact .inl hd
    · rw [List.mem_singleton.mp hd]
      exact .inr rfl
  · simp only [if_neg hpush]
    have hnone : s.runningCommand = none := by
      rw [← Option.not_isSome_iff_eq_none]
      exact fun hsome => hpush (.inl hsome)
    have hup : (decide (s.connState ≠ .authOk) && decide (s.connState ≠ .connected)) = false := by
      rw [← Bool.decide_and]
      exact decide_eq_false fun hdown => hpush (.inr hdown)
    have hleaves : s.leaves (s.newCommand r true) = false := by
      rw [Conn.callLeaves, hnone, hup] at hl
      exact hl
    refine h.start (h.oneOut.quiet_of_none hnone) rfl rfl rfl rfl (fun d hd => ?_) hleaves
    exact List.mem_append_right _ hd

theorem Tells.queSend {s : Conn} (h : Tells s) (r : Request)
    (hl : s.callLeaves (.queSend r) = false) : Tells (s.queSend r) := by
  have hpush : Tells
      { s with nextId := s.nextId + 1, commandQue := s.newCommand r false :: s.commandQue } := by
    refine h.frame rfl rfl rfl fun d hd => ?_
    rcases List.mem_cons.mp hd with rfl | hd
    · exact .inr rfl
    · exact .inl hd
  unfold Conn.queSend
  by_cases hstate : s.connState = .connecting ∨ s.connState = .inprogress ∨ s.connState = .unknow
  · simp only [if_pos hstate]
    exact hpush
  simp only [if_neg hstate]
  cases hrun : s.runningCommand with
  | none =>
    have hleaves : s.leaves (s.newCommand r false) = false := by
      have hstate' : (decide (s.connState = .connecting) || decide (s.connState = .inprogress) ||
          decide (s.connState = .unknow)) = false := by
        simpa [and_assoc] using hstate
      rw [Conn.callLeaves, hstate', hrun] at hl
      exact hl
    exact h.start (h.oneOut.quiet_of_none hrun) rfl rfl rfl rfl
      (fun d hd => List.mem_append_right _ hd) hleaves
  | some c =>
    by_cases hst : s.runningCommandStatus = .send ∨ s.runningCommandStatus = .returning
    · simp only [if_pos hst]
      rw [← hrun]
      exact hpush
    · simp only [if_neg hst]
      obtain ⟨hsend, hret⟩ := not_or.mp hst
      have hleaves : s.leaves (s.newCommand r false) = false := by
        rw [Conn.leaves, decide_eq_false hret]
        rfl
      refine h.start hsend rfl rfl rfl rfl (fun d hd => ?_) hleaves
      rw [hrun]
      exact hd

theorem Tells.setConnState {s : Conn} (h : Tells s) {newConnState : ConnState}
    {up : newConnState ≠ .authFailed} (hl : s.callLeaves (.setConnState newConnState up) = false) :
    Tells (s.setConnState newConnState) := by
  unfold Conn.setConnState
  by_cases hnext : (newConnState = .authOk ∨ newConnState = .connected) ∧ s.runningCommand = none
  · simp only [if_pos hnext]
    have hquiet := h.oneOut.quiet_of_none hnext.2
    have hleaves : s.nextLeaves = false := by
      have hup : (decide (newConnState = .authOk) || decide (newConnState = .connected)) = true := by
        rw [← Bool.decide_or]
        exact decide_eq_true hnext.1
      rw [Conn.callLeaves, hup, hnext.2] at hl
      exact hl
    have hsent : Tells s.sendNextCommand :=
      Tells.sendNextCommand (fun d hd => h.status d (List.mem_append_right _ hd)) hquiet
        (h.oneOut.quiet hquiet) hleaves
    exact hsent.frame rfl rfl rfl fun d hd => .inl hd
  · simp only [if_neg hnext]
    exact h.frame rfl rfl rfl fun d hd => .inl hd

/-- A command that waits for a state is marked as waiting, so that this send leaves no other
status. -/
theorem Tells.sendCommandIn_run {s : Conn} (h : Tells s) : Tells (s.sendCommandIn .run) := by
  unfold Conn.sendCommandIn
  cases hrun : s.runningCommand with
  | none => exact h
  | some c =>
    by_cases hcip : c.getStatusCallProgress = .run
    · simp only [if_pos hcip]
      have hsend : s.runningCommandStatus ≠ .send := fun hst =>
        (h.oneOut.out_of_running hrun hst).notRun hcip
      refine Tells.sendCommand h.oneOut h.status hsend fun d hd => ?_
      rw [hrun] at hd
      cases hd
      rw [Conn.leaves, decide_eq_false (h.marked c hrun hcip)]
      rfl
    · simp only [if_neg hcip]
      exact h

theorem Tells.call {s : Conn} (h : Tells s) (call : Call) (hl : s.callLeaves call = false) :
    Tells (s.call call) := by
  cases call with
  | queCommand r => exact h.queCommand r hl
  | queSend r => exact h.queSend r hl
  | setBopState inValue =>
    have hbop : Tells { s with bopState := inValue } := h.frame rfl rfl rfl fun d hd => .inl hd
    exact hbop.sendCommandIn_run
  | masterStateChanged => exact h.sendCommandIn_run
  | setConnState newConnState up => exact h.setConnState hl

theorem Tells.queClear {s : Conn} (h : Tells s) {running : Bool}
    (hout : running = true → s.runningCommandStatus ≠ .send) : Tells (s.queClear running) := by
  have hsub : ∀ c, (s.queClear running).runningCommand = some c → s.runningCommand = some c := by
    intro c hc
    unfold Conn.queClear at hc
    by_cases hnone : running = true ∨ s.runningCommandStatus ≠ .send
    · simp only [if_pos hnone] at hc
      cases hc
    · simpa only [if_neg hnone] using hc
  refine ⟨⟨fun hsend => ?_, h.oneOut.quiet⟩, fun d hd => ?_, fun c hc => h.marked c (hsub c hc)⟩
  · have hkept : ¬ (running = true ∨ s.runningCommandStatus ≠ .send) :=
      not_or.mpr ⟨fun hr => hout hr hsend, not_not.mpr hsend⟩
    obtain ⟨c, hrun, hrest⟩ := h.oneOut.out hsend
    refine ⟨c, ?_, hrest⟩
    unfold Conn.queClear
    rw [if_neg hkept]
    exact hrun
  · have hrun : (s.queClear running).runningCommand = some d := by
      have hque : (s.queClear running).commandQue = [] := rfl
      rwa [hque, List.append_nil, Option.mem_toList] at hd
    refine h.status d (List.mem_append_left _ ?_)
    rw [Option.mem_toList]
    exact hsub d hrun

/-! ## Replies -/

theorem Tells.beginReturn {s : Conn} (h : Tells s) {sender : Nat} {wire : List Nat} {c : Command}
    (hwire : s.wire = sender :: wire) (hrun : s.runningCommand = some c) (stat : Int) :
    Tells ({ s with wire }.beginReturn sender c stat) ∧
      Returning ({ s with wire }.beginReturn sender c stat) c := by
  have hsend : s.runningCommandStatus = .send := by
    by_contra hst
    rw [h.oneOut.quiet hst] at hwire
    cases hwire
  obtain ⟨d, hd, hone, hout⟩ := h.oneOut.out hsend
  rw [hrun] at hd
  cases hd
  rw [hwire, List.cons.injEq] at hone
  obtain ⟨rfl, rfl⟩ := hone
  refine ⟨⟨⟨CommandStatus.noConfusion, fun _ => rfl⟩, h.status, fun d hd hcip => ?_⟩,
    ⟨hrun, rfl, hout, stat, by simp [Conn.beginReturn]⟩⟩
  have hsame : s.runningCommand = some d := hd
  rw [hrun] at hsame
  cases hsame
  exact absurd hcip hout.notRun

theorem Tells.endReturn {s : Conn} {c : Command} (h : Tells s) (hret : Returning s c)
    (ret : ReturnCode) (hl : s.endLeaves ret = false) : Tells (s.endReturn ret) := by
  have hst : s.runningCommandStatus ≠ .send := by
    rw [hret.status]
    exact CommandStatus.noConfusion
  cases ret with
  | keep => exact h
  | reque =>
    refine Tells.sendCommand h.oneOut h.status hst fun d hd => ?_
    rw [Conn.endLeaves, hd] at hl
    exact hl
  | done =>
    exact Tells.sendNextCommand (fun d hd => h.status d (List.mem_append_right _ hd)) hst
      (h.oneOut.quiet hst) hl

/-- What holds at every moment. -/
structure Moment.Tells (m : Moment) : Prop where
  conn : CommandQue.Tells m.conn
  handled : ∀ c, m.handled = some c → Returning m.conn c

theorem Moment.Tells.step {m : Moment} (h : m.Tells) (p : Part) (hkeeps : m.keeps p = true) :
    (m.step p).Tells := by
  cases p with
  | call c =>
    have hl : m.conn.callLeaves c = false := by simpa [Moment.keeps] using hkeeps
    exact ⟨h.conn.call c hl, fun d hd => (h.handled d hd).call c⟩
  | queClear running =>
    rw [Moment.keeps, Bool.and_eq_true, Option.isNone_iff_eq_none] at hkeeps
    refine ⟨h.conn.queClear fun hrun hst => ?_, fun d hd => ?_⟩
    · rw [hrun, hst] at hkeeps
      cases hkeeps.2
    · have hsome : m.handled = some d := hd
      rw [hkeeps.1] at hsome
      cases hsome
  | reply stat =>
    obtain ⟨s, handled⟩ := m
    cases handled with
    | some d => exact h
    | none =>
      cases hwire : s.wire with
      | nil =>
        have hsame : Moment.step ⟨s, none⟩ (.reply stat) = ⟨s, none⟩ := by
          simp only [Moment.step, hwire]
        rw [hsame]
        exact h
      | cons sender wire =>
        cases hrun : s.runningCommand with
        | none =>
          have hquiet := h.conn.oneOut.quiet (h.conn.oneOut.quiet_of_none hrun)
          have hcons : s.wire = [] := hquiet
          rw [hwire] at hcons
          cases hcons
        | some c =>
          have hreply : Moment.step ⟨s, none⟩ (.reply stat) =
              ⟨{ s with wire }.beginReturn sender c stat, some c⟩ := by
            simp only [Moment.step, hwire, hrun]
          obtain ⟨htells, hret⟩ := h.conn.beginReturn hwire hrun stat
          rw [hreply]
          refine ⟨htells, ?_⟩
          rintro d ⟨⟩
          exact hret
  | returns ret =>
    obtain ⟨s, handled⟩ := m
    cases handled with
    | none => exact h
    | some c =>
      have hret := h.handled c rfl
      have hl : s.endLeaves (if c.statusFor.isSome then .done else ret) = false := by
        simpa [Moment.keeps] using hkeeps
      refine ⟨?_, by rintro d ⟨⟩⟩
      show CommandQue.Tells (if c.statusFor.isSome then s.updateStatusWait.endReturn .done
        else s.endReturn ret)
      by_cases hstatus : c.statusFor.isSome
      · rw [if_pos hstatus] at hl ⊢
        rw [hret.updateStatusWait h.conn.status hstatus]
        exact h.conn.endReturn hret _ hl
      · rw [if_neg hstatus] at hl ⊢
        exact h.conn.endReturn hret ret hl

theorem Moment.Tells.start (connState : ConnState) : Moment.Tells ⟨Conn.start connState, none⟩ := by
  refine ⟨⟨⟨CommandStatus.noConfusion, fun _ => rfl⟩, fun d hd => ?_, fun c hc => ?_⟩,
    fun d hd => ?_⟩
  · have hnil : d ∈ ([] : List Command) := hd
    cases hnil
  · cases hc
  · cases hd

/-- **An empty queue is empty**, at every moment of a run that never leaves a command that waits
for a state with the status of the last one. -/
theorem queEmpty_sound (connState : ConnState) (parts : List Part)
    (h : Along Moment.step (fun m p => m.keeps p = true) ⟨Conn.start connState, none⟩ parts) :
    Answers (run Moment.step ⟨Conn.start connState, none⟩ parts).conn :=
  (h.invariant (Moment.Tells.start connState) fun _ p hm hkeeps => hm.step p hkeeps).conn.answers

/-- A command that waits for the end of an exposure, one that goes out while the telescope moves
and moves already, and replies to them. -/
theorem queEmpty_sound_expose :
    Answers (run Moment.step ⟨Conn.start .connected, none⟩
      [.call (.queCommand exposeRequest), .reply 0, .returns .done,
        .call (.setBopState Status.bopTelMove), .reply 0, .returns .done,
        .call (.queCommand whileMoveRequest), .queClear false]).conn :=
  queEmpty_sound .connected _ (by decide)

/-- A command that waits for the telescope to move: the queue is empty all the same. -/
theorem queEmpty_while_waits :
    (run Moment.step ⟨Conn.start .connected, none⟩
      [.call (.queCommand whileMoveRequest)]).conn.queEmpty = true ∧
    ¬ Answers (run Moment.step ⟨Conn.start .connected, none⟩
      [.call (.queCommand whileMoveRequest)]).conn := by
  refine ⟨by decide, fun h => ?_⟩
  exact (h.empty (by decide)).state _ rfl (by decide)

end Rts2.CommandQue

import Rts2.Connection.CommandOrder

/-! # Completion events

What the return handlers of a command post to its originator. `commandReturn` chooses the handler
by the status of the reply, the handlers call one another, and classes of commands override
them. -/
namespace Rts2.CommandQue
open Rts2.Lib

/-! ## Return handlers -/

/-- `EVENT_COMMAND_OK` and `EVENT_COMMAND_FAILED`. -/
inductive Completion where
  | ok
  | failed
  deriving DecidableEq, Repr

/-- The classes of commands with handlers of their own, and all the others. -/
inductive CommandClass where
  | command
  | sendKey
  | authorize
  | exposure
  | filter
  | move
  | change
  | cupolaNotMove
  | changeFocus
  | setFocus
  | mirror
  | integrate
  | info
  | statusInfo
  | login
  | register
  | deviceStatusInfo
  | monitorInfo
  deriving DecidableEq, Repr

/-- The `state` of a `CommandLogin`. -/
inductive LoginState where
  | loginSend
  | passwordSend
  | infoSend
  deriving DecidableEq, Repr

/-- What a handler posts and returns. What it calls beside that is among the calls of the reply. -/
structure Outcome where
  posted : List Completion
  ret : ReturnCode
  state : LoginState
  deriving DecidableEq, Repr

/-- `Command::commandReturnOK` -/
def commandReturnOK (state : LoginState) : Outcome := ⟨[.ok], .done, state⟩

/-- `Command::commandReturnFailed` -/
def commandReturnFailed (state : LoginState) : Outcome := ⟨[.failed], .done, state⟩

/-- `CommandLogin::commandReturnOK`: the command goes out again with the next text. -/
def loginReturnOK : LoginState → Outcome
  | .loginSend => ⟨[], .reque, .passwordSend⟩
  | .passwordSend => ⟨[], .reque, .infoSend⟩
  | .infoSend => ⟨[], .done, .infoSend⟩

/-- The `commandReturnOK` of a class. -/
def CommandClass.commandReturnOK (state : LoginState) : CommandClass → Outcome
  -- `setConnState (CONN_AUTH_OK)`
  | .sendKey => ⟨[], .done, state⟩
  | .login => loginReturnOK state
  -- with a handler of the device, or none
  | .exposure | .filter | .info | .statusInfo | .register | .deviceStatusInfo | .monitorInfo =>
    CommandQue.commandReturnOK state
  | .command | .authorize | .move | .change | .cupolaNotMove | .changeFocus | .setFocus | .mirror
  | .integrate => CommandQue.commandReturnOK state

/-- The `commandReturnFailed` of a class. -/
def CommandClass.commandReturnFailed (state : LoginState) : CommandClass → Outcome
  -- `setConnState (CONN_AUTH_FAILED)`, and a message
  | .sendKey | .authorize => ⟨[], .done, state⟩
  | .statusInfo => CommandQue.commandReturnOK state
  | .exposure | .filter | .move | .change | .cupolaNotMove | .changeFocus | .setFocus | .mirror
  | .integrate | .info | .register | .deviceStatusInfo => CommandQue.commandReturnFailed state
  | .command | .login | .monitorInfo => CommandQue.commandReturnFailed state

/-- `Command::commandReturnQued` -/
def CommandClass.commandReturnQued (state : LoginState) (cl : CommandClass) : Outcome :=
  let r := cl.commandReturnOK state
  { r with posted := .ok :: r.posted }

/-- `Command::commandReturn` -/
def CommandClass.commandReturn (state : LoginState) (cl : CommandClass) (status : Int) : Outcome :=
  if status = 0 then cl.commandReturnOK state
  else if status = 1 then cl.commandReturnQued state
  else cl.commandReturnFailed state

/-! ## A connection that posts -/

/-- `postEvent` of the originator of a command. -/
structure Post where
  originator : Nat
  command : Nat
  event : Completion
  deriving DecidableEq, Repr

structure Poster where
  conn : Conn
  state : Nat → LoginState
  posted : List Post

def Poster.start (connState : ConnState) : Poster :=
  ⟨Conn.start connState, fun _ => .loginSend, []⟩

/-- The class of a command object; `device_status` is a `CommandStatusInfo`. -/
def Command.classOf (cls : Nat → CommandClass) (c : Command) : CommandClass :=
  if c.statusFor.isSome then .statusInfo else cls c.id

def Command.posts (c : Command) (events : List Completion) : List Post :=
  match c.originator with
  | none => []
  | some o => events.map (⟨o, c.id, ·⟩)

/-- A call of the connection, or the next reply, whose handlers make `calls`. -/
inductive Input where
  | call (c : Call)
  | reply (status : Int) (calls : List Call)

/-- A step, with the class each command is created in. -/
def Poster.step (cls : Nat → CommandClass) (s : Poster) : Input → Poster
  | .call c => { s with conn := s.conn.call c }
  | .reply status calls =>
    match s.conn.wire, s.conn.runningCommand with
    | _ :: _, some c =>
      let r := (c.classOf cls).commandReturn (s.state c.id) status
      { conn := s.conn.commandReturn status calls r.ret
        state := Function.update s.state c.id r.state
        posted := s.posted ++ c.posts r.posted }
    | _, _ => { s with conn := s.conn.commandReturn status calls .done }

/-! ## What is said of it -/

/-- The status of a reply that is credited to a command. -/
def Action.replyTo (id : Nat) : Action → Option Int
  | .sent _ _ => none
  | .credited _ c status => if c.id = id then some status else none

/-- The statuses of the replies to a command. -/
def Conn.repliesTo (s : Conn) (id : Nat) : List Int := s.trace.filterMap (Action.replyTo id)

/-- The statuses that a class of commands posts one event for. -/
def CommandClass.PostsOnce (statuses : List Int) : CommandClass → Prop
  | .sendKey => ∀ status ∈ statuses, status = 1
  | .authorize => ∀ status ∈ statuses, status = 0
  | .login => (statuses.filter (· ≠ 0)).length = 1
  | .command | .exposure | .filter | .move | .change | .cupolaNotMove | .changeFocus | .setFocus
  | .mirror | .integrate | .info | .statusInfo | .register | .deviceStatusInfo | .monitorInfo =>
    ∀ status ∈ statuses, status ≠ 1

/-- One event is posted for the command, to its originator. -/
def Poster.CompletedOnce (s : Poster) (c : Command) (o : Nat) : Prop :=
  ∃ event, s.posted.filter (·.command = c.id) = [⟨o, c.id, event⟩]

/-! ## Events of one reply -/

/-- What a reply makes a class post, whatever the state of a login. -/
def CommandClass.events (cl : CommandClass) (status : Int) : List Completion :=
  (cl.commandReturn .loginSend status).posted

theorem commandReturn_posted (state : LoginState) (cl : CommandClass) (status : Int) :
    (cl.commandReturn state status).posted = cl.events status := by
  unfold CommandClass.events CommandClass.commandReturn
  by_cases hzero : status = 0
  · rw [if_pos hzero, if_pos hzero]
    cases cl <;> cases state <;> rfl
  rw [if_neg hzero, if_neg hzero]
  by_cases hone : status = 1
  · rw [if_pos hone, if_pos hone]
    cases cl <;> cases state <;> rfl
  · rw [if_neg hone, if_neg hone]
    cases cl <;> rfl

/-- Only a login is sent again. -/
theorem commandReturn_done (state : LoginState) {cl : CommandClass} (status : Int)
    (hcl : cl ≠ .login) : (cl.commandReturn state status).ret = .done := by
  unfold CommandClass.commandReturn
  by_cases hzero : status = 0
  · rw [if_pos hzero]
    cases cl with
    | login => exact absurd rfl hcl
    | _ => rfl
  rw [if_neg hzero]
  by_cases hone : status = 1
  · rw [if_pos hone]
    cases cl with
    | login => exact absurd rfl hcl
    | _ => rfl
  · rw [if_neg hone]
    cases cl <;> rfl

theorem events_zero (cl : CommandClass) :
    cl.events 0 = (cl.commandReturnOK .loginSend).posted := rfl

theorem events_one (cl : CommandClass) :
    cl.events 1 = .ok :: (cl.commandReturnOK .loginSend).posted := rfl

theorem events_other (cl : CommandClass) {status : Int} (hzero : status ≠ 0) (hone : status ≠ 1) :
    cl.events status = (cl.commandReturnFailed .loginSend).posted := by
  rw [CommandClass.events, CommandClass.commandReturn, if_neg hzero, if_neg hone]

theorem postsOnce_single {cl : CommandClass} (hcl : cl ≠ .login) (status : Int) :
    (cl.events status).length = 1 ↔ cl.PostsOnce [status] := by
  by_cases hzero : status = 0
  · rw [hzero, events_zero]
    cases cl with
    | login => exact absurd rfl hcl
    | _ => simp [CommandClass.PostsOnce, CommandClass.commandReturnOK, commandReturnOK]
  by_cases hone : status = 1
  · rw [hone, events_one]
    cases cl with
    | login => exact absurd rfl hcl
    | _ => simp [CommandClass.PostsOnce, CommandClass.commandReturnOK, commandReturnOK]
  · rw [events_other cl hzero hone]
    cases cl with
    | login => exact absurd rfl hcl
    | _ => simp [CommandClass.PostsOnce, CommandClass.commandReturnFailed, commandReturnFailed,
        commandReturnOK, hzero, hone]

/-- A login posts for every reply but the plain ones. -/
theorem events_login (statuses : List Int) :
    (statuses.flatMap CommandClass.login.events).length =
      (statuses.filter (· ≠ 0)).length := by
  induction statuses with
  | nil => rfl
  | cons status statuses ih =>
    rw [List.flatMap_cons, List.length_append, ih]
    by_cases hzero : status = 0
    · rw [hzero, List.filter_cons_of_neg (by simp), events_zero]
      exact Nat.zero_add _
    rw [List.filter_cons_of_pos (by simpa using hzero), List.length_cons, Nat.add_comm]
    by_cases hone : status = 1
    · rw [hone, events_one]
      rfl
    · rw [events_other _ hzero hone]
      rfl

/-! ## What a step does to the commands -/

def Conn.commands (s : Conn) : List Command :=
  s.finished ++ s.runningCommand.toList ++ s.commandQue

/-- The same command object: the progress may differ. -/
structure Command.Same (c d : Command) : Prop where
  id : c.id = d.id
  originator : c.originator = d.originator
  statusFor : c.statusFor = d.statusFor

/-- A new command; a `device_status` has no originator. -/
structure Command.Fresh (nextId : Nat) (c : Command) : Prop where
  id : nextId ≤ c.id
  originator : c.statusFor.isSome → c.originator = none

/-- The replies that were credited. -/
def Action.isCredited : Action → Bool
  | .sent _ _ => false
  | .credited _ _ _ => true

/-- Commands are those there were or new ones; `replies` were credited and `done` finished. -/
structure Follows (s : Conn) (replies : List Action) (done : List Command) (s' : Conn) : Prop where
  nextId : s.nextId ≤ s'.nextId
  commands : ∀ c ∈ s'.commands, (∃ d ∈ s.commands, c.Same d) ∨ c.Fresh s.nextId
  credited : s'.trace.filter Action.isCredited = s.trace.filter Action.isCredited ++ replies
  finished : s'.finished = s.finished ++ done

theorem Command.Same.refl (c : Command) : c.Same c := ⟨rfl, rfl, rfl⟩

theorem Command.Same.trans {c d e : Command} (h : c.Same d) (h' : d.Same e) : c.Same e :=
  ⟨h.id.trans h'.id, h.originator.trans h'.originator, h.statusFor.trans h'.statusFor⟩

theorem Command.Same.set (c : Command) (progress : CipState) :
    (c.setStatusCallProgress progress).Same c := ⟨rfl, rfl, rfl⟩

theorem Command.Fresh.of_same {c d : Command} {nextId : Nat} (h : d.Fresh nextId)
    (hsame : c.Same d) : c.Fresh nextId := by
  refine ⟨hsame.id ▸ h.id, fun hstatus => ?_⟩
  rw [hsame.statusFor] at hstatus
  rw [hsame.originator, h.originator hstatus]

theorem newCommand_fresh (s : Conn) (r : Request) (ordered : Bool) :
    (s.newCommand r ordered).Fresh s.nextId :=
  ⟨le_rfl, fun hstatus => absurd hstatus Bool.false_ne_true⟩

theorem Follows.refl (s : Conn) : Follows s [] [] s :=
  ⟨le_rfl, fun c hc => .inl ⟨c, hc, .refl c⟩, (List.append_nil _).symm, (List.append_nil _).symm⟩

theorem Follows.trans {s t u : Conn} {replies replies' : List Action} {done done' : List Command}
    (h : Follows s replies done t) (h' : Follows t replies' done' u) :
    Follows s (replies ++ replies') (done ++ done') u where
  nextId := h.nextId.trans h'.nextId
  commands := by
    intro c hc
    rcases h'.commands c hc with ⟨d, hd, hsame⟩ | hnew
    · rcases h.commands d hd with ⟨e, he, hsame'⟩ | hnew
      · exact .inl ⟨e, he, hsame.trans hsame'⟩
      · exact .inr (hnew.of_same hsame)
    · exact .inr ⟨h.nextId.trans hnew.id, hnew.originator⟩
  credited := by rw [h'.credited, h.credited, List.append_assoc]
  finished := by rw [h'.finished, h.finished, List.append_assoc]

/-- What went before credited and finished nothing. -/
theorem Follows.next {s t u : Conn} {replies : List Action} {done : List Command}
    (h : Follows s [] [] t) (h' : Follows t replies done u) : Follows s replies done u :=
  h.trans h'

/-- Nothing is finished, and the running command and the queue hold only what they held. -/
theorem Follows.of_sub {s s' : Conn} (hnext : s.nextId ≤ s'.nextId)
    (hfin : s'.finished = s.finished)
    (htrace : s'.trace.filter Action.isCredited = s.trace.filter Action.isCredited)
    (hsub : ∀ c ∈ s'.runningCommand.toList ++ s'.commandQue,
      (∃ d ∈ s.runningCommand.toList ++ s.commandQue, c.Same d) ∨ c.Fresh s.nextId) :
    Follows s [] [] s' where
  nextId := hnext
  commands := by
    intro c hc
    unfold Conn.commands at hc ⊢
    rw [List.append_assoc, hfin] at hc
    rw [List.append_assoc]
    rcases List.mem_append.mp hc with hc | hc
    · exact .inl ⟨c, List.mem_append_left _ hc, .refl c⟩
    · rcases hsub c hc with ⟨d, hd, hsame⟩ | hnew
      · exact .inl ⟨d, List.mem_append_right _ hd, hsame⟩
      · exact .inr hnew
  credited := by rw [htrace, List.append_nil]
  finished := by rw [hfin, List.append_nil]

theorem transmit_credited (s : Conn) (c : Command) :
    (s.transmit c).trace.filter Action.isCredited = s.trace.filter Action.isCredited := by
  simp [Conn.transmit, Action.isCredited]

theorem sendCommand_follows (s : Conn) : Follows s [] [] s.sendCommand := by
  cases hrun : s.runningCommand with
  | none =>
    have hsame : s.sendCommand = s := by simp only [Conn.sendCommand, hrun]
    rw [hsame]
    exact .refl s
  | some c =>
    have hc : c ∈ s.runningCommand.toList ++ s.commandQue := by simp [hrun]
    have hkeep : ∀ d ∈ s.runningCommand.toList ++ s.commandQue,
        (∃ e ∈ s.runningCommand.toList ++ s.commandQue, d.Same e) ∨ d.Fresh s.nextId :=
      fun d hd => .inl ⟨d, hd, .refl d⟩
    -- the running command changes its progress at most
    have hset : ∀ progress, ∀ d ∈ (some (c.setStatusCallProgress progress)).toList ++ s.commandQue,
        (∃ e ∈ s.runningCommand.toList ++ s.commandQue, d.Same e) ∨ d.Fresh s.nextId := by
      intro progress d hd
      rcases List.mem_append.mp hd with hd | hd
      · rw [Option.mem_toList] at hd
        exact .inl ⟨c, hc, Option.some.inj hd ▸ .set c progress⟩
      · exact .inl ⟨d, List.mem_append_right _ hd, .refl d⟩
    have hsends := sendCommand_sends hrun
    revert hsends
    generalize s.sendCommand = s'
    intro hsends
    cases hsends with
    | unmasked => exact .of_sub le_rfl rfl (transmit_credited s c) hkeep
    | whileSent => exact .of_sub le_rfl rfl (transmit_credited s c) (hset .wait)
    | whileWaits => exact .of_sub le_rfl rfl rfl hkeep
    | whileClear => exact .of_sub le_rfl rfl rfl (hset .run)
    | asksStatus =>
      refine .of_sub (Nat.le_succ _) rfl (transmit_credited s _) fun d hd => ?_
      rcases List.mem_cons.mp hd with rfl | hd
      · exact .inr ⟨le_rfl, fun _ => rfl⟩
      · exact hset .wait d hd
    | waits => exact .of_sub le_rfl rfl rfl (hset .run)
    | sent => exact .of_sub le_rfl rfl (transmit_credited s c) (hset .ret)
    | sentBefore => exact .refl s

theorem sendNextCommand_follows (s : Conn) : Follows s [] [] s.sendNextCommand := by
  unfold Conn.sendNextCommand
  cases hque : s.commandQue with
  | nil =>
    refine .of_sub le_rfl rfl rfl fun c hc => ?_
    cases hc
  | cons c rest =>
    have hstart : Follows s [] [] { s with runningCommand := some c, commandQue := rest } := by
      refine .of_sub le_rfl rfl rfl fun d hd => .inl ⟨d, List.mem_append_right _ ?_, .refl d⟩
      rw [hque]
      exact hd
    exact hstart.next (sendCommand_follows _)

theorem sendCommandIn_follows (s : Conn) (progress : CipState) :
    Follows s [] [] (s.sendCommandIn progress) := by
  unfold Conn.sendCommandIn
  cases hrun : s.runningCommand with
  | none => exact .refl s
  | some c =>
    by_cases hcip : c.getStatusCallProgress = progress
    · simp only [if_pos hcip]
      exact sendCommand_follows s
    · simp only [if_neg hcip]
      exact .refl s

/-- A new command comes in, at either end of the queue or as the running one. -/
theorem new_follows {s s' : Conn} (r : Request) (ordered : Bool) (hnext : s'.nextId = s.nextId + 1)
    (hfin : s'.finished = s.finished) (htrace : s'.trace = s.trace)
    (hsub : ∀ c ∈ s'.runningCommand.toList ++ s'.commandQue,
      c ∈ s.runningCommand.toList ++ s.commandQue ∨ c = s.newCommand r ordered) :
    Follows s [] [] s' := by
  refine .of_sub (hnext ▸ Nat.le_succ _) hfin (by rw [htrace]) fun c hc => ?_
  rcases hsub c hc with hold | rfl
  · exact .inl ⟨c, hold, .refl c⟩
  · exact .inr (newCommand_fresh s r ordered)

theorem queCommand_follows (s : Conn) (r : Request) : Follows s [] [] (s.queCommand r) := by
  unfold Conn.queCommand
  by_cases hpush : s.runningCommand.isSome ∨ (s.connState ≠ .authOk ∧ s.connState ≠ .connected)
  · simp only [if_pos hpush]
    refine new_follows r true rfl rfl rfl fun c hc => ?_
    rw [← List.append_assoc] at hc
    rcases List.mem_append.mp hc with hc | hc
    · exact .inl hc
    · exact .inr (List.mem_singleton.mp hc)
  · simp only [if_neg hpush]
    refine Follows.next ?_ (sendCommand_follows _)
    refine new_follows r true rfl rfl rfl fun c hc => ?_
    rcases List.mem_cons.mp hc with hc | hc
    · exact .inr hc
    · exact .inl (List.mem_append_right _ hc)

theorem queSend_follows (s : Conn) (r : Request) : Follows s [] [] (s.queSend r) := by
  have hpush : Follows s [] []
      { s with nextId := s.nextId + 1, commandQue := s.newCommand r false :: s.commandQue } := by
    refine new_follows r false rfl rfl rfl fun c hc => ?_
    rcases List.mem_append.mp hc with hc | hc
    · exact .inl (List.mem_append_left _ hc)
    · rcases List.mem_cons.mp hc with hc | hc
      · exact .inr hc
      · exact .inl (List.mem_append_right _ hc)
  have hstart : ∀ que, que = s.runningCommand.toList ++ s.commandQue →
      Follows s [] [] ({ s with nextId := s.nextId + 1, commandQue := que,
                                runningCommand := some (s.newCommand r false) } : Conn).sendCommand := by
    rintro que rfl
    refine Follows.next ?_ (sendCommand_follows _)
    refine new_follows r false rfl rfl rfl fun c hc => ?_
    rcases List.mem_cons.mp hc with hc | hc
    · exact .inr hc
    · exact .inl hc
  unfold Conn.queSend
  by_cases hstate : s.connState = .connecting ∨ s.connState = .inprogress ∨ s.connState = .unknow
  · simp only [if_pos hstate]
    exact hpush
  simp only [if_neg hstate]
  cases hrun : s.runningCommand with
  | none =>
    have hque := hstart s.commandQue (by rw [hrun]; rfl)
    simpa only [hrun] using hque
  | some c =>
    by_cases hst : s.runningCommandStatus = .send ∨ s.runningCommandStatus = .returning
    · simp only [if_pos hst]
      rw [← hrun]
      exact hpush
    · simp only [if_neg hst]
      have hque := hstart (c :: s.commandQue) (by rw [hrun]; rfl)
      simpa only [hrun] using hque

theorem call_follows (s : Conn) (call : Call) : Follows s [] [] (s.call call) := by
  have hframe : ∀ t t' : Conn, t'.nextId = t.nextId → t'.finished = t.finished →
      t'.trace = t.trace → t'.runningCommand = t.runningCommand → t'.commandQue = t.commandQue →
      Follows t [] [] t' := by
    intro t t' hnext hfin htrace hrun hque
    refine .of_sub hnext.ge hfin (by rw [htrace]) fun c hc => .inl ⟨c, ?_, .refl c⟩
    rwa [hrun, hque] at hc
  cases call with
  | queCommand r => exact queCommand_follows s r
  | queSend r => exact queSend_follows s r
  | setBopState inValue =>
    exact (hframe s { s with bopState := inValue } rfl rfl rfl rfl rfl).trans
      (sendCommandIn_follows _ .run)
  | masterStateChanged => exact sendCommandIn_follows s .run
  | setConnState newConnState up =>
    show Follows s [] [] (s.setConnState newConnState)
    unfold Conn.setConnState
    by_cases hnext : (newConnState = .authOk ∨ newConnState = .connected) ∧
        s.runningCommand = none
    · simp only [if_pos hnext]
      exact (sendNextCommand_follows s).next (hframe _ _ rfl rfl rfl rfl rfl)
    · simp only [if_neg hnext]
      exact hframe _ _ rfl rfl rfl rfl rfl

theorem calls_follow (s : Conn) (calls : List Call) :
    Follows s [] [] (run Conn.call s calls) := by
  induction calls generalizing s with
  | nil => exact .refl s
  | cons call calls ih => exact (call_follows s call).next (ih (s.call call))

/-! ## A reply -/

theorem endReturn_follows {s : Conn} {c : Command} (hrun : s.runningCommand = some c)
    (ret : ReturnCode) :
    Follows s [] (if ret = .done then [c] else []) (s.endReturn ret) := by
  cases ret with
  | keep => exact .refl s
  | reque => exact sendCommand_follows s
  | done =>
    have hdone : Follows s [] [c] { s with finished := s.finished ++ s.runningCommand.toList } := by
      refine ⟨le_rfl, fun d hd => .inl ⟨d, ?_, .refl d⟩, (List.append_nil _).symm, by rw [hrun]; rfl⟩
      simp only [Conn.commands, List.mem_append] at hd ⊢
      tauto
    rw [if_pos rfl]
    exact hdone.trans
      (sendNextCommand_follows { s with finished := s.finished ++ s.runningCommand.toList })

/-- A reply is credited to the running command, which is finished if its handlers are done with
it. -/
theorem commandReturn_follows {s : Conn} (h : Inv s) {sender : Nat} {wire : List Nat} {c : Command}
    (hwire : s.wire = sender :: wire) (hrun : s.runningCommand = some c) (status : Int)
    (calls : List Call) (ret : ReturnCode) :
    Follows s [.credited c.id c status]
      (if c.statusFor.isSome ∨ ret = .done then [c] else [])
      (s.commandReturn status calls ret) := by
  obtain ⟨d, hd, rfl, hbegin⟩ := h.beginReturn hwire
  rw [hrun] at hd
  cases hd
  obtain ⟨hinv, hret⟩ := run_invariant (I := fun t => Inv t ∧ Returning t c) (hbegin status)
    (fun t call ht => ⟨ht.1.call call, ht.2.call call⟩) calls
  have heq : s.commandReturn status calls ret = (run Conn.call
      ({ s with wire }.beginReturn c.id c status) calls).endReturn
        (if c.statusFor.isSome then .done else ret) := by
    have hparts : s.commandReturn status calls ret =
        if c.statusFor.isSome then
          (run Conn.call ({ s with wire }.beginReturn c.id c status) calls).updateStatusWait.endReturn
            .done
        else (run Conn.call ({ s with wire }.beginReturn c.id c status) calls).endReturn ret := by
      obtain ⟨connState, bop, que, running, runningStatus, nextId, wire', trace, finished⟩ := s
      cases hwire
      cases hrun
      rfl
    rw [hparts]
    by_cases hstatus : c.statusFor.isSome
    · rw [if_pos hstatus, if_pos hstatus, hret.updateStatusWait hinv.status hstatus]
    · rw [if_neg hstatus, if_neg hstatus]
  have hcredit : Follows s [.credited c.id c status] []
      ({ s with wire }.beginReturn c.id c status) := by
    refine ⟨le_rfl, fun e he => .inl ⟨e, he, .refl e⟩, ?_, (List.append_nil _).symm⟩
    simp [Conn.beginReturn, Action.isCredited]
  have hend := (hcredit.trans (calls_follow _ calls)).trans
    (endReturn_follows hret.running (if c.statusFor.isSome then .done else ret))
  have hdone : (if c.statusFor.isSome then ReturnCode.done else ret) = .done ↔
      (c.statusFor.isSome ∨ ret = .done) := by
    by_cases hstatus : c.statusFor.isSome
    · simp [hstatus]
    · simp [hstatus]
  simp only [hdone] at hend
  rw [heq]
  simpa only [List.append_nil, List.nil_append] using hend

/-! ## The invariant -/

theorem credited_filterMap {α : Type} {f : Action → Option α} (hf : ∀ c bop, f (.sent c bop) = none)
    (trace : List Action) : (trace.filter Action.isCredited).filterMap f = trace.filterMap f := by
  induction trace with
  | nil => rfl
  | cons a trace ih =>
    cases a with
    | sent c bop =>
      rw [List.filter_cons_of_neg (by simp [Action.isCredited]), ih,
        List.filterMap_cons_none (hf c bop)]
    | credited sender c status =>
      rw [List.filter_cons_of_pos rfl, List.filterMap_cons, List.filterMap_cons, ih]

/-- What a reply that is credited has posted. -/
def Action.posts (cls : Nat → CommandClass) : Action → List Post
  | .sent _ _ => []
  | .credited _ c status => c.posts ((c.classOf cls).events status)

theorem credited_posts (cls : Nat → CommandClass) (trace : List Action) :
    (trace.filter Action.isCredited).flatMap (Action.posts cls) =
      trace.flatMap (Action.posts cls) := by
  induction trace with
  | nil => rfl
  | cons a trace ih =>
    cases a with
    | sent c bop =>
      rw [List.filter_cons_of_neg (by simp [Action.isCredited]), ih, List.flatMap_cons]
      rfl
    | credited sender c status =>
      rw [List.filter_cons_of_pos rfl, List.flatMap_cons, List.flatMap_cons, ih]

section
variable {cls : Nat → CommandClass} {s : Poster}

structure Keeps (cls : Nat → CommandClass) (s : Poster) : Prop where
  inv : Inv s.conn
  posted : s.posted = s.conn.trace.flatMap (Action.posts cls)
  /-- A reply that was credited is for the command of that id. -/
  same : ∀ sender d status, .credited sender d status ∈ s.conn.trace →
    d.id < s.conn.nextId ∧ ∀ c ∈ s.conn.commands, c.id = d.id → c.Same d
  /-- One reply for each finished command, but for logins. -/
  once : ∀ id, cls id ≠ .login →
    (s.conn.repliesTo id).length = (s.conn.finished.map Command.id).count id
  /-- A `device_status` has no originator. -/
  device : ∀ c ∈ s.conn.commands, c.statusFor.isSome → c.originator = none

theorem Inv.ids {t : Conn} (h : Inv t) : (t.commands.map Command.id).Perm (List.range t.nextId) :=
  h.served.onePlace

theorem Inv.id_lt {t : Conn} (h : Inv t) {c : Command} (hc : c ∈ t.commands) : c.id < t.nextId :=
  List.mem_range.mp (h.ids.subset (List.mem_map_of_mem hc))

theorem Inv.eq_of_id {t : Conn} (h : Inv t) {c d : Command} (hc : c ∈ t.commands)
    (hd : d ∈ t.commands) (hid : c.id = d.id) : c = d :=
  List.inj_on_of_nodup_map (h.ids.nodup_iff.mpr List.nodup_range) hc hd hid

theorem Keeps.start (connState : ConnState) : Keeps cls (Poster.start connState) where
  inv := .start connState
  posted := rfl
  same := fun _ _ _ h => by cases h
  once := fun _ _ => rfl
  device := fun _ h => by cases h

theorem Follows.mem_trace {s s' : Conn} {replies : List Action} {done : List Command}
    (h : Follows s replies done s') {sender : Nat} {d : Command} {status : Int}
    (hmem : .credited sender d status ∈ s'.trace) :
    .credited sender d status ∈ s.trace ∨ .credited sender d status ∈ replies := by
  have hfilter : Action.credited sender d status ∈ s'.trace.filter Action.isCredited :=
    List.mem_filter.mpr ⟨hmem, rfl⟩
  rw [h.credited] at hfilter
  rcases List.mem_append.mp hfilter with hold | hnew
  · exact .inl (List.mem_filter.mp hold).1
  · exact .inr hnew

theorem Follows.repliesTo {s s' : Conn} {replies : List Action} {done : List Command}
    (h : Follows s replies done s') (id : Nat) :
    s'.repliesTo id = s.repliesTo id ++ replies.filterMap (Action.replyTo id) := by
  have hsent : ∀ c bop, Action.replyTo id (.sent c bop) = none := fun _ _ => rfl
  rw [Conn.repliesTo, Conn.repliesTo, ← credited_filterMap hsent s'.trace, h.credited,
    List.filterMap_append, credited_filterMap hsent]

theorem Follows.posts {s s' : Conn} {replies : List Action} {done : List Command}
    (h : Follows s replies done s') (cls : Nat → CommandClass) :
    s'.trace.flatMap (Action.posts cls) =
      s.trace.flatMap (Action.posts cls) ++ replies.flatMap (Action.posts cls) := by
  rw [← credited_posts cls s'.trace, h.credited, List.flatMap_append, credited_posts]

/-- What is credited is credited to commands that were there. -/
theorem Keeps.follows (h : Keeps cls s) {s' : Poster} {replies : List Action} {done : List Command}
    (hinv : Inv s'.conn) (hf : Follows s.conn replies done s'.conn)
    (hposted : s'.posted = s.posted ++ replies.flatMap (Action.posts cls))
    (hreplies : ∀ sender d status, .credited sender d status ∈ replies → d ∈ s.conn.commands)
    (honce : ∀ id, cls id ≠ .login → (replies.filterMap (Action.replyTo id)).length =
      (done.map Command.id).count id) : Keeps cls s' where
  inv := hinv
  posted := by rw [hposted, h.posted, hf.posts]
  same := by
    intro sender d status hmem
    have hold : d.id < s.conn.nextId ∧ ∀ c ∈ s.conn.commands, c.id = d.id → c.Same d := by
      rcases hf.mem_trace hmem with hold | hnew
      · exact h.same sender d status hold
      · have hd := hreplies sender d status hnew
        exact ⟨h.inv.id_lt hd, fun c hc hid => h.inv.eq_of_id hc hd hid ▸ .refl c⟩
    refine ⟨hold.1.trans_le hf.nextId, fun c hc hid => ?_⟩
    rcases hf.commands c hc with ⟨e, he, hsame⟩ | hfresh
    · exact hsame.trans (hold.2 e he (hsame.id.symm.trans hid))
    · have hlt := hold.1
      have hle := hfresh.id
      omega
  once := by
    intro id hid
    rw [hf.repliesTo, List.length_append, h.once id hid, honce id hid, hf.finished, List.map_append,
      List.count_append]
  device := by
    intro c hc hstatus
    rcases hf.commands c hc with ⟨e, he, hsame⟩ | hfresh
    · rw [hsame.originator]
      exact h.device e he (hsame.statusFor ▸ hstatus)
    · exact hfresh.originator hstatus

theorem Keeps.step (h : Keeps cls s) (input : Input) : Keeps cls (s.step cls input) := by
  have hnone : ∀ sender d status, Action.credited sender d status ∈ ([] : List Action) →
      d ∈ s.conn.commands := fun _ _ _ hmem => by cases hmem
  cases input with
  | call c =>
    exact h.follows (h.inv.call c) (call_follows s.conn c) (List.append_nil _).symm hnone
      fun _ _ => rfl
  | reply status calls =>
    cases hwire : s.conn.wire with
    | nil =>
      have hsame : s.step cls (.reply status calls) = s := by
        simp only [Poster.step, Conn.commandReturn, hwire]
      rw [hsame]
      exact h
    | cons sender wire =>
      obtain ⟨c, hrun, rfl, -⟩ := h.inv.beginReturn hwire
      have hcommand : c ∈ s.conn.commands := by simp [Conn.commands, hrun]
      have hstep : s.step cls (.reply status calls) =
          { conn := s.conn.commandReturn status calls
              ((c.classOf cls).commandReturn (s.state c.id) status).ret
            state := Function.update s.state c.id
              ((c.classOf cls).commandReturn (s.state c.id) status).state
            posted := s.posted ++
              c.posts ((c.classOf cls).commandReturn (s.state c.id) status).posted } := by
        simp only [Poster.step, hwire, hrun]
      rw [hstep]
      refine h.follows (h.inv.step (.reply status calls _))
        (commandReturn_follows h.inv hwire hrun status calls _) ?_ ?_ ?_
      · rw [commandReturn_posted]
        simp [Action.posts]
      · intro sender d st hmem
        rw [List.mem_singleton, Action.credited.injEq] at hmem
        rw [hmem.2.1]
        exact hcommand
      · intro id hid
        by_cases hsame : c.id = id
        · have hdone : c.statusFor.isSome ∨
              ((c.classOf cls).commandReturn (s.state c.id) status).ret = .done := by
            by_cases hstatus : c.statusFor.isSome
            · exact .inl hstatus
            · refine .inr (commandReturn_done _ _ ?_)
              rwa [Command.classOf, if_neg hstatus, hsame]
          rw [if_pos hdone]
          simp [Action.replyTo, hsame]
        · have hreply : Action.replyTo id (.credited c.id c status) = none := if_neg hsame
          rw [List.filterMap_cons_none hreply]
          by_cases hdone : c.statusFor.isSome ∨
              ((c.classOf cls).commandReturn (s.state c.id) status).ret = .done
          · rw [if_pos hdone]
            simp [hsame]
          · rw [if_neg hdone]
            rfl

end

/-! ## Runs -/

/-- What is posted for a command is what its replies make its class post. -/
theorem posts_filter (cls : Nat → CommandClass) {c : Command} {o : Nat} (ho : c.originator = some o)
    {trace : List Action} (hsame : ∀ sender d status, .credited sender d status ∈ trace →
      c.id = d.id → c.Same d) :
    (trace.flatMap (Action.posts cls)).filter (·.command = c.id) =
      ((trace.filterMap (Action.replyTo c.id)).flatMap (c.classOf cls).events).map
        (⟨o, c.id, ·⟩) := by
  induction trace with
  | nil => rfl
  | cons a trace ih =>
    have ih' := ih fun sender d status hmem => hsame sender d status (List.mem_cons_of_mem _ hmem)
    rw [List.flatMap_cons, List.filter_append, ih']
    cases a with
    | sent d bop =>
      rw [List.filterMap_cons_none rfl]
      rfl
    | credited sender d status =>
      by_cases hid : d.id = c.id
      · have hd := hsame sender d status List.mem_cons_self hid.symm
        have hreply : Action.replyTo c.id (.credited sender d status) = some status := if_pos hid
        have hclass : d.classOf cls = c.classOf cls := by
          rw [Command.classOf, Command.classOf, hd.statusFor, hid]
        have hposts : Action.posts cls (.credited sender d status) =
            ((c.classOf cls).events status).map (⟨o, c.id, ·⟩) := by
          rw [Action.posts, Command.posts, ← hd.originator, ho, hclass, hid]
        rw [List.filterMap_cons_some hreply, List.flatMap_cons, List.map_append, hposts]
        congr 1
        exact List.filter_eq_self.mpr (by simp)
      · have hreply : Action.replyTo c.id (.credited sender d status) = none := if_neg hid
        rw [List.filterMap_cons_none hreply]
        have hother : (Action.posts cls (.credited sender d status)).filter (·.command = c.id) =
            [] := by
          rw [List.filter_eq_nil_iff]
          intro p hp
          have hcommand : p.command = d.id := by
            rw [Action.posts, Command.posts] at hp
            cases hd : d.originator with
            | none =>
              rw [hd] at hp
              cases hp
            | some o' =>
              rw [hd] at hp
              obtain ⟨e, -, rfl⟩ := List.mem_map.mp hp
              rfl
          rw [hcommand]
          simpa using hid
        rw [hother, List.nil_append]

theorem Keeps.once_iff {cls : Nat → CommandClass} {s : Poster} (h : Keeps cls s)
    {c : Command} {o : Nat} (hc : c ∈ s.conn.finished) (ho : c.originator = some o) :
    s.CompletedOnce c o ↔ (c.classOf cls).PostsOnce (s.conn.repliesTo c.id) := by
  have hcommand : c ∈ s.conn.commands := by simp [Conn.commands, hc]
  have hposts := posts_filter cls ho fun sender d status hmem hid =>
    (h.same sender d status hmem).2 c hcommand hid
  have hlength : s.CompletedOnce c o ↔
      ((s.conn.repliesTo c.id).flatMap (c.classOf cls).events).length = 1 := by
    rw [Poster.CompletedOnce, h.posted, hposts, ← Conn.repliesTo, List.length_eq_one_iff]
    constructor
    · rintro ⟨event, hevent⟩
      obtain ⟨e, he, -⟩ := List.map_eq_singleton_iff.mp hevent
      exact ⟨e, he⟩
    · rintro ⟨event, hevent⟩
      exact ⟨event, by rw [hevent]; rfl⟩
  rw [hlength]
  by_cases hlogin : c.classOf cls = .login
  · rw [hlogin, events_login]
    rfl
  · have hcls : cls c.id ≠ .login := by
      by_cases hstatus : c.statusFor.isSome
      · rw [h.device c hcommand hstatus] at ho
        cases ho
      · rwa [Command.classOf, if_neg hstatus] at hlogin
    have hcount : (s.conn.finished.map Command.id).count c.id = 1 := by
      have hnodup : (s.conn.finished.map Command.id).Nodup := by
        have hall := h.inv.ids.nodup_iff.mpr List.nodup_range
        rw [Conn.commands, List.append_assoc, List.map_append] at hall
        exact hall.of_append_left
      exact List.count_eq_one_of_mem hnodup (List.mem_map_of_mem hc)
    obtain ⟨status, hstatus⟩ := List.length_eq_one_iff.mp ((h.once c.id hcls).trans hcount)
    rw [hstatus, List.flatMap_singleton]
    exact postsOnce_single hlogin status

/-- **One event for each command**: it is posted to the originator if and only if the replies have
the statuses that the class of the command posts once for. -/
theorem completedOnce_iff (cls : Nat → CommandClass) (connState : ConnState) (inputs : List Input)
    (c : Command) (o : Nat)
    (hc : c ∈ (run (Poster.step cls) (Poster.start connState) inputs).conn.finished)
    (ho : c.originator = some o) :
    (run (Poster.step cls) (Poster.start connState) inputs).CompletedOnce c o ↔
      (c.classOf cls).PostsOnce
        ((run (Poster.step cls) (Poster.start connState) inputs).conn.repliesTo c.id) :=
  (run_invariant (Keeps.start connState) (fun _ input h => h.step input) inputs).once_iff
    hc ho

theorem Poster.CompletedOnce.length {s : Poster} {c : Command} {o : Nat}
    (h : s.CompletedOnce c o) : (s.posted.filter (·.command = c.id)).length = 1 := by
  obtain ⟨event, h⟩ := h
  rw [h]
  rfl

theorem noMask_clear : 0#32 &&& bopCipMask = 0#32 := BitVec.zero_and

/-- A command with an originator. -/
def askedRequest : Request where
  text := "info"
  bopMask := 0#32
  originator := some 7
  cipClear := noMask_clear

/-- The second of two such commands fails. -/
theorem completedOnce_second :
    (run (Poster.step fun _ => .command) (Poster.start .connected)
      [.call (.queCommand askedRequest), .call (.queCommand askedRequest), .reply 0 [],
        .reply (-2) []]).CompletedOnce
      (Conn.newCommand { Conn.start .connected with nextId := 1 } askedRequest true) 7 :=
  (completedOnce_iff _ .connected _ _ 7 (by decide) rfl).mpr
    (show ∀ status ∈ [(-2 : Int)], status ≠ 1 by decide)

/-- A queued command completes twice, and a `CommandAuthorize` that fails not at all. -/
theorem not_completedOnce_qued :
    ¬ (run (Poster.step fun _ => .command) (Poster.start .connected)
      [.call (.queCommand askedRequest), .reply 1 []]).CompletedOnce
        ((Conn.start .connected).newCommand askedRequest true) 7 ∧
    ¬ (run (Poster.step fun _ => .authorize) (Poster.start .connected)
      [.call (.queCommand askedRequest), .reply (-1) []]).CompletedOnce
        ((Conn.start .connected).newCommand askedRequest true) 7 := by
  constructor
  · intro h
    exact absurd h.length (by decide)
  · intro h
    exact absurd h.length (by decide)

end Rts2.CommandQue

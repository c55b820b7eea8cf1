import Rts2.Connection.CommandQue
import Mathlib.Data.List.Perm.Basic
import Mathlib.Data.List.Range

/-! # One command at a time, in order

The commands of a connection stand in one line: the finished ones, the running
one, the queue. No step takes a command out of the line or puts two in one
place, and the commands given to `queCommand` never overtake each other. At
most one transmitted command is unanswered, and it is the running one. -/
namespace Rts2.CommandQue
open Rts2.Lib
open scoped List

/-! ## What `sendCommand` does -/

/-- Every outcome of `sendCommand` with the command `c` running. -/
inductive Sends (s : Conn) (c : Command) : Conn → Prop where
  | unmasked (hmask : c.bopMask = 0#32) :
    Sends s c { s.transmit c with runningCommandStatus := .send }
  | whileSent (hmask : c.bopMask ≠ 0#32) (hwhile : c.isWhileState = true)
      (hblocked : c.isBlockedBy s.bopState = true) :
    Sends s c { s.transmit c with
      runningCommand := some (c.setStatusCallProgress .wait), runningCommandStatus := .send }
  | whileWaits (hwhile : c.isWhileState = true) (hcip : c.getStatusCallProgress = .wait) :
    Sends s c { s with runningCommandStatus := .waiting }
  | whileClear (hwhile : c.isWhileState = true) :
    Sends s c { s with runningCommand := some (c.setStatusCallProgress .run) }
  | asksStatus (hmask : c.bopMask ≠ 0#32) (hwhile : c.isWhileState = false)
      (hcip : c.getStatusCallProgress = .notCalled) :
    Sends s c { s.transmit (deviceStatus s.nextId c) with
      nextId := s.nextId + 1
      commandQue := c.setStatusCallProgress .wait :: s.commandQue
      runningCommand := some (deviceStatus s.nextId c)
      runningCommandStatus := .send }
  | waits (hwhile : c.isWhileState = false)
      (hcip : c.getStatusCallProgress = .wait ∨ c.getStatusCallProgress = .run) :
    Sends s c { s with
      runningCommand := some (c.setStatusCallProgress .run), runningCommandStatus := .waiting }
  | sent (hmask : c.bopMask ≠ 0#32) (hwhile : c.isWhileState = false)
      (hcip : c.getStatusCallProgress = .wait ∨ c.getStatusCallProgress = .run)
      (hfree : c.isBlockedBy s.bopState = false) :
    Sends s c { s.transmit c with
      runningCommand := some (c.setStatusCallProgress .ret), runningCommandStatus := .send }
  | sentBefore (hcip : c.getStatusCallProgress = .ret) : Sends s c s

theorem sendCommand_sends {s : Conn} {c : Command} (h : s.runningCommand = some c) :
    Sends s c s.sendCommand := by
  obtain ⟨connState, bop, que, running, status, nextId, wire, trace, finished⟩ := s
  cases h
  simp only [Conn.sendCommand]
  by_cases hmask : c.bopMask ≠ 0#32
  · rw [if_pos hmask]
    cases hwhile : c.isWhileState with
    | true =>
      cases hblocked : c.isBlockedBy bop with
      | true =>
        by_cases hcip : c.getStatusCallProgress = .wait
        · simp only [hcip, if_true]
          exact .whileWaits hwhile hcip
        · simp only [hcip, if_true, if_false]
          exact .whileSent hmask hwhile hblocked
      | false => exact .whileClear hwhile
    | false =>
      cases hcip : c.getStatusCallProgress with
      | notCalled => exact .asksStatus hmask hwhile hcip
      | wait =>
        cases hblocked : c.isBlockedBy bop with
        | true => exact .waits hwhile (.inl hcip)
        | false => exact .sent hmask hwhile (.inl hcip) hblocked
      | run =>
        cases hblocked : c.isBlockedBy bop with
        | true => exact .waits hwhile (.inr hcip)
        | false => exact .sent hmask hwhile (.inr hcip) hblocked
      | ret => exact .sentBefore hcip
  · rw [if_neg hmask]
    exact .unmasked (not_not.1 hmask)

/-! ## The line -/

/-- What stays of a command wherever it stands: its id, and whether it was
given to `queCommand`. -/
def Command.ticket (c : Command) : Nat × Bool := (c.id, c.ordered)

@[simp] theorem setStatusCallProgress_ticket (c : Command) (p : CipState) :
    (c.setStatusCallProgress p).ticket = c.ticket := rfl

/-- The commands in the order they are served. -/
def Conn.line (s : Conn) : List (Nat × Bool) :=
  (s.finished ++ s.runningCommand.toList ++ s.commandQue).map Command.ticket

/-- Every id given out stands in one place, and the commands of `queCommand`
stand in the order they were given. -/
structure Lined (line : List (Nat × Bool)) (nextId : Nat) : Prop where
  places : (line.map Prod.fst).Perm (List.range nextId)
  order : ((line.filter Prod.snd).map Prod.fst).Pairwise (· < ·)

theorem Lined.lt {line n} (h : Lined line n) : ∀ t ∈ line, t.1 < n := by
  intro t ht
  have hmem : t.1 ∈ line.map Prod.fst := List.mem_map_of_mem ht
  exact List.mem_range.1 (h.places.subset hmem)

/-- A new command may step in anywhere, if it is not one of `queCommand`. -/
theorem Lined.insert (pre post) {n} (h : Lined (pre ++ post) n) :
    Lined (pre ++ (n, false) :: post) (n + 1) where
  places := by
    rw [List.map_append, List.map_cons, List.range_succ]
    have hperm : (pre.map Prod.fst ++ post.map Prod.fst).Perm (List.range n) := by
      simpa using h.places
    calc pre.map Prod.fst ++ n :: post.map Prod.fst
        _ ~ n :: (pre.map Prod.fst ++ post.map Prod.fst) := List.perm_middle
        _ ~ n :: List.range n := hperm.cons n
        _ ~ List.range n ++ [n] := (List.perm_append_singleton n _).symm
  order := by simpa [List.filter_append, List.filter_cons] using h.order

/-- A new command of `queCommand` stands at the end. -/
theorem Lined.concat {line n} (h : Lined line n) : Lined (line ++ [(n, true)]) (n + 1) where
  places := by
    rw [List.map_append, List.range_succ]
    exact h.places.append_right [n]
  order := by
    rw [List.filter_append, List.map_append, List.pairwise_append]
    refine ⟨h.order, by simp, ?_⟩
    intro a ha b hb
    obtain ⟨t, ht, rfl⟩ := List.mem_map.1 ha
    obtain rfl : b = n := by simpa using hb
    exact h.lt t (List.mem_filter.1 ht).1

/-! ## The invariant -/

/-- The command has gone out: no bop or master state change sends it again, and
`updateStatusWait` would only if it is a `BOP_WHILE_STATE` command. -/
structure Command.Out (c : Command) : Prop where
  notRun : c.getStatusCallProgress ≠ .run
  wait : c.getStatusCallProgress = .wait → c.isWhileState = true

/-- One command at a time: the wire holds the running command while it is in
`SEND`, and nothing otherwise. -/
structure OneOut (s : Conn) : Prop where
  out : s.runningCommandStatus = .send →
    ∃ c, s.runningCommand = some c ∧ s.wire = [c.id] ∧ c.Out
  quiet : s.runningCommandStatus ≠ .send → s.wire = []

/-- Replies go to the command they were sent for, and no command is finished
without one. -/
structure Credits (s : Conn) : Prop where
  sender : ∀ sender c stat, .credited sender c stat ∈ s.trace → sender = c.id
  answered : ∀ c ∈ s.finished, ∃ stat, .credited c.id c stat ∈ s.trace

/-- A `device_status` is issued only to be returned: its mask is `CIP_RETURN`. -/
def StatusReturns (s : Conn) : Prop :=
  ∀ c ∈ s.runningCommand.toList ++ s.commandQue, c.statusFor.isSome → c.bopMask = CipState.ret.bits

/-- The invariant of the command queue. -/
structure Inv (s : Conn) : Prop where
  lined : Lined s.line s.nextId
  idle : s.runningCommand = none → s.connState = .authOk ∨ s.connState = .connected →
    s.commandQue = []
  oneOut : OneOut s
  credits : Credits s
  status : StatusReturns s

theorem Credits.of_frame {s s' : Conn} (h : Credits s) (hfin : s'.finished = s.finished)
    (htrace : ∀ a c stat, .credited a c stat ∈ s'.trace ↔ .credited a c stat ∈ s.trace) :
    Credits s' where
  sender := fun a c stat hmem => h.sender a c stat ((htrace a c stat).1 hmem)
  answered := by
    intro c hc
    rw [hfin] at hc
    obtain ⟨stat, hmem⟩ := h.answered c hc
    exact ⟨stat, (htrace _ _ _).2 hmem⟩

/-! ## `sendCommand` keeps the invariant -/

theorem deviceStatus_progress (id : Nat) (c : Command) :
    (deviceStatus id c).getStatusCallProgress = .ret := by
  have hmask : (deviceStatus id c).bopMask = CipState.ret.bits := rfl
  rw [Command.getStatusCallProgress, hmask]
  decide

theorem Sends.credits {s s' : Conn} {c : Command} (h : Sends s c s') (hc : Credits s) :
    Credits s' := by
  cases h <;> exact hc.of_frame rfl (by simp [Conn.transmit])

theorem Sends.lined {s s' : Conn} {c : Command} (h : Sends s c s')
    (hrun : s.runningCommand = some c) (hl : Lined s.line s.nextId) : Lined s'.line s'.nextId := by
  cases h with
  | asksStatus hmask hwhile hcip =>
    have hline : s.line = s.finished.map Command.ticket ++
        (c.ticket :: s.commandQue.map Command.ticket) := by simp [Conn.line, hrun]
    rw [hline] at hl
    simpa [Conn.line, Conn.transmit, deviceStatus, Command.ticket] using hl.insert _ _
  | unmasked | whileWaits | sentBefore => exact hl
  | whileSent | whileClear | waits | sent =>
    simpa [Conn.line, Conn.transmit, hrun] using hl

theorem Sends.oneOut {s s' : Conn} {c : Command} (h : Sends s c s')
    (hrun : s.runningCommand = some c) (hst : s.runningCommandStatus ≠ .send)
    (ho : OneOut s) : OneOut s' := by
  have hwire : s.wire = [] := ho.quiet hst
  cases h with
  | unmasked hmask =>
    refine ⟨fun _ => ⟨c, hrun, by simp [Conn.transmit, hwire], ?_⟩, fun h => absurd rfl h⟩
    have hcip : c.getStatusCallProgress = .notCalled := by
      by_contra hne
      exact bopMask_ne_zero_of_progress hne hmask
    exact ⟨by simp [hcip], by simp [hcip]⟩
  | whileSent hmask hwhile hblocked =>
    exact ⟨fun _ => ⟨_, rfl, by simp [Conn.transmit, hwire], by simp, by simp [hwhile]⟩,
      fun h => absurd rfl h⟩
  | asksStatus hmask hwhile hcip =>
    exact ⟨fun _ => ⟨_, rfl, by simp [Conn.transmit, hwire, deviceStatus],
      by simp [deviceStatus_progress], by simp [deviceStatus_progress]⟩, fun h => absurd rfl h⟩
  | sent hmask hwhile hcip hfree =>
    exact ⟨fun _ => ⟨_, rfl, by simp [Conn.transmit, hwire], by simp, by simp⟩,
      fun h => absurd rfl h⟩
  | whileWaits | waits => exact ⟨by simp, fun _ => hwire⟩
  | whileClear | sentBefore => exact ⟨fun h => absurd h hst, fun _ => hwire⟩

theorem progress_of_statusMask {c : Command} (h : c.bopMask = CipState.ret.bits) :
    c.getStatusCallProgress = .ret ∧ c.isWhileState = false := by
  rw [Command.getStatusCallProgress, Command.isWhileState, h]
  decide

theorem Sends.status {s s' : Conn} {c : Command} (h : Sends s c s')
    (hrun : s.runningCommand = some c) (hs : StatusReturns s) : StatusReturns s' := by
  have hc : c.statusFor.isSome → c.bopMask = CipState.ret.bits := hs c (by simp [hrun])
  have hque : ∀ d ∈ s.commandQue, d.statusFor.isSome → d.bopMask = CipState.ret.bits :=
    fun d hd => hs d (List.mem_append_right _ hd)
  -- `sendCommand` changes the progress only of commands that are no `device_status`
  have hset : ∀ p, c.getStatusCallProgress ≠ .ret → (c.setStatusCallProgress p).statusFor.isSome →
      (c.setStatusCallProgress p).bopMask = CipState.ret.bits :=
    fun p hne hsome => absurd (progress_of_statusMask (hc hsome)).1 hne
  have hwhileSet : ∀ p, c.isWhileState = true → (c.setStatusCallProgress p).statusFor.isSome →
      (c.setStatusCallProgress p).bopMask = CipState.ret.bits := by
    intro p hw hsome
    rw [(progress_of_statusMask (hc hsome)).2] at hw
    exact absurd hw (by decide)
  intro d hd
  cases h with
  | unmasked | whileWaits | sentBefore => exact hs d hd
  | whileSent hmask hwhile hblocked =>
    obtain rfl | hd : d = c.setStatusCallProgress .wait ∨ d ∈ s.commandQue := by
      simpa [Conn.transmit] using hd
    · exact hwhileSet _ hwhile
    · exact hque d hd
  | whileClear hwhile =>
    obtain rfl | hd : d = c.setStatusCallProgress .run ∨ d ∈ s.commandQue := by simpa using hd
    · exact hwhileSet _ hwhile
    · exact hque d hd
  | asksStatus hmask hwhile hcip =>
    obtain rfl | rfl | hd : d = deviceStatus s.nextId c ∨ d = c.setStatusCallProgress .wait ∨
        d ∈ s.commandQue := by simpa [Conn.transmit] using hd
    · exact fun _ => rfl
    · exact hset _ (by simp [hcip])
    · exact hque d hd
  | waits hwhile hcip =>
    obtain rfl | hd : d = c.setStatusCallProgress .run ∨ d ∈ s.commandQue := by simpa using hd
    · exact hset _ (by rcases hcip with hcip | hcip <;> simp [hcip])
    · exact hque d hd
  | sent hmask hwhile hcip hfree =>
    obtain rfl | hd : d = c.setStatusCallProgress .ret ∨ d ∈ s.commandQue := by
      simpa [Conn.transmit] using hd
    · exact hset _ (by rcases hcip with hcip | hcip <;> simp [hcip])
    · exact hque d hd

theorem Sends.running {s s' : Conn} {c : Command} (h : Sends s c s')
    (hrun : s.runningCommand = some c) : s'.runningCommand ≠ none := by
  cases h <;> simp [Conn.transmit, hrun]

/-- `sendCommand` keeps the invariant when nothing is unanswered. -/
theorem Inv.sendCommand {s : Conn} (h : Inv s) (hst : s.runningCommandStatus ≠ .send) :
    Inv s.sendCommand := by
  cases hrun : s.runningCommand with
  | none => simpa [Conn.sendCommand, hrun] using h
  | some c =>
    have hsends := sendCommand_sends hrun
    exact ⟨hsends.lined hrun h.lined, fun hnone => absurd hnone (hsends.running hrun),
      hsends.oneOut hrun hst h.oneOut, hsends.credits h.credits, hsends.status hrun h.status⟩

/-! ## The entry points keep it -/

theorem OneOut.quiet_of_none {s : Conn} (h : OneOut s) (hrun : s.runningCommand = none) :
    s.runningCommandStatus ≠ .send := by
  intro hst
  obtain ⟨c, hc, -⟩ := h.out hst
  rw [hrun] at hc
  cases hc

/-- The next command of the queue starts when nothing runs any more. -/
theorem Inv.sendNextCommand {s : Conn}
    (hl : Lined ((s.finished ++ s.commandQue).map Command.ticket) s.nextId)
    (hst : s.runningCommandStatus ≠ .send) (hwire : s.wire = []) (hc : Credits s)
    (hs : StatusReturns s) : Inv s.sendNextCommand := by
  have hout : ∀ t : Conn, t.runningCommandStatus = s.runningCommandStatus → t.wire = s.wire →
      OneOut t :=
    fun t ht hw => ⟨fun h => absurd (ht ▸ h) hst, fun _ => hw.trans hwire⟩
  unfold Conn.sendNextCommand
  cases hque : s.commandQue with
  | nil =>
    rw [hque] at hl
    exact ⟨by simpa [Conn.line] using hl, fun _ _ => rfl, hout _ rfl rfl,
      hc.of_frame rfl (fun _ _ _ => Iff.rfl), by simp [StatusReturns]⟩
  | cons c rest =>
    rw [hque] at hl
    refine Inv.sendCommand ⟨by simpa [Conn.line] using hl, by simp, hout _ rfl rfl,
      hc.of_frame rfl (fun _ _ _ => Iff.rfl), ?_⟩ hst
    intro d hd
    exact hs d (List.mem_append_right _ (by simpa [hque] using hd))

theorem Inv.queCommand {s : Conn} (h : Inv s) (r : Request) : Inv (s.queCommand r) := by
  have hline := h.lined.concat
  have hstatus : ∀ d ∈ s.runningCommand.toList ++ (s.commandQue ++ [s.newCommand r true]),
      d.statusFor.isSome → d.bopMask = CipState.ret.bits := by
    intro d hd hsome
    rcases List.mem_append.1 hd with hd | hd
    · exact h.status d (List.mem_append_left _ hd) hsome
    · rcases List.mem_append.1 hd with hd | hd
      · exact h.status d (List.mem_append_right _ hd) hsome
      · obtain rfl := List.mem_singleton.1 hd
        cases hsome
  unfold Conn.queCommand
  by_cases hpush : s.runningCommand.isSome ∨ (s.connState ≠ .authOk ∧ s.connState ≠ .connected)
  · simp only [if_pos hpush]
    refine ⟨by simpa [Conn.line, Conn.newCommand, Command.ticket] using hline, ?_,
      ⟨h.oneOut.out, h.oneOut.quiet⟩, h.credits.of_frame rfl (fun _ _ _ => Iff.rfl), hstatus⟩
    intro hnone hup
    rcases hpush with hsome | ⟨hauth, hconn⟩
    · rw [hnone] at hsome
      cases hsome
    · rcases hup with hup | hup
      · exact absurd hup hauth
      · exact absurd hup hconn
  · simp only [if_neg hpush]
    obtain ⟨hnone, hup⟩ := not_or.1 hpush
    rw [Option.not_isSome_iff_eq_none] at hnone
    have hque : s.commandQue = [] := h.idle hnone (by
      rcases Decidable.em (s.connState = .authOk) with hauth | hauth
      · exact .inl hauth
      · exact .inr (not_not.1 fun hconn => hup ⟨hauth, hconn⟩))
    have hquiet := h.oneOut.quiet_of_none hnone
    refine Inv.sendCommand ⟨?_, by simp, ⟨fun hst => absurd hst hquiet, h.oneOut.quiet⟩,
      h.credits.of_frame rfl (fun _ _ _ => Iff.rfl), ?_⟩ hquiet
    · simpa [Conn.line, hque, hnone, Conn.newCommand, Command.ticket] using hline
    · simpa [StatusReturns, hque, hnone] using hstatus

theorem Inv.queSend {s : Conn} (h : Inv s) (r : Request) : Inv (s.queSend r) := by
  have hinsert := Lined.insert (s.finished.map Command.ticket)
    ((s.runningCommand.toList ++ s.commandQue).map Command.ticket) (n := s.nextId)
    (by simpa [Conn.line] using h.lined)
  have hfront := Lined.insert ((s.finished ++ s.runningCommand.toList).map Command.ticket)
    (s.commandQue.map Command.ticket) (n := s.nextId)
    (by simpa [Conn.line] using h.lined)
  have hnew : (s.newCommand r false).statusFor.isSome →
      (s.newCommand r false).bopMask = CipState.ret.bits := fun hsome => nomatch hsome
  -- pushed to the front of the queue, the command runs next
  have hpush : s.runningCommand ≠ none ∨ (s.connState ≠ .authOk ∧ s.connState ≠ .connected) →
      Inv { s with nextId := s.nextId + 1, commandQue := s.newCommand r false :: s.commandQue } := by
    intro hbusy
    refine ⟨by simpa [Conn.line, Conn.newCommand, Command.ticket] using hfront, ?_,
      ⟨h.oneOut.out, h.oneOut.quiet⟩, h.credits.of_frame rfl (fun _ _ _ => Iff.rfl), ?_⟩
    · rintro hnone (hup | hup)
      · exact hbusy.elim (absurd hnone) fun hdown => absurd hup hdown.1
      · exact hbusy.elim (absurd hnone) fun hdown => absurd hup hdown.2
    · intro d hd
      obtain hd | rfl | hd : d ∈ s.runningCommand.toList ∨ d = s.newCommand r false ∨
          d ∈ s.commandQue := by simpa using hd
      · exact h.status d (List.mem_append_left _ hd)
      · exact hnew
      · exact h.status d (List.mem_append_right _ hd)
  -- or it takes the place of a running command that is not out
  have hrunNow : ∀ que, que = s.runningCommand.toList ++ s.commandQue →
      s.runningCommandStatus ≠ .send →
      Inv ({ s with nextId := s.nextId + 1, commandQue := que,
                    runningCommand := some (s.newCommand r false) } : Conn).sendCommand := by
    rintro que rfl hst
    refine Inv.sendCommand ⟨by simpa [Conn.line, Conn.newCommand, Command.ticket] using hinsert,
      by simp, ⟨fun hsend => absurd hsend hst, h.oneOut.quiet⟩,
      h.credits.of_frame rfl (fun _ _ _ => Iff.rfl), ?_⟩ hst
    intro d hd
    obtain rfl | hd : d = s.newCommand r false ∨ d ∈ s.runningCommand.toList ++ s.commandQue := by
      simpa using hd
    · exact hnew
    · exact h.status d hd
  unfold Conn.queSend
  by_cases hstate : s.connState = .connecting ∨ s.connState = .inprogress ∨ s.connState = .unknow
  · simp only [if_pos hstate]
    exact hpush (.inr (by rcases hstate with hs | hs | hs <;> simp [hs]))
  · simp only [if_neg hstate]
    cases hrun : s.runningCommand with
    | none => simpa [hrun] using hrunNow s.commandQue (by simp [hrun]) (h.oneOut.quiet_of_none hrun)
    | some c =>
      by_cases hst : s.runningCommandStatus = .send ∨ s.runningCommandStatus = .returning
      · simpa [hst, hrun] using hpush (.inl (by simp [hrun]))
      · obtain ⟨hsend, hret⟩ := not_or.1 hst
        simpa [hsend, hret] using hrunNow (c :: s.commandQue) (by simp [hrun]) hsend

theorem Inv.setConnState {s : Conn} (h : Inv s) (newConnState : ConnState) :
    Inv (s.setConnState newConnState) := by
  unfold Conn.setConnState
  by_cases hnext : (newConnState = .authOk ∨ newConnState = .connected) ∧ s.runningCommand = none
  · simp only [if_pos hnext]
    have hquiet := h.oneOut.quiet_of_none hnext.2
    have hinv : Inv s.sendNextCommand :=
      Inv.sendNextCommand (by simpa [Conn.line, hnext.2] using h.lined) hquiet
        (h.oneOut.quiet hquiet) h.credits h.status
    refine ⟨hinv.lined, ?_, ⟨hinv.oneOut.out, hinv.oneOut.quiet⟩,
      hinv.credits.of_frame rfl (fun _ _ _ => Iff.rfl), hinv.status⟩
    -- the queue is empty when nothing was taken from it
    intro hnone _
    unfold Conn.sendNextCommand at hnone ⊢
    cases hque : s.commandQue with
    | nil => simp
    | cons c rest =>
      rw [hque] at hnone
      exact absurd hnone ((sendCommand_sends rfl).running rfl)
  · simp only [if_neg hnext]
    refine ⟨h.lined, ?_, ⟨h.oneOut.out, h.oneOut.quiet⟩,
      h.credits.of_frame rfl (fun _ _ _ => Iff.rfl), h.status⟩
    exact fun hnone hup => absurd ⟨hup, hnone⟩ hnext

/-- A callback that finds the running command in `progress` may send it. -/
theorem Inv.sendCommandIn {s : Conn} (h : Inv s) (progress : CipState)
    (hst : ∀ c, s.runningCommand = some c → c.getStatusCallProgress = progress →
      s.runningCommandStatus ≠ .send) : Inv (s.sendCommandIn progress) := by
  unfold Conn.sendCommandIn
  cases hrun : s.runningCommand with
  | none => exact h
  | some c =>
    by_cases hcip : c.getStatusCallProgress = progress
    · simpa only [if_pos hcip] using h.sendCommand (hst c hrun hcip)
    · simpa only [if_neg hcip] using h

theorem OneOut.out_of_running {s : Conn} {c : Command} (h : OneOut s)
    (hrun : s.runningCommand = some c) (hst : s.runningCommandStatus = .send) : c.Out := by
  obtain ⟨d, hd, -, hout⟩ := h.out hst
  rw [hrun] at hd
  cases hd
  exact hout

/-- A change of the BOP or the master state never meets a command that is out. -/
theorem Inv.sendCommandIn_run {s : Conn} (h : Inv s) : Inv (s.sendCommandIn .run) :=
  h.sendCommandIn .run fun _ hrun hcip hst => (h.oneOut.out_of_running hrun hst).notRun hcip

theorem Inv.setBopState {s : Conn} (h : Inv s) (inValue : Status) : Inv (s.setBopState inValue) := by
  have hbop : Inv { s with bopState := inValue } :=
    ⟨h.lined, h.idle, ⟨h.oneOut.out, h.oneOut.quiet⟩,
      h.credits.of_frame rfl (fun _ _ _ => Iff.rfl), h.status⟩
  exact hbop.sendCommandIn_run

theorem Inv.call {s : Conn} (h : Inv s) (call : Call) : Inv (s.call call) := by
  cases call with
  | queCommand r => exact h.queCommand r
  | queSend r => exact h.queSend r
  | setBopState inValue => exact h.setBopState inValue
  | masterStateChanged => exact h.sendCommandIn_run
  | setConnState newConnState up => exact h.setConnState newConnState

/-! ## Replies -/

/-- While a reply is processed: the running command has its reply, and is out. -/
structure Returning (s : Conn) (c : Command) : Prop where
  running : s.runningCommand = some c
  status : s.runningCommandStatus = .returning
  out : c.Out
  credited : ∃ stat, .credited c.id c stat ∈ s.trace

theorem Returning.sendCommandIn {s : Conn} {c : Command} (h : Returning s c) {progress : CipState}
    (hcip : c.getStatusCallProgress ≠ progress) : s.sendCommandIn progress = s := by
  simp only [Conn.sendCommandIn, h.running, if_neg hcip]

/-- The calls of the handlers leave the returning command where it is. -/
theorem Returning.call {s : Conn} {c : Command} (h : Returning s c) (call : Call) :
    Returning (s.call call) c := by
  cases call with
  | queCommand r =>
    have hpush : s.queCommand r = { s with
        nextId := s.nextId + 1, commandQue := s.commandQue ++ [s.newCommand r true] } := by
      simp [Conn.queCommand, h.running]
    rw [Conn.call, hpush]
    exact ⟨h.running, h.status, h.out, h.credited⟩
  | queSend r =>
    have hpush : s.queSend r = { s with
        nextId := s.nextId + 1, commandQue := s.newCommand r false :: s.commandQue } := by
      simp [Conn.queSend, h.running, h.status]
    rw [Conn.call, hpush]
    exact ⟨h.running, h.status, h.out, h.credited⟩
  | setBopState inValue =>
    have hbop : Returning { s with bopState := inValue } c :=
      ⟨h.running, h.status, h.out, h.credited⟩
    simpa only [Conn.call, Conn.setBopState, hbop.sendCommandIn h.out.notRun] using hbop
  | masterStateChanged =>
    simpa only [Conn.call, Conn.masterStateChanged, h.sendCommandIn h.out.notRun] using h
  | setConnState newConnState up =>
    have hstate : s.setConnState newConnState = { s with connState := newConnState } := by
      simp [Conn.setConnState, h.running]
    rw [Conn.call, hstate]
    exact ⟨h.running, h.status, h.out, h.credited⟩

/-- The handler of a `device_status` finds it in `CIP_RETURN` and does nothing. -/
theorem Returning.updateStatusWait {s : Conn} {c : Command} (h : Returning s c)
    (hs : StatusReturns s) (hstatus : c.statusFor.isSome) : s.updateStatusWait = s := by
  have hmask := hs c (by simp [h.running]) hstatus
  exact h.sendCommandIn (by simp [(progress_of_statusMask hmask).1])

/-- The reply finds the command it was sent for. -/
theorem Inv.beginReturn {s : Conn} (h : Inv s) {sender : Nat} {wire : List Nat}
    (hwire : s.wire = sender :: wire) : ∃ c, s.runningCommand = some c ∧ sender = c.id ∧
      ∀ stat, Inv ({ s with wire }.beginReturn sender c stat) ∧
        Returning ({ s with wire }.beginReturn sender c stat) c := by
  have hst : s.runningCommandStatus = .send := by
    by_contra hst
    rw [h.oneOut.quiet hst] at hwire
    cases hwire
  obtain ⟨c, hrun, hone, hout⟩ := h.oneOut.out hst
  rw [hwire, List.cons.injEq] at hone
  obtain ⟨rfl, rfl⟩ := hone
  refine ⟨c, hrun, rfl, fun stat => ⟨⟨h.lined, h.idle, ⟨by simp [Conn.beginReturn], fun _ => rfl⟩,
    ⟨?_, ?_⟩, h.status⟩, ⟨hrun, rfl, hout, stat, by simp [Conn.beginReturn]⟩⟩⟩
  · intro a d st hmem
    obtain hmem | ⟨rfl, rfl, rfl⟩ : .credited a d st ∈ s.trace ∨ a = c.id ∧ d = c ∧ st = stat := by
      simpa [Conn.beginReturn] using hmem
    · exact h.credits.sender a d st hmem
    · rfl
  · intro d hd
    obtain ⟨st, hmem⟩ := h.credits.answered d hd
    exact ⟨st, List.mem_append_left _ hmem⟩

/-- The last switch of `commandReturn` keeps the invariant. -/
theorem Inv.endReturn {s : Conn} {c : Command} (h : Inv s) (hret : Returning s c)
    (ret : ReturnCode) : Inv (s.endReturn ret) := by
  have hst : s.runningCommandStatus ≠ .send := by simp [hret.status]
  cases ret with
  | keep => exact h
  | reque => exact h.sendCommand hst
  | done =>
    refine Inv.sendNextCommand ?_ hst (h.oneOut.quiet hst) ⟨h.credits.sender, ?_⟩ h.status
    · simpa [Conn.line] using h.lined
    · intro d hd
      obtain hd | rfl : d ∈ s.finished ∨ d = c := by simpa [hret.running] using hd
      · exact h.credits.answered d hd
      · exact hret.credited

/-- A reply in full: it finds the running command `c`, the handlers run with `c`
returning, and the last switch is taken with the answer `ret'`. -/
theorem Inv.commandReturn_cases {s : Conn} (h : Inv s) (stat : Int) (calls : List Call)
    (ret : ReturnCode) :
    s.commandReturn stat calls ret = s ∨
      ∃ c wire ret', s.runningCommand = some c ∧ s.wire = c.id :: wire ∧
        s.commandReturn stat calls ret =
          (run Conn.call ({ s with wire }.beginReturn c.id c stat) calls).endReturn ret' ∧
        Inv (run Conn.call ({ s with wire }.beginReturn c.id c stat) calls) ∧
        Returning (run Conn.call ({ s with wire }.beginReturn c.id c stat) calls) c := by
  cases hwire : s.wire with
  | nil => exact .inl (by simp only [Conn.commandReturn, hwire])
  | cons sender wire =>
    obtain ⟨c, hrun, rfl, hbegin⟩ := h.beginReturn hwire
    obtain ⟨hinv, hret⟩ := run_invariant (I := fun t => Inv t ∧ Returning t c) (hbegin stat)
      (fun t call ht => ⟨ht.1.call call, ht.2.call call⟩) calls
    have heq : s.commandReturn stat calls ret =
        if c.statusFor.isSome then
          (run Conn.call ({ s with wire }.beginReturn c.id c stat) calls).updateStatusWait.endReturn
            .done
        else (run Conn.call ({ s with wire }.beginReturn c.id c stat) calls).endReturn ret := by
      obtain ⟨connState, bop, que, running, status, nextId, wire', trace, finished⟩ := s
      cases hwire
      cases hrun
      rfl
    refine .inr ⟨c, wire, if c.statusFor.isSome then .done else ret, hrun, rfl, ?_, hinv, hret⟩
    rw [heq]
    split
    next hstatus => rw [hret.updateStatusWait hinv.status hstatus]
    next => rfl

theorem Inv.step {s : Conn} (h : Inv s) (e : Event) : Inv (s.step e) := by
  cases e with
  | call c => exact h.call c
  | reply stat calls ret =>
    rw [Conn.step]
    obtain heq | ⟨c, wire, ret', -, -, heq, hinv, hret⟩ :=
      h.commandReturn_cases stat calls ret
    · rwa [heq]
    · rw [heq]
      exact hinv.endReturn hret ret'

theorem Inv.start (connState : ConnState) : Inv (Conn.start connState) where
  lined := ⟨by simp [Conn.line, Conn.start], by simp [Conn.line, Conn.start]⟩
  idle := fun _ _ => rfl
  oneOut := ⟨by simp [Conn.start], fun _ => rfl⟩
  credits := ⟨by simp [Conn.start], by simp [Conn.start]⟩
  status := by simp [StatusReturns, Conn.start]

/-- No `updateStatusWait` from outside meets a `BOP_WHILE_STATE` command that has
been transmitted. -/
def Entry.Safe (s : Conn) : Entry → Prop
  | .event _ => True
  | .updateStatusWait => ∀ c, s.runningCommand = some c → c.isWhileState = true →
      c.getStatusCallProgress ≠ .wait

theorem Inv.entry {s : Conn} (h : Inv s) {e : Entry} (hsafe : e.Safe s) : Inv (s.entry e) := by
  cases e with
  | event e => exact h.step e
  | updateStatusWait =>
    refine h.sendCommandIn .wait fun c hrun hcip hst => ?_
    exact hsafe c hrun ((h.oneOut.out_of_running hrun hst).wait hcip) hcip

/-! ## Runs -/

/-- What the command queue owes its callers. -/
structure Served (s : Conn) : Prop where
  /-- Every command object is finished, running or queued, and in one place. -/
  onePlace : ((s.finished ++ s.runningCommand.toList ++ s.commandQue).map Command.id).Perm
    (List.range s.nextId)
  /-- No command is transmitted again while its reply is awaited. -/
  once : s.wire.Nodup
  /-- The commands of `queCommand` finish in the order they were given. -/
  inOrder : (((s.finished ++ s.runningCommand.toList ++ s.commandQue).filter
    Command.ordered).map Command.id).Pairwise (· < ·)
  /-- A reply is credited to the command it answers. -/
  credited : ∀ sender c stat, .credited sender c stat ∈ s.trace → sender = c.id
  /-- Only a command whose reply came is finished. -/
  answered : ∀ c ∈ s.finished, ∃ stat, .credited c.id c stat ∈ s.trace

theorem OneOut.nodup {s : Conn} (h : OneOut s) : s.wire.Nodup := by
  by_cases hst : s.runningCommandStatus = .send
  · obtain ⟨c, -, hwire, -⟩ := h.out hst
    simp [hwire]
  · simp [h.quiet hst]

theorem Inv.served {s : Conn} (h : Inv s) : Served s where
  onePlace := by
    have hid : Prod.fst ∘ Command.ticket = Command.id := rfl
    simpa only [Conn.line, List.map_map, hid] using h.lined.places
  once := h.oneOut.nodup
  inOrder := by
    have hid : Prod.fst ∘ Command.ticket = Command.id := rfl
    have hord : Prod.snd ∘ Command.ticket = Command.ordered := rfl
    simpa only [Conn.line, List.filter_map, List.map_map, hid, hord] using h.lined.order
  credited := h.credits.sender
  answered := h.credits.answered

/-- **Commands are served one at a time and in order**, as long as no
`updateStatusWait` meets a `BOP_WHILE_STATE` command that has been transmitted. -/
theorem served_of_safe (connState : ConnState) (entries : List Entry)
    (h : Along Conn.entry Entry.Safe (Conn.start connState) entries) :
    Served (run Conn.entry (Conn.start connState) entries) :=
  (h.invariant (Inv.start connState) fun _ _ hinv hsafe => hinv.entry hsafe).served

/-- A command that waits for the end of an exposure. -/
def exposeRequest : Request where
  text := "expose"
  bopMask := Status.bopExposure
  originator := none
  cipClear := by decide

/-- A command that goes out while the telescope moves. -/
def whileMoveRequest : Request where
  text := "expose_no_checks"
  bopMask := Status.bopTelMove ||| bopWhileState
  originator := none
  cipClear := by decide

/-- A command without conditions. -/
def infoRequest : Request where
  text := "info"
  bopMask := 0#32
  originator := none
  cipClear := by decide

theorem served_expose :
    Served (run Conn.entry (Conn.start .connected)
      [.event (.call (.queCommand exposeRequest)), .event (.call (.queSend infoRequest)),
        .event (.reply 0 [] .done), .updateStatusWait, .event (.reply 0 [] .done)]) :=
  served_of_safe .connected _
    ⟨trivial, trivial, trivial, fun c hrun _ => by cases hrun; decide, trivial, trivial⟩

/-- `updateStatusWait` puts a transmitted `BOP_WHILE_STATE` command back to
`WAITING`; the next command takes its place and its reply. -/
theorem whileCommand_loses_reply :
    ¬ Served (run Conn.entry (Conn.start .connected)
      [.event (.call (.setBopState Status.bopTelMove)),
        .event (.call (.queCommand whileMoveRequest)), .updateStatusWait,
        .event (.call (.queSend infoRequest)), .event (.reply 0 [] .done)]) := by
  intro h
  have hcredited := h.credited 0 (Conn.newCommand { Conn.start .connected with nextId := 1 }
    infoRequest false) 0 (by decide)
  exact absurd hcredited (by decide)

end Rts2.CommandQue

import Rts2.Connection.CommandOrder

/-! # Masked commands wait for their state

A command with a BOP mask goes out only when the state it waits for is there,
and only after the `device_status` that `sendCommand` issued for it came back.
The progress bits carry the proof: past `CIP_NOT_CALLED` the status has been
asked for, and it is still out only while it is the running command. -/
namespace Rts2.CommandQue
open Rts2.Lib

/-- The `device_status` issued for a command has been answered. -/
def StatusReturned (trace : List Action) (id : Nat) : Prop :=
  ∃ d stat, .credited d.id d stat ∈ trace ∧ d.statusFor = some id

/-- Every masked command in the trace was free to go, its status returned before. -/
def Guarded (trace : List Action) : Prop :=
  ∀ before c bop after, trace = before ++ .sent c bop :: after →
    c.statusFor = none → c.bopMask ≠ 0#32 → c.isWhileState = false →
    bop &&& c.bopMask &&& Status.bopMask = 0#32 ∧ StatusReturned before c.id

theorem StatusReturned.append {trace : List Action} {id : Nat} (h : StatusReturned trace id)
    (more : List Action) : StatusReturned (trace ++ more) id := by
  obtain ⟨d, stat, hmem, hfor⟩ := h
  exact ⟨d, stat, List.mem_append_left _ hmem, hfor⟩

/-- An action that keeps the rule keeps a guarded trace guarded. -/
theorem Guarded.concat {trace : List Action} (h : Guarded trace) {a : Action}
    (ha : ∀ c bop, a = .sent c bop → c.statusFor = none → c.bopMask ≠ 0#32 →
      c.isWhileState = false →
      bop &&& c.bopMask &&& Status.bopMask = 0#32 ∧ StatusReturned trace c.id) :
    Guarded (trace ++ [a]) := by
  intro before c bop after heq hfor hmask hwhile
  obtain rfl | ⟨rest, last, rfl⟩ := List.eq_nil_or_concat after
  · obtain ⟨rfl, hlast⟩ := List.append_inj' heq rfl
    exact ha c bop (List.singleton_inj.1 hlast) hfor hmask hwhile
  · have hcons : trace ++ [a] = (before ++ .sent c bop :: rest) ++ [last] := by simp [heq]
    obtain ⟨rfl, -⟩ := List.append_inj' hcons rfl
    exact h before c bop rest rfl hfor hmask hwhile

/-! ## The invariant -/

/-- The command has a mask, waits for no lasting state, and its status has been
asked for. -/
structure Command.Asked (c : Command) : Prop where
  caller : c.statusFor = none
  notWhile : c.isWhileState = false
  progress : c.getStatusCallProgress ≠ .notCalled

/-- A caller's command whose status has returned, if it has been asked for. -/
structure Settled (trace : List Action) (c : Command) : Prop where
  caller : c.statusFor = none
  returned : c.Asked → StatusReturned trace c.id

theorem Settled.append {trace : List Action} {c : Command} (h : Settled trace c)
    (more : List Action) : Settled (trace ++ more) c :=
  ⟨h.caller, fun hasked => (h.returned hasked).append more⟩

/-- The status of `c` is being asked for by the running command. -/
def Conn.Asking (s : Conn) (c : Command) : Prop :=
  ∃ d, s.runningCommand = some d ∧ d.statusFor = some c.id

/-- The guard of the masked commands. -/
structure Guard (s : Conn) : Prop where
  guarded : Guarded s.trace
  running : ∀ c, s.runningCommand = some c →
    Settled s.trace c ∨ (c.statusFor.isSome ∧ s.runningCommandStatus ≠ .waiting)
  que : ∀ c ∈ s.commandQue, Settled s.trace c ∨ (c.statusFor = none ∧ s.Asking c)

/-- Nothing is being asked for: the running command and the queue are settled. -/
theorem Guard.ofSettled {s : Conn} (hguarded : Guarded s.trace)
    (hrun : ∀ c, s.runningCommand = some c → Settled s.trace c)
    (hque : ∀ c ∈ s.commandQue, Settled s.trace c) : Guard s :=
  ⟨hguarded, fun c hc => .inl (hrun c hc), fun c hc => .inl (hque c hc)⟩

/-- Unless a `device_status` runs, the queue is settled. -/
theorem Guard.que_settled {s : Conn} (h : Guard s)
    (hrun : ∀ d, s.runningCommand = some d → d.statusFor = none) :
    ∀ c ∈ s.commandQue, Settled s.trace c := by
  intro c hc
  rcases h.que c hc with hset | ⟨-, d, hd, hfor⟩
  · exact hset
  · rw [hrun d hd] at hfor
    cases hfor

theorem Guard.running_settled {s : Conn} (h : Guard s) {c : Command}
    (hrun : s.runningCommand = some c) (hfor : c.statusFor = none) : Settled s.trace c := by
  rcases h.running c hrun with hset | ⟨hsome, -⟩
  · exact hset
  · rw [hfor] at hsome
    cases hsome

/-- `sendCommand` keeps the guard. -/
theorem Sends.guard {s s' : Conn} {c : Command} (h : Sends s c s')
    (hrun : s.runningCommand = some c) (hs : StatusReturns s) (hg : Guard s) : Guard s' := by
  cases hfor : c.statusFor with
  | some id =>
    -- a `device_status` has been sent before
    obtain ⟨hret, hwhile'⟩ := progress_of_statusMask (hs c (by simp [hrun]) (by simp [hfor]))
    cases h with
    | sentBefore => exact hg
    | unmasked hmask => exact absurd hmask (bopMask_ne_zero_of_progress (by simp [hret]))
    | whileSent hmask hwhile => simp [hwhile'] at hwhile
    | whileWaits hwhile | whileClear hwhile => simp [hwhile'] at hwhile
    | asksStatus hmask hwhile hcip => simp [hret] at hcip
    | waits hwhile hcip | sent hmask hwhile hcip => simp [hret] at hcip
  | none =>
    have hc := hg.running_settled hrun hfor
    have hque := hg.que_settled fun d hd => by rw [hrun] at hd; cases hd; exact hfor
    have hset : ∀ p, (c.isWhileState = true ∨ StatusReturned s.trace c.id) →
        Settled s.trace (c.setStatusCallProgress p) := by
      rintro p (hwhile | hret)
      · exact ⟨hfor, fun hasked => by simpa [hwhile] using hasked.notWhile⟩
      · exact ⟨hfor, fun _ => hret⟩
    cases h with
    | sentBefore => exact hg
    | unmasked hmask =>
      refine .ofSettled (hg.guarded.concat ?_) ?_ fun d hd => (hque d hd).append _
      · rintro _ _ ⟨⟩ _ hne
        exact absurd hmask hne
      · intro d hd
        obtain rfl : c = d := by simpa [Conn.transmit, hrun] using hd
        exact hc.append _
    | whileSent hmask hwhile hblocked =>
      refine .ofSettled (hg.guarded.concat ?_) ?_ fun d hd => (hque d hd).append _
      · rintro _ _ ⟨⟩ _ _ hne
        simp [hwhile] at hne
      · rintro d ⟨⟩
        exact (hset .wait (.inl hwhile)).append _
    | whileWaits hwhile hcip =>
      refine .ofSettled hg.guarded (fun d hd => ?_) hque
      obtain rfl : c = d := by simpa [hrun] using hd
      exact hc
    | whileClear hwhile =>
      refine .ofSettled hg.guarded ?_ hque
      rintro d ⟨⟩
      exact hset .run (.inl hwhile)
    | waits hwhile hcip =>
      refine .ofSettled hg.guarded ?_ hque
      rintro d ⟨⟩
      exact hset .run (.inr (hc.returned ⟨hfor, hwhile, by rcases hcip with h | h <;> simp [h]⟩))
    | sent hmask hwhile hcip hfree =>
      have hret := hc.returned ⟨hfor, hwhile, by rcases hcip with h | h <;> simp [h]⟩
      refine .ofSettled (hg.guarded.concat ?_) ?_ fun d hd => (hque d hd).append _
      · rintro _ _ ⟨⟩ _ _ _
        exact ⟨by simpa [Command.isBlockedBy] using hfree, hret⟩
      · rintro d ⟨⟩
        exact (hset .ret (.inr hret)).append _
    | asksStatus hmask hwhile hcip =>
      refine ⟨hg.guarded.concat ?_, ?_, ?_⟩
      · rintro _ _ ⟨⟩ hnone
        cases hnone
      · rintro d ⟨⟩
        exact .inr ⟨rfl, by simp⟩
      · intro d hd
        obtain rfl | hd : d = c.setStatusCallProgress .wait ∨ d ∈ s.commandQue := by
          simpa [Conn.transmit] using hd
        · exact .inr ⟨hfor, _, rfl, rfl⟩
        · exact .inl ((hque d hd).append _)

/-! ## The entry points keep the guard -/

theorem Guard.sendCommand {s : Conn} (hg : Guard s) (hs : StatusReturns s) :
    Guard s.sendCommand := by
  cases hrun : s.runningCommand with
  | none => simpa [Conn.sendCommand, hrun] using hg
  | some c => exact (sendCommand_sends hrun).guard hrun hs hg

theorem Guard.sendCommandIn {s : Conn} (hg : Guard s) (hs : StatusReturns s)
    (progress : CipState) : Guard (s.sendCommandIn progress) := by
  unfold Conn.sendCommandIn
  split
  · split
    · exact hg.sendCommand hs
    · exact hg
  · exact hg

/-- A new command has not asked for its status. -/
theorem newCommand_settled (s : Conn) (r : Request) (ordered : Bool) (trace : List Action) :
    Settled trace (s.newCommand r ordered) := by
  refine ⟨rfl, fun hasked => absurd ?_ hasked.progress⟩
  simp only [Command.getStatusCallProgress, Conn.newCommand, r.cipClear]
  decide

/-- The queue moves on when nothing is being asked for. -/
theorem Guard.sendNextCommand {s : Conn} (hguarded : Guarded s.trace)
    (hque : ∀ c ∈ s.commandQue, Settled s.trace c) (hs : StatusReturns s) :
    Guard s.sendNextCommand := by
  unfold Conn.sendNextCommand
  cases hq : s.commandQue with
  | nil => exact .ofSettled hguarded (by simp) (by simp)
  | cons c rest =>
    rw [hq] at hque
    have hs' : StatusReturns { s with runningCommand := some c, commandQue := rest } :=
      fun d hd => hs d (List.mem_append_right _ (by simpa [hq] using hd))
    refine Guard.sendCommand (.ofSettled hguarded ?_ ?_) hs'
    · rintro d ⟨⟩
      exact hque _ List.mem_cons_self
    · exact fun d hd => hque d (List.mem_cons_of_mem _ hd)

/-- Commands join the queue; nothing else changes. -/
theorem Guard.withQue {s s' : Conn} (hg : Guard s) (htrace : s'.trace = s.trace)
    (hrun : s'.runningCommand = s.runningCommand)
    (hst : s'.runningCommandStatus = s.runningCommandStatus)
    (hque : ∀ c ∈ s'.commandQue, c ∈ s.commandQue ∨ Settled s.trace c) : Guard s' where
  guarded := htrace ▸ hg.guarded
  running := by
    rw [htrace, hrun, hst]
    exact hg.running
  que := by
    intro c hc
    rw [htrace, Conn.Asking, hrun]
    rcases hque c hc with hc | hset
    · exact hg.que c hc
    · exact .inl hset

theorem Guard.queCommand {s : Conn} (hg : Guard s) (h : Inv s) (r : Request) :
    Guard (s.queCommand r) := by
  unfold Conn.queCommand
  by_cases hpush : s.runningCommand.isSome ∨ (s.connState ≠ .authOk ∧ s.connState ≠ .connected)
  · simp only [if_pos hpush]
    refine hg.withQue rfl rfl rfl fun c hc => ?_
    rcases List.mem_append.1 hc with hc | hc
    · exact .inl hc
    · rw [List.mem_singleton.1 hc]
      exact .inr (newCommand_settled s r true _)
  · simp only [if_neg hpush]
    have hnone : s.runningCommand = none :=
      Option.not_isSome_iff_eq_none.1 fun hsome => hpush (.inl hsome)
    refine Guard.sendCommand (.ofSettled hg.guarded ?_
      (hg.que_settled fun d hd => by rw [hnone] at hd; cases hd)) ?_
    · rintro d ⟨⟩
      exact newCommand_settled s r true _
    · intro d hd
      obtain rfl | hd : d = s.newCommand r true ∨ d ∈ s.commandQue := by simpa using hd
      · exact fun hsome => nomatch hsome
      · exact h.status d (List.mem_append_right _ hd)

theorem Guard.queSend {s : Conn} (hg : Guard s) (h : Inv s) (r : Request) :
    Guard (s.queSend r) := by
  have hnew := newCommand_settled s r false s.trace
  have hpush : Guard { s with
      nextId := s.nextId + 1, commandQue := s.newCommand r false :: s.commandQue } := by
    refine hg.withQue rfl rfl rfl fun c hc => ?_
    rcases List.mem_cons.1 hc with rfl | hc
    · exact .inr hnew
    · exact .inl hc
  -- a running command that gives way is no `device_status`
  have hrunNow : ∀ que, que = s.runningCommand.toList ++ s.commandQue →
      (∀ d, s.runningCommand = some d → s.runningCommandStatus = .waiting) →
      Guard ({ s with nextId := s.nextId + 1, commandQue := que,
                      runningCommand := some (s.newCommand r false) } : Conn).sendCommand := by
    rintro que rfl hwait
    have hcaller : ∀ d, s.runningCommand = some d → Settled s.trace d := fun d hd =>
      (hg.running d hd).resolve_right fun hstatus => hstatus.2 (hwait d hd)
    refine Guard.sendCommand (.ofSettled hg.guarded ?_ ?_) ?_
    · rintro d ⟨⟩
      exact hnew
    · intro d hd
      rcases List.mem_append.1 hd with hd | hd
      · exact hcaller d (Option.mem_toList.1 hd)
      · exact hg.que_settled (fun e he => (hcaller e he).caller) d hd
    · intro d hd
      obtain rfl | hd : d = s.newCommand r false ∨ d ∈ s.runningCommand.toList ++ s.commandQue := by
        simpa using hd
      · exact fun hsome => nomatch hsome
      · exact h.status d hd
  unfold Conn.queSend
  by_cases hstate : s.connState = .connecting ∨ s.connState = .inprogress ∨ s.connState = .unknow
  · simpa only [if_pos hstate] using hpush
  · simp only [if_neg hstate]
    cases hrun : s.runningCommand with
    | none => simpa [hrun] using hrunNow s.commandQue (by simp [hrun]) (by simp [hrun])
    | some c =>
      by_cases hst : s.runningCommandStatus = .send ∨ s.runningCommandStatus = .returning
      · simpa [hst, hrun] using hpush
      · obtain ⟨hsend, hret⟩ := not_or.1 hst
        have hwait : s.runningCommandStatus = .waiting := by
          cases hw : s.runningCommandStatus with
          | waiting => rfl
          | send => exact absurd hw hsend
          | returning => exact absurd hw hret
        simpa [hsend, hret] using hrunNow (c :: s.commandQue) (by simp [hrun]) fun _ _ => hwait

theorem Guard.call {s : Conn} (hg : Guard s) (h : Inv s) (call : Call) : Guard (s.call call) := by
  cases call with
  | queCommand r => exact hg.queCommand h r
  | queSend r => exact hg.queSend h r
  | setBopState inValue =>
    exact Guard.sendCommandIn (s := { s with bopState := inValue })
      ⟨hg.guarded, hg.running, hg.que⟩ h.status .run
  | masterStateChanged => exact hg.sendCommandIn h.status .run
  | setConnState newConnState up =>
    have hstate : Guard (if (newConnState = .authOk ∨ newConnState = .connected) ∧
        s.runningCommand = none then s.sendNextCommand else s) := by
      split
      next hnext =>
        exact Guard.sendNextCommand hg.guarded
          (hg.que_settled fun d hd => by rw [hnext.2] at hd; cases hd) h.status
      next => exact hg
    exact ⟨hstate.guarded, hstate.running, hstate.que⟩

/-- The running command has its reply: what it asked for has returned. -/
theorem Guard.endReturn {s : Conn} {c : Command} (hg : Guard s) (h : Inv s) (hret : Returning s c)
    {ret : ReturnCode} : Guard (s.endReturn ret) := by
  cases ret with
  | keep => exact hg
  | reque => exact hg.sendCommand h.status
  | done =>
    refine Guard.sendNextCommand hg.guarded (fun d hd => ?_) h.status
    rcases hg.que d hd with hset | ⟨hcaller, e, he, hfor⟩
    · exact hset
    · obtain ⟨stat, hmem⟩ := hret.credited
      rw [hret.running] at he
      cases he
      exact ⟨hcaller, fun _ => ⟨c, stat, hmem, hfor⟩⟩

theorem Guard.beginReturn {s : Conn} (hg : Guard s) (wire : List Nat) (sender : Nat) (c : Command)
    (stat : Int) : Guard ({ s with wire }.beginReturn sender c stat) where
  guarded := hg.guarded.concat (by rintro _ _ ⟨⟩)
  running := by
    intro d hd
    rcases hg.running d hd with hset | ⟨hsome, -⟩
    · exact .inl (hset.append _)
    · exact .inr ⟨hsome, by simp [Conn.beginReturn]⟩
  que := fun d hd => (hg.que d hd).imp_left fun hset => hset.append _

theorem Guard.step {s : Conn} (hg : Guard s) (h : Inv s) (e : Event) : Guard (s.step e) := by
  cases e with
  | call c => exact hg.call h c
  | reply stat calls ret =>
    rw [Conn.step]
    obtain heq | ⟨c, wire, ret', hrun, hwire, heq, hinv, hret⟩ :=
      h.commandReturn_cases stat calls ret
    · rwa [heq]
    · rw [heq]
      obtain ⟨d, hrun', -, hbegin⟩ := h.beginReturn hwire
      obtain rfl : c = d := Option.some.inj (hrun.symm.trans hrun')
      have hcalls := run_invariant (I := fun t => Inv t ∧ Guard t)
        ⟨(hbegin stat).1, hg.beginReturn wire c.id c stat⟩
        (fun t call ht => ⟨ht.1.call call, ht.2.call ht.1 call⟩) calls
      exact hcalls.2.endReturn hinv hret

/-- **A masked command goes out only when nothing blocks it and its status has
returned**, in every run of a connection. -/
theorem masked_sent_free (connState : ConnState) (events : List Event) :
    Guarded (run Conn.step (Conn.start connState) events).trace := by
  have hinit : Guard (Conn.start connState) :=
    .ofSettled (fun before _ _ _ heq => by simp [Conn.start] at heq) (by simp [Conn.start])
      (by simp [Conn.start])
  exact (run_invariant (I := fun s => Inv s ∧ Guard s) ⟨Inv.start connState, hinit⟩
    (fun s e hs => ⟨hs.1.step e, hs.2.step hs.1 e⟩) events).2.guarded

end Rts2.CommandQue

import Rts2.Centrald.StatusInfo
import Mathlib.Data.List.Nodup

/-! # Every request is answered once

The log of a run is read as the record of what each request waits for. A final
reply closes a request that waits for nobody; a request that waits for nobody is
closed. -/
namespace Rts2.Centrald.StatusInfo
open Rts2.Lib Rts2.CommandQue

/-! ## The record of requests -/

/-- The devices the open request of `asker` waits for; `none` when it has none. -/
def awaits (asker : Nat) (waiting : Option (List Nat)) : Entry → Option (List Nat)
  | .asked a devices => if a = asker then some devices else waiting
  | .answered device a =>
    if a = asker then waiting.map fun devices => devices.filter (· ≠ device) else waiting
  | .gone id =>
    if id = asker then none else waiting.map fun devices => devices.filter (· ≠ id)
  | .final a _ => if a = asker then none else waiting

def waiting (asker : Nat) (log : List Entry) : Option (List Nat) :=
  log.foldl (awaits asker) none

def Entry.isAsked (asker : Nat) : Entry → Bool
  | .asked a _ => a = asker
  | _ => false

def Entry.isFinal (asker : Nat) : Entry → Bool
  | .final a _ => a = asker
  | _ => false

/-- The requests of `asker`. -/
def requests (asker : Nat) (log : List Entry) : Nat := log.countP fun e => e.isAsked asker

/-- The final replies to `asker`. -/
def replies (asker : Nat) (log : List Entry) : Nat := log.countP fun e => e.isFinal asker

theorem waiting_concat (asker : Nat) (log : List Entry) (e : Entry) :
    waiting asker (log ++ [e]) = awaits asker (waiting asker log) e := by
  simp [waiting]

theorem requests_concat (asker : Nat) (log : List Entry) (e : Entry) :
    requests asker (log ++ [e]) = requests asker log + if e.isAsked asker then 1 else 0 := by
  simp [requests, List.countP_append, List.countP_singleton]

theorem replies_concat (asker : Nat) (log : List Entry) (e : Entry) :
    replies asker (log ++ [e]) = replies asker log + if e.isFinal asker then 1 else 0 := by
  simp [replies, List.countP_append, List.countP_singleton]

/-- A final reply closes a request that waits for nobody, and when an answer is
the cause, it is one that was given for this request. -/
def FinalRight (log : List Entry) (asker : Nat) (cause : Cause) : Prop :=
  waiting asker log = some [] ∧
    ∀ device, cause = .reply device → ∃ earlier, log = earlier ++ [.answered device asker]

/-- Every final reply of the log is right. -/
def LogRight (log : List Entry) : Prop :=
  ∀ before asker cause after, log = before ++ .final asker cause :: after →
    FinalRight before asker cause

theorem LogRight.nil : LogRight [] := by
  intro before asker cause after h
  cases before <;> cases h

theorem LogRight.concat {log : List Entry} (h : LogRight log) {e : Entry}
    (he : ∀ asker cause, e = .final asker cause → FinalRight log asker cause) :
    LogRight (log ++ [e]) := by
  intro before asker cause after hsplit
  rcases List.eq_nil_or_concat after with rfl | ⟨rest, last, rfl⟩
  · obtain ⟨rfl, hlast⟩ := List.append_inj' hsplit rfl
    exact he asker cause (List.singleton_inj.1 hlast)
  · rw [List.concat_eq_append, ← List.cons_append, ← List.append_assoc] at hsplit
    exact h before asker cause rest (List.append_inj' hsplit rfl).1

/-! ## One asker

An asker has no open request, or one that waits for the devices `asked`. -/

section
variable {asker : Nat} {running : Int} {asked : Nat → Prop} {log : List Entry}

structure Idle (asker : Nat) (running : Int) (asked : Nat → Prop) (log : List Entry) : Prop where
  running : running = 0
  waiting : waiting asker log = none
  replies : replies asker log = requests asker log
  nobody : ∀ x, ¬ asked x

structure Gathering (asker : Nat) (running : Int) (asked : Nat → Prop) (log : List Entry) :
    Prop where
  running : running = 1
  waiting : ∃ devices, waiting asker log = some devices ∧ ∀ x, x ∈ devices ↔ asked x
  replies : replies asker log + 1 = requests asker log

theorem Idle.congr (h : Idle asker running asked log) {asked' : Nat → Prop}
    (hasked : ∀ x, asked' x ↔ asked x) : Idle asker running asked' log :=
  ⟨h.running, h.waiting, h.replies, fun x hx => h.nobody x ((hasked x).1 hx)⟩

theorem Gathering.congr (h : Gathering asker running asked log) {asked' : Nat → Prop}
    (hasked : ∀ x, asked' x ↔ asked x) : Gathering asker running asked' log := by
  obtain ⟨devices, hwaiting, hmem⟩ := h.waiting
  exact ⟨h.running, ⟨devices, hwaiting, fun x => (hmem x).trans (hasked x).symm⟩, h.replies⟩

/-- An entry about somebody else. -/
def Foreign (asker : Nat) : Entry → Prop
  | .asked a _ => a ≠ asker
  | .answered _ a => a ≠ asker
  | .gone _ => False
  | .final a _ => a ≠ asker

theorem Foreign.unchanged {e : Entry} (h : Foreign asker e) (log : List Entry) :
    waiting asker (log ++ [e]) = waiting asker log ∧
      replies asker (log ++ [e]) = replies asker log ∧
      requests asker (log ++ [e]) = requests asker log := by
  rw [waiting_concat, replies_concat, requests_concat]
  cases e with
  | gone id => exact h.elim
  | asked a devices | answered device a | final a cause =>
    have hne : a ≠ asker := h
    simp [awaits, Entry.isAsked, Entry.isFinal, hne]

theorem Idle.foreign (h : Idle asker running asked log) {e : Entry} (he : Foreign asker e) :
    Idle asker running asked (log ++ [e]) := by
  obtain ⟨hwaiting, hreplies, hrequests⟩ := he.unchanged log
  exact ⟨h.running, hwaiting.trans h.waiting, by rw [hreplies, hrequests]; exact h.replies, h.nobody⟩

theorem Gathering.foreign (h : Gathering asker running asked log) {e : Entry}
    (he : Foreign asker e) : Gathering asker running asked (log ++ [e]) := by
  obtain ⟨hwaiting, hreplies, hrequests⟩ := he.unchanged log
  exact ⟨h.running, by rw [hwaiting]; exact h.waiting, by rw [hreplies, hrequests]; exact h.replies⟩

/-- Devices are asked. -/
theorem Idle.ask (h : Idle asker running asked log) (devices : List Nat) :
    Gathering asker (running + 1) (· ∈ devices) (log ++ [.asked asker devices]) := by
  refine ⟨by rw [h.running]; rfl, ⟨devices, ?_, fun x => Iff.rfl⟩, ?_⟩
  · rw [waiting_concat, awaits, if_pos rfl]
  · rw [replies_concat, requests_concat, h.replies]
    simp [Entry.isAsked, Entry.isFinal]

/-- A device answers. -/
theorem Gathering.answer (h : Gathering asker running asked log) (device : Nat) :
    Gathering asker running (fun x => asked x ∧ x ≠ device)
      (log ++ [.answered device asker]) := by
  obtain ⟨devices, hwaiting, hmem⟩ := h.waiting
  refine ⟨h.running, ⟨devices.filter (· ≠ device), ?_, fun x => ?_⟩, ?_⟩
  · rw [waiting_concat, hwaiting, awaits, if_pos rfl]
    rfl
  · rw [List.mem_filter, hmem, decide_eq_true_iff]
  · rw [replies_concat, requests_concat]
    simpa [Entry.isAsked, Entry.isFinal] using h.replies

/-- A connection other than the asker's is gone. -/
theorem Gathering.gone (h : Gathering asker running asked log) {id : Nat} (hne : id ≠ asker) :
    Gathering asker running (fun x => asked x ∧ x ≠ id) (log ++ [.gone id]) := by
  obtain ⟨devices, hwaiting, hmem⟩ := h.waiting
  refine ⟨h.running, ⟨devices.filter (· ≠ id), ?_, fun x => ?_⟩, ?_⟩
  · rw [waiting_concat, hwaiting, awaits, if_neg hne]
    rfl
  · rw [List.mem_filter, hmem, decide_eq_true_iff]
  · rw [replies_concat, requests_concat]
    simpa [Entry.isAsked, Entry.isFinal] using h.replies

theorem Idle.gone (h : Idle asker running asked log) {id : Nat} (hne : id ≠ asker) :
    Idle asker running asked (log ++ [.gone id]) := by
  refine ⟨h.running, ?_, ?_, h.nobody⟩
  · rw [waiting_concat, h.waiting, awaits, if_neg hne]
    rfl
  · rw [replies_concat, requests_concat]
    simpa [Entry.isAsked, Entry.isFinal] using h.replies

/-- With nobody to wait for, the request is closed. -/
theorem Gathering.close (h : Gathering asker running asked log) (hnobody : ∀ x, ¬ asked x)
    (cause : Cause) :
    StatusInfo.waiting asker log = some [] ∧
      Idle asker (running - 1) asked (log ++ [.final asker cause]) := by
  obtain ⟨devices, hwaiting, hmem⟩ := h.waiting
  have hnil : devices = [] :=
    List.eq_nil_iff_forall_not_mem.2 fun x hx => hnobody x ((hmem x).1 hx)
  refine ⟨by rw [hwaiting, hnil], by rw [h.running]; rfl, ?_, ?_, hnobody⟩
  · rw [waiting_concat, awaits, if_pos rfl]
  · rw [replies_concat, requests_concat, ← h.replies]
    simp [Entry.isAsked, Entry.isFinal]

/-- The asker has no open request, or one that waits for somebody, unless it is late. -/
def InTime (late : Prop) (asker : Nat) (running : Int) (asked : Nat → Prop) (log : List Entry) : Prop :=
  Idle asker running asked log ∨ Gathering asker running asked log ∧ (late ∨ ∃ x, asked x)

theorem InTime.congr {late late' : Prop} (h : InTime late asker running asked log)
    (hlate : late → late') {asked' : Nat → Prop} (hasked : ∀ x, asked' x ↔ asked x) :
    InTime late' asker running asked' log := by
  rcases h with hidle | ⟨hgather, hwaits⟩
  · exact .inl (hidle.congr hasked)
  · exact .inr ⟨hgather.congr hasked, hwaits.imp hlate fun ⟨x, hx⟩ => ⟨x, (hasked x).2 hx⟩⟩

theorem InTime.foreign {late : Prop} (h : InTime late asker running asked log) {e : Entry}
    (he : Foreign asker e) : InTime late asker running asked (log ++ [e]) := by
  rcases h with hidle | ⟨hgather, hwaits⟩
  · exact .inl (hidle.foreign he)
  · exact .inr ⟨hgather.foreign he, hwaits⟩

end

/-! ## One queue -/

/-- The originators of the pending commands. -/
def asks (q : Conn) : List Nat := (pendingCommands q).filterMap (·.originator)

/-- Between two events: no command waits for a BOP state, and the running command
has been sent. -/
structure Plain (q : Conn) : Prop where
  masks : ∀ cmd ∈ q.runningCommand.toList ++ q.commandQue, cmd.bopMask = 0
  sent : q.runningCommand.isSome → q.runningCommandStatus = .send

section
variable {q : Conn}

theorem commandOriginatorPending_iff (c : StatusConn) (originator : Nat) :
    c.commandOriginatorPending originator = true ↔ originator ∈ asks c.conn := by
  simp [StatusConn.commandOriginatorPending, asks]

theorem Plain.pending (h : Plain q) :
    pendingCommands q = q.runningCommand.toList ++ q.commandQue := by
  unfold pendingCommands
  cases hrun : q.runningCommand with
  | none => simp
  | some cmd => simp [h.sent (by simp [hrun])]

theorem sendCommand_plain {cmd : Command} (hrun : q.runningCommand = some cmd)
    (hmask : cmd.bopMask = 0) :
    q.sendCommand = { q.transmit cmd with runningCommandStatus := .send } := by
  have hzero : ¬ cmd.bopMask ≠ 0#32 := not_not.2 hmask
  simp only [Conn.sendCommand, hrun, if_neg hzero]

theorem Plain.start (connState : CommandQue.ConnState) : Plain (.start connState) :=
  ⟨by simp [Conn.start], by simp [Conn.start]⟩

theorem Plain.queCommand (h : Plain q) {r : Request} (hr : r.bopMask = 0) :
    Plain (q.queCommand r) ∧ (asks (q.queCommand r)).Perm (r.originator.toList ++ asks q) := by
  have hnew : (q.newCommand r true).bopMask = 0 := hr
  unfold Conn.queCommand
  dsimp only
  split
  · refine ⟨⟨?_, h.sent⟩, ?_⟩
    · rw [← List.append_assoc]
      exact List.forall_mem_append.2 ⟨h.masks, List.forall_mem_singleton.2 hnew⟩
    · simp only [asks, pendingCommands, ← List.append_assoc, List.filterMap_append]
      refine List.perm_append_comm.trans (List.Perm.of_eq ?_)
      cases horig : r.originator <;> simp [Conn.newCommand, horig]
  · rename_i hfree
    have hnone : q.runningCommand = none := by
      cases hrun : q.runningCommand with
      | none => rfl
      | some cmd => simp [hrun] at hfree
    have hmasks := h.masks
    rw [hnone] at hmasks
    rw [sendCommand_plain rfl hnew]
    refine ⟨⟨List.forall_mem_cons.2 ⟨hnew, hmasks⟩, fun _ => rfl⟩, List.Perm.of_eq ?_⟩
    cases horig : r.originator <;>
      simp [asks, pendingCommands, Conn.transmit, Conn.newCommand, horig, hnone]

/-- A reply takes the running command away, and the next one is sent. -/
theorem Plain.reply (h : Plain q) {cmd : Command} (hrun : q.runningCommand = some cmd)
    (wire : List Nat) (sender : Nat) (stat : Int) :
    asks q = cmd.originator.toList ++
        asks ({ q with wire }.beginReturn sender cmd stat) ∧
      Plain (({ q with wire }.beginReturn sender cmd stat).endReturn .done) ∧
      asks (({ q with wire }.beginReturn sender cmd stat).endReturn .done) =
        asks ({ q with wire }.beginReturn sender cmd stat) := by
  have hmasks := h.masks
  rw [hrun] at hmasks
  refine ⟨?_, ?_⟩
  · rw [asks, h.pending, hrun]
    cases horig : cmd.originator <;>
      simp [asks, pendingCommands, Conn.beginReturn, horig]
  · cases hque : q.commandQue with
    | nil =>
      simp only [Conn.endReturn, Conn.sendNextCommand, Conn.beginReturn]
      exact ⟨⟨by simp, by simp⟩, by simp [asks, pendingCommands]⟩
    | cons next rest =>
      have hnext : next.bopMask = 0 := hmasks next (by simp [hque])
      simp only [Conn.endReturn, Conn.sendNextCommand, Conn.beginReturn]
      rw [sendCommand_plain rfl hnext]
      refine ⟨⟨fun c hc => hmasks c ?_, fun _ => rfl⟩, ?_⟩
      · simpa [Conn.transmit, hque] using Or.inr hc
      · simp [asks, pendingCommands, Conn.transmit]

theorem filterMap_forget (id : Nat) (commands : List Command) :
    (commands.map (forgetOriginator id)).filterMap (·.originator) =
      (commands.filterMap (·.originator)).filter (· ≠ id) := by
  induction commands with
  | nil => rfl
  | cons cmd commands ih =>
    rw [List.map_cons, List.filterMap_cons, List.filterMap_cons, ih, forgetOriginator]
    cases horig : cmd.originator with
    | none => simp [horig]
    | some a =>
      by_cases ha : a = id
      · simp [ha]
      · simp [ha, horig]

/-- No command asks for a connection that is gone. -/
theorem Plain.forget (h : Plain q) (id : Nat) :
    Plain (forgetConnection id q) ∧ asks (forgetConnection id q) = (asks q).filter (· ≠ id) := by
  have hmask : ∀ cmd, (forgetOriginator id cmd).bopMask = cmd.bopMask := by
    intro cmd
    unfold forgetOriginator
    split <;> rfl
  have hlist : (forgetConnection id q).runningCommand.toList ++ (forgetConnection id q).commandQue =
      (q.runningCommand.toList ++ q.commandQue).map (forgetOriginator id) := by
    cases hrun : q.runningCommand <;> simp [forgetConnection, hrun]
  have hplain : Plain (forgetConnection id q) := by
    refine ⟨fun cmd hcmd => ?_, fun hsome => h.sent (by simpa [forgetConnection] using hsome)⟩
    rw [hlist] at hcmd
    obtain ⟨cmd', hcmd', rfl⟩ := List.mem_map.1 hcmd
    rw [hmask]
    exact h.masks cmd' hcmd'
  refine ⟨hplain, ?_⟩
  rw [asks, hplain.pending, hlist, filterMap_forget, asks, h.pending]

end

/-! ## The daemon -/

/-- A `status_info` for `asker` is pending on connection `x`. -/
def Asked (s : Central) (asker x : Nat) : Prop :=
  ∃ c ∈ s.connections, c.centraldId = x ∧ asker ∈ asks c.conn

/-- The queues of all connections. -/
structure Queues (s : Central) : Prop where
  ids : (s.connections.map (·.centraldId)).Nodup
  numbered : ∀ c ∈ s.connections, c.centraldId ≤ s.connNum
  plain : ∀ c ∈ s.connections, Plain c.conn
  once : ∀ c ∈ s.connections, (asks c.conn).Nodup
  live : ∀ c ∈ s.connections, ∀ a ∈ asks c.conn, ∃ c' ∈ s.connections, c'.centraldId = a

/-- What holds in every state of a run; the requests of `late` askers may wait for
nobody and are still to be closed. -/
structure Inv (late : Nat → Prop) (s : Central) : Prop where
  queues : Queues s
  served : ∀ c ∈ s.connections,
    Idle c.centraldId c.statusCommandRunning (Asked s c.centraldId) s.log ∨
      Gathering c.centraldId c.statusCommandRunning (Asked s c.centraldId) s.log ∧
        (late c.centraldId ∨ ∃ x, Asked s c.centraldId x)
  unborn : ∀ id, s.connNum < id → waiting id s.log = none ∧ replies id s.log = requests id s.log
  log : LogRight s.log

section
variable {s : Central} {late : Nat → Prop}

theorem Queues.eq_of_id (h : Queues s) {c c' : StatusConn} (hc : c ∈ s.connections)
    (hc' : c' ∈ s.connections) (hid : c.centraldId = c'.centraldId) : c = c' :=
  List.inj_on_of_nodup_map h.ids hc hc' hid

theorem commandOriginatorPending_some (a : Nat) (exclude : Option Nat) :
    s.commandOriginatorPending a exclude = true ↔ ∃ x, Asked s a x ∧ some x ≠ exclude := by
  simp only [Central.commandOriginatorPending, List.any_eq_true, Bool.and_eq_true,
    decide_eq_true_eq, commandOriginatorPending_iff]
  constructor
  · rintro ⟨c, hc, hne, hmem⟩
    exact ⟨c.centraldId, ⟨c, hc, rfl, hmem⟩, hne⟩
  · rintro ⟨x, ⟨c, hc, rfl, hmem⟩, hne⟩
    exact ⟨c, hc, hne, hmem⟩

/-- The connections after a change to each of them. -/
theorem Queues.map (h : Queues s) (f : StatusConn → StatusConn) (log : List Entry)
    (hf : ∀ c ∈ s.connections, (f c).centraldId = c.centraldId ∧ Plain (f c).conn ∧
      (asks (f c).conn).Nodup ∧ ∀ a ∈ asks (f c).conn, ∃ c' ∈ s.connections, c'.centraldId = a) :
    Queues { s with connections := s.connections.map f, log := log } := by
  have hids : (s.connections.map f).map (·.centraldId) = s.connections.map (·.centraldId) := by
    rw [List.map_map]
    exact List.map_congr_left fun c hc => (hf c hc).1
  refine ⟨by rw [hids]; exact h.ids, ?_, ?_, ?_, ?_⟩
  · refine List.forall_mem_map.2 fun c hc => ?_
    rw [(hf c hc).1]
    exact h.numbered c hc
  · exact List.forall_mem_map.2 fun c hc => (hf c hc).2.1
  · exact List.forall_mem_map.2 fun c hc => (hf c hc).2.2.1
  · refine List.forall_mem_map.2 fun c hc a ha => ?_
    obtain ⟨c', hc', hid⟩ := (hf c hc).2.2.2 a ha
    exact ⟨f c', List.mem_map_of_mem hc', (hf c' hc').1.trans hid⟩

theorem asked_map (f : StatusConn → StatusConn) (log : List Entry)
    (hf : ∀ c ∈ s.connections, (f c).centraldId = c.centraldId) (a x : Nat) :
    Asked { s with connections := s.connections.map f, log := log } a x ↔
      ∃ c ∈ s.connections, c.centraldId = x ∧ a ∈ asks (f c).conn := by
  constructor
  · rintro ⟨c, hc, hid, hmem⟩
    obtain ⟨c', hc', rfl⟩ := List.mem_map.1 hc
    exact ⟨c', hc', (hf c' hc').symm.trans hid, hmem⟩
  · rintro ⟨c, hc, hid, hmem⟩
    exact ⟨f c, List.mem_map_of_mem hc, (hf c hc).trans hid, hmem⟩

/-- Connections may change in what neither their requests nor those of others
depend on. -/
theorem Inv.map (h : Inv late s) (f : StatusConn → StatusConn)
    (hf : ∀ c ∈ s.connections, (f c).centraldId = c.centraldId ∧
      (f c).statusCommandRunning = c.statusCommandRunning ∧ Plain (f c).conn ∧
      (asks (f c).conn).Perm (asks c.conn)) :
    Inv late { s with connections := s.connections.map f } := by
  have hasked : ∀ a x, Asked { s with connections := s.connections.map f } a x ↔ Asked s a x := by
    intro a x
    refine (asked_map f s.log (fun c hc => (hf c hc).1) a x).trans ?_
    refine exists_congr fun c => and_congr_right fun hc => and_congr_right fun _ => ?_
    exact (hf c hc).2.2.2.mem_iff
  refine ⟨h.queues.map f s.log fun c hc => ?_, ?_, h.unborn, h.log⟩
  · obtain ⟨hid, -, hplain, hperm⟩ := hf c hc
    exact ⟨hid, hplain, hperm.nodup_iff.2 (h.queues.once c hc),
      fun a ha => h.queues.live c hc a (hperm.mem_iff.1 ha)⟩
  · refine List.forall_mem_map.2 fun c hc => ?_
    obtain ⟨hid, hrunning, -, -⟩ := hf c hc
    rw [hid, hrunning]
    exact InTime.congr (h.served c hc) id (hasked _)

theorem Inv.modify (h : Inv late s) {c : StatusConn} (hc : c ∈ s.connections)
    (f : StatusConn → StatusConn) (hid : (f c).centraldId = c.centraldId)
    (hrunning : (f c).statusCommandRunning = c.statusCommandRunning) (hplain : Plain (f c).conn)
    (hperm : (asks (f c).conn).Perm (asks c.conn)) : Inv late (s.modify c.centraldId f) := by
  refine h.map _ fun c' hc' => ?_
  split
  next heq =>
    obtain rfl := h.queues.eq_of_id hc' hc heq
    exact ⟨hid, hrunning, hplain, hperm⟩
  next => exact ⟨rfl, rfl, h.queues.plain c' hc', List.Perm.refl _⟩

theorem Inv.queOther (h : Inv late s) (id : Nat) (text : String) :
    Inv late (s.queOther id text) := by
  refine h.map _ fun c hc => ?_
  split
  · obtain ⟨hplain, hperm⟩ := (h.queues.plain c hc).queCommand (r := otherRequest text) rfl
    exact ⟨rfl, rfl, hplain, hperm⟩
  · exact ⟨rfl, rfl, h.queues.plain c hc, List.Perm.refl _⟩

/-- A new entry is about nobody who is not there yet. -/
theorem unborn_concat {connNum : Nat} {log : List Entry}
    (h : ∀ id, connNum < id → waiting id log = none ∧ replies id log = requests id log)
    {e : Entry} (he : ∀ id, connNum < id → Foreign id e ∨ ∃ x, e = .gone x) (id : Nat)
    (hid : connNum < id) :
    waiting id (log ++ [e]) = none ∧ replies id (log ++ [e]) = requests id (log ++ [e]) := by
  obtain ⟨hwaiting, hreplies⟩ := h id hid
  rcases he id hid with hforeign | ⟨x, rfl⟩
  · obtain ⟨h₁, h₂, h₃⟩ := hforeign.unchanged log
    rw [h₁, h₂, h₃]
    exact ⟨hwaiting, hreplies⟩
  · rw [waiting_concat, replies_concat, requests_concat, hwaiting, hreplies]
    simp [awaits, Entry.isAsked, Entry.isFinal]

/-- A request that waits for nobody is closed. -/
theorem Inv.finish (h : Inv late s) {c : StatusConn} (hc : c ∈ s.connections)
    (hgather : Gathering c.centraldId c.statusCommandRunning (Asked s c.centraldId) s.log)
    (hnobody : ∀ x, ¬ Asked s c.centraldId x) {cause : Cause}
    (hcause : ∀ device, cause = .reply device →
      ∃ earlier, s.log = earlier ++ [.answered device c.centraldId]) :
    Inv (fun a => late a ∧ a ≠ c.centraldId) (s.finish c.centraldId cause) := by
  obtain ⟨hwaiting, hidle⟩ := hgather.close hnobody cause
  have hasked : ∀ a x, Asked (s.finish c.centraldId cause) a x ↔ Asked s a x := by
    intro a x
    refine (asked_map _ _ (fun c hc => ?_) a x).trans ?_
    · split <;> rfl
    · refine exists_congr fun c => and_congr_right fun _ => and_congr_right fun _ => ?_
      split <;> exact Iff.rfl
  have hforeign : ∀ a, a ≠ c.centraldId → Foreign a (.final c.centraldId cause) :=
    fun a ha => Ne.symm ha
  refine ⟨h.queues.map _ _ fun c' hc' => ?_, ?_, ?_, ?_⟩
  · split <;>
      exact ⟨rfl, h.queues.plain c' hc', h.queues.once c' hc', h.queues.live c' hc'⟩
  · refine List.forall_mem_map.2 fun c' hc' => ?_
    split
    next hid =>
      obtain rfl := h.queues.eq_of_id hc' hc hid
      exact .inl (hidle.congr (hasked _))
    next hid =>
      exact (InTime.foreign (h.served c' hc') (hforeign _ hid)).congr (fun hlate => ⟨hlate, hid⟩) (hasked _)
  · refine unborn_concat h.unborn fun id hid => .inl (hforeign id ?_)
    have := h.queues.numbered c hc
    exact (lt_of_le_of_lt this hid).ne'
  · refine h.log.concat fun asker cause' heq => ?_
    cases heq
    exact ⟨hwaiting, hcause⟩

theorem Inv.weaken (h : Inv late s) {late' : Nat → Prop} (himp : ∀ a, late a → late' a) :
    Inv late' s :=
  ⟨h.queues, fun c hc => (h.served c hc).imp_right fun hg => ⟨hg.1, hg.2.imp_left (himp _)⟩,
    h.unborn, h.log⟩

/-- An asker that waits for somebody, or has no open request, is not late. -/
theorem Inv.onTime (h : Inv late s) (a : Nat)
    (hwaits : ∀ c ∈ s.connections, c.centraldId = a → c.statusCommandRunning = 1 →
      ∃ x, Asked s a x) : Inv (fun b => late b ∧ b ≠ a) s := by
  refine ⟨h.queues, fun c hc => (h.served c hc).imp_right fun ⟨hgather, hlate⟩ => ⟨hgather, ?_⟩,
    h.unborn, h.log⟩
  by_cases ha : c.centraldId = a
  · exact .inr (ha ▸ hwaits c hc ha hgather.running)
  · exact hlate.imp_left fun hl => ⟨hl, ha⟩

theorem find_eq_some {a : Nat} {c : StatusConn} (h : s.find a = some c) :
    c ∈ s.connections ∧ c.centraldId = a :=
  ⟨List.mem_of_find?_eq_some h, by simpa using List.find?_some h⟩

/-- `updateStatusWait (NULL)` closes a request that waits for nobody. -/
theorem Inv.updateStatusWaitNull (h : Inv late s) (a : Nat) :
    Inv (fun b => late b ∧ b ≠ a) (s.updateStatusWaitNull a) := by
  unfold Central.updateStatusWaitNull
  split
  · rename_i hnone
    refine h.onTime a fun c hc ha => ?_
    simpa [ha] using List.find?_eq_none.1 hnone c hc
  rename_i c hfind
  obtain ⟨hc, rfl⟩ := find_eq_some hfind
  split
  · rename_i hzero
    refine h.onTime _ fun c' hc' hid hone => ?_
    obtain rfl := h.queues.eq_of_id hc' hc hid
    omega
  rename_i hrunning
  split
  · rename_i hpending
    obtain ⟨x, hx, -⟩ := (commandOriginatorPending_some _ _).1 hpending
    exact h.onTime _ fun _ _ _ _ => ⟨x, hx⟩
  · rename_i hpending
    have hnobody : ∀ x, ¬ Asked s c.centraldId x := fun x hx =>
      hpending ((commandOriginatorPending_some _ _).2 ⟨x, hx, by simp⟩)
    rcases h.served c hc with hidle | ⟨hgather, -⟩
    · exact absurd hidle.running hrunning
    · exact h.finish hc hgather hnobody (fun _ hcause => by cases hcause)

theorem Inv.updateAll (h : Inv late s) (ids : List Nat) :
    Inv (fun b => late b ∧ b ∉ ids) (ids.foldl Central.updateStatusWaitNull s) := by
  induction ids generalizing s late with
  | nil => exact h.weaken fun a ha => ⟨ha, List.not_mem_nil⟩
  | cons a ids ih =>
    refine (ih (h.updateStatusWaitNull a)).weaken fun b hb => ⟨hb.1.1, ?_⟩
    rw [List.mem_cons, not_or]
    exact ⟨hb.1.2, hb.2⟩

/-- The ids of the connections are not changed by `updateStatusWait (NULL)`. -/
theorem updateStatusWaitNull_ids (a : Nat) :
    (s.updateStatusWaitNull a).connections.map (·.centraldId) =
      s.connections.map (·.centraldId) := by
  unfold Central.updateStatusWaitNull
  split
  · rfl
  split
  · rfl
  split
  · rfl
  · simp only [Central.finish, Central.modify, Central.record, List.map_map]
    refine List.map_congr_left fun c _ => ?_
    simp only [Function.comp]
    split <;> rfl

theorem updateAll_ids (ids : List Nat) :
    (ids.foldl Central.updateStatusWaitNull s).connections.map (·.centraldId) =
      s.connections.map (·.centraldId) := by
  induction ids generalizing s with
  | nil => rfl
  | cons a ids ih => rw [List.foldl_cons, ih, updateStatusWaitNull_ids]

/-! ## Steps -/

/-- A connection is gone: nobody waits for it, and its own requests are forgotten. -/
theorem Inv.gone (h : Inv late s) (c : StatusConn) :
    Inv (fun _ => True) { s with
      connections := (s.connections.filter (·.centraldId ≠ c.centraldId)).map
        (.onConn (forgetConnection c.centraldId))
      log := s.log ++ [.gone c.centraldId] } := by
  have hmem : ∀ d, d ∈ s.connections.filter (·.centraldId ≠ c.centraldId) ↔
      d ∈ s.connections ∧ d.centraldId ≠ c.centraldId := by
    intro d
    rw [List.mem_filter, decide_eq_true_iff]
  have hasks : ∀ d ∈ s.connections, asks (forgetConnection c.centraldId d.conn) =
      (asks d.conn).filter (· ≠ c.centraldId) :=
    fun d hd => ((h.queues.plain d hd).forget c.centraldId).2
  have hasked : ∀ a, a ≠ c.centraldId → ∀ x, Asked { s with
      connections := (s.connections.filter (·.centraldId ≠ c.centraldId)).map
        (.onConn (forgetConnection c.centraldId))
      log := s.log ++ [.gone c.centraldId] } a x ↔ Asked s a x ∧ x ≠ c.centraldId := by
    intro a ha x
    constructor
    · rintro ⟨_, hleft, rfl, hmemA⟩
      obtain ⟨d, hd, rfl⟩ := List.mem_map.1 hleft
      obtain ⟨hd, hne⟩ := (hmem d).1 hd
      have hmemA' : a ∈ asks (forgetConnection c.centraldId d.conn) := hmemA
      rw [hasks d hd] at hmemA'
      exact ⟨⟨d, hd, rfl, (List.mem_filter.1 hmemA').1⟩, hne⟩
    · rintro ⟨⟨d, hd, rfl, hmemA⟩, hne⟩
      refine ⟨_, List.mem_map_of_mem ((hmem d).2 ⟨hd, hne⟩), rfl, ?_⟩
      show a ∈ asks (forgetConnection c.centraldId d.conn)
      rw [hasks d hd]
      exact List.mem_filter.2 ⟨hmemA, by simpa using ha⟩
  refine ⟨⟨?_, ?_, ?_, ?_, ?_⟩, ?_, ?_, ?_⟩
  · rw [List.map_map]
    exact (h.queues.ids.sublist (List.filter_sublist.map _))
  · exact List.forall_mem_map.2 fun d hd => h.queues.numbered d ((hmem d).1 hd).1
  · exact List.forall_mem_map.2 fun d hd =>
      ((h.queues.plain d ((hmem d).1 hd).1).forget c.centraldId).1
  · refine List.forall_mem_map.2 fun d hd => ?_
    have hd := ((hmem d).1 hd).1
    show (asks (forgetConnection c.centraldId d.conn)).Nodup
    rw [hasks d hd]
    exact (h.queues.once d hd).filter _
  · refine List.forall_mem_map.2 fun d hd a ha => ?_
    have hd := ((hmem d).1 hd).1
    have ha' : a ∈ asks (forgetConnection c.centraldId d.conn) := ha
    rw [hasks d hd, List.mem_filter, decide_eq_true_iff] at ha'
    obtain ⟨c', hc', rfl⟩ := h.queues.live d hd a ha'.1
    exact ⟨_, List.mem_map_of_mem ((hmem c').2 ⟨hc', ha'.2⟩), rfl⟩
  · refine List.forall_mem_map.2 fun d hd => ?_
    obtain ⟨hd, hne⟩ := (hmem d).1 hd
    rcases h.served d hd with hidle | ⟨hgather, -⟩
    · have hgone := hidle.gone (Ne.symm hne)
      exact .inl ⟨hgone.running, hgone.waiting, hgone.replies,
        fun x hx => hgone.nobody x ((hasked _ hne x).1 hx).1⟩
    · exact .inr ⟨(hgather.gone (Ne.symm hne)).congr (hasked _ hne), .inl trivial⟩
  · exact unborn_concat h.unborn fun id _ => .inr ⟨_, rfl⟩
  · exact h.log.concat fun asker cause heq => by cases heq

theorem Inv.removeConnection (h : Inv (fun _ => False) s) (c : StatusConn)
    (commands : List (Nat × String)) :
    Inv (fun _ => False) (s.removeConnection c commands) := by
  unfold Central.removeConnection
  split
  swap
  · exact h
  dsimp only
  have hqueued : ∀ (t : Central) (e : Entry), Inv (fun _ => True) (t.record e) →
      Inv (fun _ => True) ((commands.foldl (fun (s : Central) command =>
        s.queOther command.1 command.2) t).record e) := by
    induction commands with
    | nil => exact fun t e ht => ht
    | cons command commands ih => exact fun t e ht => ih _ e (ht.queOther command.1 command.2)
  have hready := hqueued { s with
    connections := (s.connections.filter (·.centraldId ≠ c.centraldId)).map
      (.onConn (forgetConnection c.centraldId)) } (.gone c.centraldId) (h.gone c)
  refine ⟨(hready.updateAll _).queues, fun d hd => ?_, (hready.updateAll _).unborn,
    (hready.updateAll _).log⟩
  refine ((hready.updateAll _).served d hd).imp_right fun ⟨hgather, hwaits⟩ => ⟨hgather, ?_⟩
  -- every connection left has been updated
  refine hwaits.imp_left fun hlate => hlate.2 ?_
  rw [← updateAll_ids]
  exact List.mem_map_of_mem hd

theorem modify_modify (id : Nat) (f g : Conn → Conn) :
    (s.modify id (.onConn f)).modify id (.onConn g) = s.modify id (.onConn (g ∘ f)) := by
  simp only [Central.modify, List.map_map]
  congr 1
  refine List.map_congr_left fun c _ => ?_
  by_cases hid : c.centraldId = id <;> simp [hid, StatusConn.onConn]

theorem finish_modify (id asker : Nat) (f : Conn → Conn) (cause : Cause) :
    (s.finish asker cause).modify id (.onConn f) = (s.modify id (.onConn f)).finish asker cause := by
  simp only [Central.finish, Central.modify, Central.record, List.map_map]
  congr 1
  refine List.map_congr_left fun c _ => ?_
  by_cases ha : c.centraldId = asker
  · subst ha
    by_cases hid : c.centraldId = id <;> simp [hid, StatusConn.onConn]
  · by_cases hid : c.centraldId = id
    · subst hid
      simp [ha, StatusConn.onConn]
    · simp [hid, ha]

/-- The connection that answers is not looked at. -/
theorem pending_modify (id asker : Nat) (f : Conn → Conn) :
    (s.modify id (.onConn f)).commandOriginatorPending asker (some id) =
      s.commandOriginatorPending asker (some id) := by
  simp only [Central.commandOriginatorPending, Central.modify, List.any_map]
  congr 1
  funext c
  by_cases hid : c.centraldId = id <;> simp [hid, StatusConn.onConn]

/-- What a reply to the running command leaves of a queue. -/
def afterReply (sender : Nat) (wire : List Nat) (cmd : Command) (stat : Int) (q : Conn) : Conn :=
  ({ q with wire }.beginReturn sender cmd stat).endReturn .done

/-- A device answers: the asker no longer waits for it. -/
theorem Inv.answer (h : Inv late s) {c : StatusConn} (hc : c ∈ s.connections) {cmd : Command}
    (hrun : c.conn.runningCommand = some cmd) {a : Nat} (ha : cmd.originator = some a)
    (sender : Nat) (wire : List Nat) (stat : Int) :
    Inv (fun b => late b ∨ b = a)
        ((s.modify c.centraldId (.onConn (afterReply sender wire cmd stat))).record
          (.answered c.centraldId a)) ∧
      ∀ x, Asked ((s.modify c.centraldId (.onConn (afterReply sender wire cmd stat))).record
        (.answered c.centraldId a)) a x → x ≠ c.centraldId := by
  obtain ⟨hasks, hplain, hafter⟩ := (h.queues.plain c hc).reply hrun wire sender stat
  rw [ha, ← hafter] at hasks
  replace hasks : asks c.conn = a :: asks (afterReply sender wire cmd stat c.conn) := hasks
  have honce := h.queues.once c hc
  rw [hasks, List.nodup_cons] at honce
  have hlive := h.queues.live c hc
  rw [hasks] at hlive
  have hasked : ∀ b x, Asked ((s.modify c.centraldId (.onConn (afterReply sender wire cmd stat))).record
      (.answered c.centraldId a)) b x ↔ Asked s b x ∧ (b = a → x ≠ c.centraldId) := by
    intro b x
    refine (asked_map _ _ (fun c' _ => by split <;> rfl) b x).trans ?_
    constructor
    · rintro ⟨d, hd, rfl, hmem⟩
      split at hmem
      next hid =>
        obtain rfl := h.queues.eq_of_id hd hc hid
        refine ⟨⟨d, hd, rfl, by rw [hasks]; exact List.mem_cons_of_mem _ hmem⟩, ?_⟩
        rintro rfl
        exact absurd hmem honce.1
      next hid => exact ⟨⟨d, hd, rfl, hmem⟩, fun _ => hid⟩
    · rintro ⟨⟨d, hd, rfl, hmem⟩, hne⟩
      refine ⟨d, hd, rfl, ?_⟩
      split
      next hid =>
        obtain rfl := h.queues.eq_of_id hd hc hid
        rw [hasks, List.mem_cons] at hmem
        exact hmem.resolve_left fun hba => hne hba rfl
      next => exact hmem
  refine ⟨⟨h.queues.map _ _ fun d hd => ?_, ?_, ?_, ?_⟩, fun x hx => ((hasked a x).1 hx).2 rfl⟩
  · split
    next hid =>
      obtain rfl := h.queues.eq_of_id hd hc hid
      exact ⟨rfl, hplain, honce.2, fun b hb => hlive b (List.mem_cons_of_mem _ hb)⟩
    next => exact ⟨rfl, h.queues.plain d hd, h.queues.once d hd, h.queues.live d hd⟩
  · refine List.forall_mem_map.2 fun d hd => ?_
    have hsame : ∀ e : StatusConn, e = (if d.centraldId = c.centraldId then
        StatusConn.onConn (afterReply sender wire cmd stat) d else d) →
        e.centraldId = d.centraldId ∧ e.statusCommandRunning = d.statusCommandRunning := by
      rintro e rfl
      split <;> exact ⟨rfl, rfl⟩
    obtain ⟨hid, hrunning⟩ := hsame _ rfl
    rw [hid, hrunning]
    by_cases hda : d.centraldId = a
    · subst hda
      rcases h.served d hd with hidle | ⟨hgather, -⟩
      · refine absurd ⟨c, hc, rfl, ?_⟩ (hidle.nobody c.centraldId)
        rw [hasks]
        exact List.mem_cons_self
      · refine .inr ⟨(hgather.answer c.centraldId).congr fun x => ?_, .inl (.inr rfl)⟩
        rw [hasked]
        exact and_congr_right fun _ => ⟨fun hne => hne rfl, fun hne _ => hne⟩
    · have hforeign : Foreign d.centraldId (.answered c.centraldId a) := Ne.symm hda
      have hsameAsked : ∀ x, Asked ((s.modify c.centraldId
          (.onConn (afterReply sender wire cmd stat))).record (.answered c.centraldId a))
          d.centraldId x ↔ Asked s d.centraldId x :=
        fun x => (hasked _ x).trans (and_iff_left fun heq => absurd heq hda)
      exact (InTime.foreign (h.served d hd) hforeign).congr .inl hsameAsked
  · obtain ⟨c', hc', rfl⟩ := hlive a List.mem_cons_self
    refine unborn_concat h.unborn fun id hid => .inl ?_
    have := h.queues.numbered c' hc'
    exact fun heq => absurd hid (by omega)
  · exact h.log.concat fun asker cause heq => by cases heq

theorem Inv.commandReturn (h : Inv (fun _ => False) s) {c : StatusConn} (hc : c ∈ s.connections)
    (stat : Int) : Inv (fun _ => False) (s.commandReturn c stat) := by
  have hplain := h.queues.plain c hc
  unfold Central.commandReturn
  split
  · exact h
  rename_i sender wire _
  split
  · exact h.modify hc _ rfl rfl ⟨hplain.masks, hplain.sent⟩ (List.Perm.refl _)
  rename_i cmd hrun
  obtain ⟨hasks, hplain', hafter⟩ := hplain.reply hrun wire sender stat
  cases ha : cmd.originator with
  | none =>
    dsimp only
    rw [modify_modify]
    rw [ha, ← hafter] at hasks
    exact h.modify hc _ rfl rfl hplain' (List.Perm.of_eq hasks.symm)
  | some a =>
    dsimp only
    obtain ⟨hanswer, hne⟩ := h.answer hc hrun ha sender wire stat
    -- the reply takes the command away before the next one is sent
    have hbegin : ((s.modify c.centraldId (.onConn fun q =>
        { q with wire }.beginReturn sender cmd stat)).record (.answered c.centraldId a)).modify
          c.centraldId (.onConn (·.endReturn .done)) =
        (s.modify c.centraldId (.onConn (afterReply sender wire cmd stat))).record
          (.answered c.centraldId a) := by
      show ((s.modify _ _).modify _ _).record _ = _
      rw [modify_modify]
      rfl
    unfold Central.updateStatusWait
    split
    next hpending =>
      rw [hbegin]
      rw [← pending_modify, hbegin] at hpending
      obtain ⟨x, hx, -⟩ := (commandOriginatorPending_some _ _).1 hpending
      exact (hanswer.onTime a fun _ _ _ _ => ⟨x, hx⟩).weaken (by simp)
    next hpending =>
      rw [finish_modify, hbegin]
      rw [← pending_modify, hbegin] at hpending
      -- the asker is a connection, and nobody else has its command
      have hamem : a ∈ asks c.conn := by
        rw [hasks, ha]
        exact List.mem_cons_self
      obtain ⟨c', hc', rfl⟩ := h.queues.live c hc a hamem
      have hnobody : ∀ x, ¬ Asked ((s.modify c.centraldId
          (.onConn (afterReply sender wire cmd stat))).record
          (.answered c.centraldId c'.centraldId)) c'.centraldId x := by
        intro x hx
        exact hpending ((commandOriginatorPending_some _ _).2
          ⟨x, hx, fun heq => hne x hx (Option.some.inj heq)⟩)
      obtain ⟨d, hd, hid, hrunning⟩ : ∃ d ∈ (s.modify c.centraldId
          (.onConn (afterReply sender wire cmd stat))).connections,
          d.centraldId = c'.centraldId ∧ d.statusCommandRunning = c'.statusCommandRunning := by
        refine ⟨_, List.mem_map_of_mem hc', ?_⟩
        split <;> exact ⟨rfl, rfl⟩
      have hcause : ∀ device, Cause.reply c.centraldId = .reply device →
          ∃ earlier, ((s.modify c.centraldId (.onConn (afterReply sender wire cmd stat))).record
            (.answered c.centraldId c'.centraldId)).log =
              earlier ++ [.answered device c'.centraldId] := by
        rintro device heq
        obtain rfl := Cause.reply.inj heq
        exact ⟨_, rfl⟩
      rw [← hid] at hanswer hnobody hcause ⊢
      rcases hanswer.served d hd with hidle | ⟨hgather, -⟩
      · rcases h.served c' hc' with hidle' | ⟨hgather', -⟩
        · exact absurd ⟨c, hc, rfl, hamem⟩ (hidle'.nobody c.centraldId)
        · have h0 := hidle.running
          have h1 := hgather'.running
          omega
      · exact (hanswer.finish hd hgather hnobody hcause).weaken (by simp)

/-- What `statusInfo` does to a connection. -/
def asking (asker : Nat) (devices : List Nat) (d : StatusConn) : StatusConn :=
  if d.centraldId ∈ devices then d.onConn (·.queCommand (statusInfoRequest asker)) else d

section
variable {asker : Nat} {devices : List Nat}

theorem asking_same (d : StatusConn) : (asking asker devices d).centraldId = d.centraldId ∧
    (asking asker devices d).statusCommandRunning = d.statusCommandRunning := by
  unfold asking
  split <;> exact ⟨rfl, rfl⟩

theorem Queues.asks_asking (h : Queues s) (devices : List Nat) (hnobody : ∀ x, ¬ Asked s asker x)
    {d : StatusConn} (hd : d ∈ s.connections) : Plain (asking asker devices d).conn ∧
      (asks (asking asker devices d).conn).Nodup ∧ ∀ a, a ∈ asks (asking asker devices d).conn ↔
        a ∈ asks d.conn ∨ (a = asker ∧ d.centraldId ∈ devices) := by
  unfold asking
  split
  next hmem =>
    obtain ⟨hplain, hperm⟩ := (h.plain d hd).queCommand (r := statusInfoRequest asker) rfl
    refine ⟨hplain, hperm.nodup_iff.2 (List.nodup_cons.2 ⟨?_, h.once d hd⟩), fun a => ?_⟩
    · exact fun ha => hnobody d.centraldId ⟨d, hd, rfl, ha⟩
    · refine hperm.mem_iff.trans (List.mem_cons.trans ?_)
      simp [hmem, or_comm]
  next hmem => exact ⟨h.plain d hd, h.once d hd, fun a => by simp [hmem]⟩

theorem Queues.asking (h : Queues s) (devices : List Nat) (hnobody : ∀ x, ¬ Asked s asker x)
    (hasker : ∃ c ∈ s.connections, c.centraldId = asker) (log : List Entry) :
    Queues { s with connections := s.connections.map (StatusInfo.asking asker devices), log := log } := by
  refine h.map _ log fun d hd => ?_
  obtain ⟨hplain, honce, hmem⟩ := h.asks_asking devices hnobody hd
  refine ⟨(asking_same d).1, hplain, honce, fun a ha => ?_⟩
  rcases (hmem a).1 ha with ha | ⟨rfl, -⟩
  · exact h.live d hd a ha
  · exact hasker

theorem Queues.asked_asking (h : Queues s) (hnobody : ∀ x, ¬ Asked s asker x)
    (hdevices : ∀ x ∈ devices, ∃ d ∈ s.connections, d.centraldId = x) (log : List Entry) (a x : Nat) :
    Asked { s with connections := s.connections.map (StatusInfo.asking asker devices), log := log } a x ↔
      Asked s a x ∨ (a = asker ∧ x ∈ devices) := by
  refine (asked_map _ log (fun d _ => (asking_same d).1) a x).trans ?_
  constructor
  · rintro ⟨d, hd, rfl, hmem⟩
    exact (((h.asks_asking devices hnobody hd).2.2 a).1 hmem).imp_left fun hmem => ⟨d, hd, rfl, hmem⟩
  · rintro (⟨d, hd, rfl, hmem⟩ | ⟨rfl, hx⟩)
    · exact ⟨d, hd, rfl, ((h.asks_asking devices hnobody hd).2.2 a).2 (.inl hmem)⟩
    · obtain ⟨d, hd, rfl⟩ := hdevices x hx
      exact ⟨d, hd, rfl, ((h.asks_asking devices hnobody hd).2.2 _).2 (.inr ⟨rfl, hx⟩)⟩

/-- The counter of a connection is none of the requests. -/
theorem asked_counted (t : Central) (id a x : Nat) :
    Asked (t.modify id fun c => { c with statusCommandRunning := c.statusCommandRunning + 1 }) a x ↔
      Asked t a x := by
  refine (asked_map _ _ (fun d _ => by split <;> rfl) a x).trans ?_
  refine exists_congr fun d => and_congr_right fun _ => and_congr_right fun _ => ?_
  split <;> exact Iff.rfl

end

/-- Devices are asked for a connection with no open request. -/
theorem Inv.statusInfo (h : Inv (fun _ => False) s) (blockDevice : String → String → Bool)
    {c : StatusConn} (hc : c ∈ s.connections) (hfree : waiting c.centraldId s.log = none) :
    Inv (fun _ => False) (s.statusInfo blockDevice c) := by
  have hidle : Idle c.centraldId c.statusCommandRunning (Asked s c.centraldId) s.log := by
    rcases h.served c hc with hidle | ⟨hgather, -⟩
    · exact hidle
    · obtain ⟨devices, hsome, -⟩ := hgather.waiting
      rw [hfree] at hsome
      cases hsome
  have hdevices : ∀ x ∈ s.toAsk blockDevice c, ∃ d ∈ s.connections, d.centraldId = x := by
    intro x hx
    obtain ⟨d, hd, rfl⟩ := List.mem_map.1 hx
    exact ⟨d, List.mem_of_mem_filter hd, rfl⟩
  unfold Central.statusInfo
  dsimp only
  generalize s.toAsk blockDevice c = devices at *
  have hask : (fun d : StatusConn => if d.centraldId ∈ devices then
      d.onConn (·.queCommand (statusInfoRequest c.centraldId)) else d) =
    asking c.centraldId devices := rfl
  rw [hask]
  have hasked := h.queues.asked_asking hidle.nobody hdevices
  have hqueues := h.queues.asking devices hidle.nobody ⟨c, hc, rfl⟩
  have hgather : Gathering c.centraldId (c.statusCommandRunning + 1) (· ∈ devices)
      (s.log ++ [.asked c.centraldId devices]) := hidle.ask devices
  have hsameAsked : ∀ log a, a ≠ c.centraldId → ∀ x,
      Asked { s with connections := s.connections.map (asking c.centraldId devices), log := log } a x ↔
        Asked s a x :=
    fun log a ha x => (hasked log a x).trans (or_iff_left fun hx => ha hx.1)
  have hothers : ∀ d ∈ s.connections, d.centraldId ≠ c.centraldId →
      InTime False d.centraldId d.statusCommandRunning (Asked s d.centraldId)
        (s.log ++ [.asked c.centraldId devices]) :=
    fun d hd hne => InTime.foreign (h.served d hd) (Ne.symm hne)
  have hnumbered := h.queues.numbered c hc
  have hunborn := unborn_concat (e := .asked c.centraldId devices) h.unborn fun id hid => .inl
    (show c.centraldId ≠ id by omega)
  have hlog := h.log.concat (e := .asked c.centraldId devices) fun _ _ heq => by cases heq
  split
  next hnil =>
    subst hnil
    obtain ⟨hwaiting, hclosed⟩ := hgather.close (fun x hx => by cases hx) .atOnce
    rw [Int.add_sub_cancel] at hclosed
    refine ⟨hqueues _, List.forall_mem_map.2 fun d hd => ?_, ?_, ?_⟩
    · obtain ⟨hid, hrunning⟩ := @asking_same c.centraldId [] d
      rw [hid, hrunning]
      by_cases hdc : d.centraldId = c.centraldId
      · obtain rfl := h.queues.eq_of_id hd hc hdc
        exact .inl ⟨hclosed.running, hclosed.waiting, hclosed.replies, fun x hx => by
          rcases (hasked _ _ x).1 hx with hx | ⟨-, hx⟩
          · exact hidle.nobody x hx
          · cases hx⟩
      · have hforeign : Foreign d.centraldId (.final c.centraldId .atOnce) := Ne.symm hdc
        exact ((hothers d hd hdc).foreign hforeign).congr id (hsameAsked _ _ hdc)
    · exact unborn_concat hunborn fun id hid => .inl (show c.centraldId ≠ id by
        have hlt : s.connNum < id := hid
        omega)
    · refine hlog.concat fun asker cause heq => ?_
      cases heq
      exact ⟨hwaiting, fun device hcause => by cases hcause⟩
  next hne =>
    obtain ⟨device, hdevice⟩ := List.exists_mem_of_ne_nil devices hne
    refine ⟨(hqueues _).map _ _ fun d hd => ?_, ?_, hunborn, hlog⟩
    · split <;>
        exact ⟨rfl, (hqueues s.log).plain d hd, (hqueues s.log).once d hd, (hqueues s.log).live d hd⟩
    · refine List.forall_mem_map.2 (List.forall_mem_map.2 fun d hd => ?_)
      obtain ⟨hid, hrunning⟩ := @asking_same c.centraldId devices d
      rw [hid]
      split
      next hdc =>
        obtain rfl := h.queues.eq_of_id hd hc hdc
        have hmine : ∀ x, Asked (({ s with
              connections := s.connections.map (asking d.centraldId devices) }.record
            (.asked d.centraldId devices)).modify d.centraldId fun c =>
              { c with statusCommandRunning := c.statusCommandRunning + 1 }) d.centraldId x ↔
            x ∈ devices := by
          intro x
          refine (asked_counted _ _ _ x).trans ((hasked _ _ x).trans ?_)
          exact ⟨fun hx => hx.elim (fun hx => absurd hx (hidle.nobody x)) (·.2),
            fun hx => .inr ⟨rfl, hx⟩⟩
        dsimp only
        rw [hid, hrunning]
        exact .inr ⟨hgather.congr hmine, .inr ⟨device, (hmine device).2 hdevice⟩⟩
      next hdc =>
        rw [hid, hrunning]
        exact (hothers d hd hdc).congr id fun x =>
          (asked_counted _ _ _ x).trans (hsameAsked _ _ hdc x)

/-- A socket is accepted. -/
theorem Inv.accept (h : Inv (fun _ => False) s) :
    Inv (fun _ => False) { s with
      connNum := s.connNum + 1
      connections := s.connections ++ [.new (s.connNum + 1)] } := by
  have hasks : asks (StatusConn.new (s.connNum + 1)).conn = [] := rfl
  have hasked : ∀ a x, Asked { s with
      connNum := s.connNum + 1
      connections := s.connections ++ [.new (s.connNum + 1)] } a x ↔ Asked s a x := by
    intro a x
    constructor
    · rintro ⟨d, hd, hid, hmem⟩
      rcases List.mem_append.1 hd with hd | hd
      · exact ⟨d, hd, hid, hmem⟩
      · rw [List.mem_singleton.1 hd, hasks] at hmem
        cases hmem
    · rintro ⟨d, hd, hid, hmem⟩
      exact ⟨d, List.mem_append_left _ hd, hid, hmem⟩
  refine ⟨⟨?_, ?_, ?_, ?_, ?_⟩, ?_, fun id hid => h.unborn id (by dsimp only at hid; omega), h.log⟩
  · rw [List.map_append]
    refine List.nodup_append'.2 ⟨h.queues.ids, List.nodup_singleton _, ?_⟩
    intro x hx hx'
    obtain ⟨d, hd, rfl⟩ := List.mem_map.1 hx
    have hnew : d.centraldId = s.connNum + 1 := by simpa [StatusConn.new] using hx'
    have := h.queues.numbered d hd
    omega
  · refine List.forall_mem_append.2 ⟨fun d hd => ?_, List.forall_mem_singleton.2 le_rfl⟩
    exact le_trans (h.queues.numbered d hd) (Nat.le_succ _)
  · exact List.forall_mem_append.2 ⟨h.queues.plain, List.forall_mem_singleton.2 (.start _)⟩
  · exact List.forall_mem_append.2
      ⟨h.queues.once, List.forall_mem_singleton.2 (by rw [hasks]; exact List.nodup_nil)⟩
  · refine List.forall_mem_append.2 ⟨fun d hd a ha => ?_, List.forall_mem_singleton.2 ?_⟩
    · obtain ⟨d', hd', hid⟩ := h.queues.live d hd a ha
      exact ⟨d', List.mem_append_left _ hd', hid⟩
    · rw [hasks]
      exact fun a ha => by cases ha
  · refine List.forall_mem_append.2 ⟨fun d hd => ?_, List.forall_mem_singleton.2 ?_⟩
    · rcases h.served d hd with hidle | ⟨hgather, hwaits⟩
      · exact .inl (hidle.congr (hasked _))
      · exact .inr ⟨hgather.congr (hasked _), hwaits.imp_right fun ⟨x, hx⟩ => ⟨x, (hasked _ x).2 hx⟩⟩
    · obtain ⟨hwaiting, hreplies⟩ := h.unborn (s.connNum + 1) (Nat.lt_succ_self _)
      refine .inl ⟨rfl, hwaiting, hreplies, fun x hx => ?_⟩
      obtain ⟨d, hd, -, hmem⟩ := (hasked _ x).1 hx
      obtain ⟨d', hd', hid⟩ := h.queues.live d hd _ hmem
      have := h.queues.numbered d' hd'
      have hnew : (StatusConn.new (s.connNum + 1)).centraldId = s.connNum + 1 := rfl
      omega

/-- Each connection has at most one request open. -/
def OneOutstanding (s : Central) : Event → Prop
  | .connection id .statusInfo => waiting id s.log = none
  | _ => True

theorem Inv.step (h : Inv (fun _ => False) s) (blockDevice : String → String → Bool) (e : Event)
    (hone : OneOutstanding s e) : Inv (fun _ => False) (s.step blockDevice e) := by
  cases e with
  | accept => exact h.accept
  | connection id event =>
    unfold Central.step
    dsimp only
    split
    · exact h
    rename_i c hfind
    obtain ⟨hc, rfl⟩ := find_eq_some hfind
    have hplain := h.queues.plain c hc
    cases event with
    | login name =>
      unfold Central.connEvent
      dsimp only
      split
      · exact h.modify hc _ rfl rfl hplain (List.Perm.refl _)
      · exact h
    | register regDevice =>
      unfold Central.connEvent
      dsimp only
      split
      · exact h.modify hc _ rfl rfl hplain (List.Perm.refl _)
      · exact h
    | statusInfo => exact h.statusInfo blockDevice hc hone
    | reply stat => exact h.commandReturn hc stat
    | queOther text => exact h.queOther c.centraldId text
    | connectionError =>
      exact h.modify hc _ rfl rfl ⟨hplain.masks, hplain.sent⟩ (List.Perm.refl _)
    | removed commands => exact h.removeConnection c commands

end

/-! ## Runs -/

theorem Inv.start : Inv (fun _ => False) Central.start where
  queues := ⟨List.nodup_nil, by simp [Central.start], by simp [Central.start],
    by simp [Central.start], by simp [Central.start]⟩
  served := by simp [Central.start]
  unborn := fun _ _ => ⟨rfl, rfl⟩
  log := .nil

/-- A connection has had a reply to each of its requests; or to all but one, which
waits for devices that still have the command pending. -/
def Served (s : Central) (asker : Nat) : Prop :=
  (waiting asker s.log = none ∧ replies asker s.log = requests asker s.log) ∨
    ∃ device devices, waiting asker s.log = some (device :: devices) ∧
      replies asker s.log + 1 = requests asker s.log ∧ ∀ x ∈ device :: devices, Asked s asker x

/-- **Every request is answered once**, after every device asked for it has
answered or is gone, and by no answer to another request. -/
theorem status_info_served (blockDevice : String → String → Bool) (events : List Event)
    (h : Along (Central.step blockDevice) OneOutstanding .start events) :
    LogRight (run (Central.step blockDevice) .start events).log ∧
      ∀ c ∈ (run (Central.step blockDevice) .start events).connections,
        Served (run (Central.step blockDevice) .start events) c.centraldId := by
  have hinv := h.invariant Inv.start fun s e hs hone => hs.step blockDevice e hone
  refine ⟨hinv.log, fun c hc => ?_⟩
  rcases hinv.served c hc with hidle | ⟨hgather, hwaits⟩
  · exact .inl ⟨hidle.waiting, hidle.replies⟩
  · obtain ⟨devices, hwaiting, hmem⟩ := hgather.waiting
    obtain ⟨x, hx⟩ := hwaits.resolve_left id
    cases devices with
    | nil => exact absurd ((hmem x).2 hx) List.not_mem_nil
    | cons device devices =>
      exact .inr ⟨device, devices, hwaiting, hgather.replies, fun x hx => (hmem x).1 hx⟩

instance (s : Central) (e : Event) : Decidable (OneOutstanding s e) := by
  unfold OneOutstanding
  split <;> infer_instance

/-- Two devices and a client; the client asks, one device answers and the other goes. -/
def clientAsks : List Event :=
  [.accept, .accept, .accept, .connection 1 (.register "dome"), .connection 2 (.register "mount"),
    .connection 3 (.login "xmonitor"), .connection 3 .statusInfo, .connection 1 (.reply 0),
    .connection 2 .connectionError, .connection 2 (.removed [])]

theorem status_info_served_client :
    LogRight (run (Central.step fun _ _ => true) .start clientAsks).log ∧
      ∀ c ∈ (run (Central.step fun _ _ => true) .start clientAsks).connections,
        Served (run (Central.step fun _ _ => true) .start clientAsks) c.centraldId :=
  status_info_served _ clientAsks (by decide)

/-- The client has its reply when the second device is gone. -/
example : (run (Central.step fun _ _ => true) .start clientAsks).log =
    [.asked 3 [1, 2], .answered 1 3, .gone 2, .final 3 .removal] := by decide

end Rts2.Centrald.StatusInfo

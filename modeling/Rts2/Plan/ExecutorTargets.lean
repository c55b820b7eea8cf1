import Rts2.Plan.Executor
import Rts2.Plan.QueueLife

/-! # The current target of the executor

In every run of the executor the current target has not been deleted, and no
target is deleted twice, as long as no check on the places that delete unasked
fails. -/
namespace Rts2.Plan
open Rts2.Lib

variable {held : List (Nat × Bool)} {t : Target} {P : Executor → Prop}

/-- The targets of the queue and those held are alive and different, and the
current target is alive. -/
def Good (held : List (Nat × Bool)) (s : Executor) : Prop :=
  s.pool.Checked → Live s.pool held ((targets s.queue.entries).map Target.addr)

theorem good_iff {s : Executor} : Good held s ↔ ∃ c, Kept c held s.toQueState := by
  constructor
  · exact fun h => ⟨s.pool.currentTarget, fun hc => ⟨h hc, rfl⟩⟩
  · intro h hc
    obtain ⟨c, hk⟩ := h
    exact (hk hc).1

theorem Good.forget {x : Nat × Bool} {s : Executor} (h : Good (x :: held) s) : Good held s :=
  fun hc => (h hc).forget

namespace Exec

/-! ## Operations of the queue -/

/-- What an operation of the queue needs and leaves, whatever the current target
is, it needs and leaves in the executor. -/
theorem onQueue_triple {α : Type} {x : Que α} {held' : α → List (Nat × Bool)}
    {held'' : List (Nat × Bool)}
    (h : ∀ c, Triple (Kept c held) x (fun a => Kept c (held' a)) (Kept c held'')) :
    Triple (Good held) (onQueue x) (fun a => Good (held' a)) (Good held'') := by
  have hex : Triple (fun s => ∃ c, Kept c held s) x (fun a s => ∃ c, Kept c (held' a) s)
      (fun s => ∃ c, Kept c held'' s) :=
    triple_exists fun c => (h c).mono (fun _ hs => hs) (fun _ s hs => ⟨c, hs⟩) fun s hs => ⟨c, hs⟩
  have hzoom : Triple _ (onQueue x) _ _ :=
    triple_zoom (fun _ _ => rfl) hex
  exact hzoom.mono (fun s hs => good_iff.mp hs) (fun _ s hs => good_iff.mpr hs)
    fun s hs => good_iff.mpr hs

theorem onQueue_keeps {α : Type} {x : Que α} (h : ∀ c, Keeps (Kept c held) x) :
    Keeps (Good held) (onQueue x) :=
  onQueue_triple h

theorem ask_keeps {α : Type} (question : Nat → α) : Keeps (Good held) (ask question) :=
  onQueue_keeps fun _ => ask_triple question Kept.calm

/-- Asking leaves the rest of the executor alone. -/
theorem ask_triple {α : Type} (question : Nat → α) (l : List QueuedTarget) {E : Executor → Prop} :
    Triple (fun s => Good held s ∧ s.queue.entries = l) (ask question)
      (fun _ s => Good held s ∧ s.queue.entries = l) E := by
  intro s hs
  refine ⟨fun hc => ?_, hs.2⟩
  exact (hs.1 hc).asked _

/-- What does not touch the queue and the pool. -/
theorem modify_keeps (f : Executor → Executor) (hf : ∀ s, (f s).toQueState = s.toQueState) :
    Keeps (Good held) (modify f : Exec Unit) := by
  refine keeps_modify f fun s hs => ?_
  show (f s).pool.Checked → Live (f s).pool held ((targets (f s).queue.entries).map Target.addr)
  rw [hf s]
  exact hs

section Functions
variable (w : ExecWorld) {post : Exec Unit}

theorem createTarget_triple (tarId : Int) :
    Triple (Good held) (createTarget w tarId) (fun nt => Good ((nt.addr, true) :: held))
      (Good held) :=
  onQueue_triple fun _ => createTarget_kept w.toWorld tarId

/-- Only its holder knows the target. -/
theorem delete_triple {E : Executor → Prop} :
    Triple (Good ((t.addr, true) :: held)) (delete t) (fun _ => Good held) E := by
  intro s hs hc
  exact (hs ((Pool.delete_checked ..).mp hc)).deleteHeld

theorem setNull_keeps : Keeps (Good held) (setCurrent none) :=
  fun _ hs hc => (hs hc).setNull

theorem setEntry_triple {l : List QueuedTarget} {E : Executor → Prop} (ht : t ∈ targets l) :
    Triple (fun s => Good held s ∧ s.queue.entries = l) (setCurrent (some t))
      (fun _ => Good held) E := by
  intro s hs hc
  obtain ⟨hg, rfl⟩ := hs
  exact (hg hc).setEntry (List.mem_map_of_mem ht)

theorem setHeld_triple {E : Executor → Prop} :
    Triple (Good ((t.addr, true) :: held)) (setCurrent (some t))
      (fun _ => Good ((t.addr, false) :: held)) E :=
  fun _ hs hc => (hs hc).setHeld

theorem Good.reveal {s : Executor} (h : Good ((t.addr, true) :: held) s) :
    Good ((t.addr, false) :: held) s :=
  fun hc => (h hc).reveal

/-! ## Functions of the executor -/

/-- The queue has been told the current target. -/
def Told (held : List (Nat × Bool)) (s : Executor) : Prop :=
  ∃ c, Queued c held [] s.toQueState

theorem Told.good {s : Executor} (h : Told held s) : Good held s := by
  obtain ⟨c, hq⟩ := h
  exact good_iff.mpr ⟨c, hq.kept⟩

theorem tell_triple (r : Executor) {E : Executor → Prop} :
    Triple (fun s => r = s ∧ Good held s) (onQueue (Que.setCurrentTarget r.pool.currentTarget))
      (fun _ => Told held) E := by
  intro s hs
  obtain ⟨rfl, hg⟩ := hs
  exact ⟨r.pool.currentTarget, fun hc => ⟨hg hc, rfl, fun _ _ h => h⟩⟩

theorem orderly_triple {α : Type} {x : Que α} (h : ∀ c, Orderly c held x) :
    Triple (Told held) (onQueue x) (fun _ => Told held) (Good held) := by
  have hex : Triple (fun s => ∃ c, Queued c held [] s) x (fun _ s => ∃ c, Queued c held [] s)
      (fun s => ∃ c, Kept c held s) :=
    triple_exists fun c => (h c).mono (fun _ hs => hs) (fun _ s hs => ⟨c, hs⟩) fun s hs => ⟨c, hs⟩
  have hzoom : Triple _ (onQueue x) _ _ :=
    triple_zoom (fun _ _ => rfl) hex
  exact hzoom.mono (fun s hs => hs) (fun _ s hs => hs) fun s hs => good_iff.mpr hs

theorem clearNextTargets_keeps : Keeps (Good held) (clearNextTargets w) := by
  refine triple_bind (R := fun r s => r = s ∧ Good held s) (triple_get fun s hs => ⟨rfl, hs⟩)
    fun r => ?_
  refine triple_bind (tell_triple r) fun _ => ?_
  refine triple_bind (orderly_triple fun _ => clearNext_triple w.toWorld) fun _ => ?_
  exact (modify_keeps _ fun s => rfl).pre fun s hs => hs.good

theorem endObservation_keeps (ct : Target) (nextId : Int) :
    Keeps (Good held) (endObservation w ct nextId) := by
  refine triple_bind (ask_keeps _) fun answer => ?_
  cases answer with
  | none => exact keeps_throw _
  | some ret => exact keeps_pure _

theorem processTarget_keeps (ct : Target) : Keeps (Good held) (processTarget ct) := by
  have hqueue : Keeps (Good held)
      (modify fun s => { s with targetsQue := s.targetsQue ++ [ct] } : Exec Unit) :=
    modify_keeps _ fun s => rfl
  exact triple_ite (fun _ => triple_bind (modify_keeps _ fun s => rfl) fun _ => hqueue)
    fun _ => hqueue

theorem endCurrent_keeps : Keeps (Good held) (endCurrent w) := by
  refine triple_bind triple_read fun s => ?_
  cases s.pool.currentTarget with
  | none => exact keeps_pure _
  | some ct =>
    refine triple_bind (triple_bind (endObservation_keeps w ct (-1)) fun _ => keeps_pure _)
      fun _ => processTarget_keeps ct

theorem endAll_keeps : Keeps (Good held) (endAll w) :=
  triple_bind (endCurrent_keeps w) fun _ => triple_bind setNull_keeps fun _ =>
    clearNextTargets_keeps w

theorem addFront_triple' (nt : Target) (b : Bool) :
    Triple (Good ((nt.addr, b) :: held)) (onQueue (Que.addFront w.toWorld nt none none))
      (fun _ => Good held) (Good held) :=
  onQueue_triple fun _ => (addFront_triple w.toWorld nt none none b).mono (fun _ hs => hs)
    (fun _ _ hs => hs) fun _ hs => hs.1

theorem requeueContinues_keeps : Keeps (Good held) (requeueContinues w) := by
  refine triple_bind triple_read fun s => ?_
  cases s.pool.currentTarget with
  | none => exact keeps_pure _
  | some ct =>
    refine triple_bind (ask_keeps _) fun continues => triple_bind triple_read fun s => ?_
    refine triple_ite (fun _ => ?_) fun _ => keeps_pure _
    refine triple_bind (createTarget_triple w ct.tarId) fun nt => ?_
    exact triple_bind (addFront_triple' w nt true) fun _ => keeps_pure _

theorem dropStarted_keeps : Keeps (Good held) (dropStarted w) := by
  refine triple_bind triple_read fun s => ?_
  cases s.pool.currentTarget with
  | none => exact keeps_pure _
  | some ct =>
    refine triple_bind (ask_keeps _) fun sky => triple_bind triple_read fun s => ?_
    refine triple_ite (fun _ => ?_) fun _ => keeps_pure _
    exact triple_bind setNull_keeps fun _ => modify_keeps _ fun s => rfl

/-- **The switch** makes the front target of the queue the current one. -/
theorem doSwitch_keeps (hpost : ∀ held, Keeps (Good held) post) :
    Keeps (Good held) (doSwitch w post) := by
  have hlast : Keeps (Good held) (do if (← get).pool.currentTarget.isSome then post) :=
    triple_bind triple_read fun s => triple_ite (fun _ => hpost held) fun _ => keeps_pure _
  refine triple_bind (R := fun r s => r = s ∧ Good held s) (triple_get fun s hs => ⟨rfl, hs⟩)
    fun r => ?_
  refine triple_bind (tell_triple r) fun _ => ?_
  refine triple_bind (R := fun _ => Told held) (fun s hs => ?_) fun now => ?_
  · obtain ⟨c, hq⟩ := hs
    exact ⟨c, Queued.calm _ _ hq⟩
  refine triple_bind (orderly_triple fun c => beforeChange_triple w.toWorld now) fun _ => ?_
  refine triple_bind ((requeueContinues_keeps w).pre fun s hs => hs.good) fun _ => ?_
  refine triple_bind (dropStarted_keeps w) fun _ => ?_
  refine triple_bind (modify_keeps _ fun s => rfl) fun _ => ?_
  refine triple_bind (R := fun r s => Good held s ∧ s.queue.entries = r.queue.entries)
    (triple_get fun s hs => ⟨hs, rfl⟩) fun r => ?_
  cases hr : r.queue.entries with
  | nil => exact hlast.pre fun s hs => hs.1
  | cons front rest =>
    have hplan : Keeps (Good held) (do
        modify fun s => { s with currentPlanId := front.planId }
        if (← get).pool.currentTarget.isSome then post) :=
      triple_bind (modify_keeps _ fun s => rfl) fun _ => hlast
    have hfront : Triple (fun s => Good held s ∧ s.queue.entries = front :: rest)
        (setCurrent (some front.target)) (fun _ => Good held) (Good held) :=
      setEntry_triple (List.mem_cons_self ..)
    cases r.pool.currentTarget with
    | none => exact triple_bind hfront fun _ => hplan
    | some ct =>
      have hend : Triple (fun s => Good held s ∧ s.queue.entries = front :: rest)
          (endObservation w ct front.target.tarId)
          (fun _ s => Good held s ∧ s.queue.entries = front :: rest) (Good held) := by
        refine triple_bind (ask_triple _ _) fun answer => ?_
        cases answer with
        | none => exact triple_throw _ fun s hs => hs.1
        | some ret => exact triple_pure _ fun s hs => hs
      have hprocess : Triple (fun s => Good held s ∧ s.queue.entries = front :: rest)
          (processTarget ct)
          (fun _ s => Good held s ∧ s.queue.entries = front :: rest) (Good held) := by
        have hqueue : Triple (fun s => Good held s ∧ s.queue.entries = front :: rest)
            (modify fun s => { s with targetsQue := s.targetsQue ++ [ct] } : Exec Unit)
            (fun _ s => Good held s ∧ s.queue.entries = front :: rest) (Good held) :=
          triple_modify _ fun s hs => hs
        exact triple_ite (fun _ => triple_bind (triple_modify _ fun s hs => hs) fun _ => hqueue)
          fun _ => hqueue
      refine triple_bind hend fun ret => ?_
      refine triple_ite (fun _ => hplan.pre fun s hs => hs.1) fun _ => ?_
      exact triple_bind hprocess fun _ => triple_bind hfront fun _ => hplan

theorem switchTarget_keeps (hpost : ∀ held, Keeps (Good held) post) :
    Keeps (Good held) (switchTarget w post) := by
  have hend (n : Int) : Keeps (Good held) (do
      endAll w
      return n) :=
    triple_bind (endAll_keeps w) fun _ => keeps_pure _
  refine triple_bind triple_read fun s => triple_ite (fun _ => ?_) fun _ => ?_
  · exact triple_bind (clearNextTargets_keeps w) fun _ => keeps_pure _
  refine triple_ite (fun _ => ?_) fun _ => triple_ite (fun _ => ?_) fun _ => hend _
  · refine triple_bind (modify_keeps _ fun s => rfl) fun _ => ?_
    exact triple_ite (fun _ => triple_bind (hpost held) fun _ => hend 0) fun _ => hend 0
  · exact triple_bind (doSwitch_keeps w hpost) fun _ => keeps_pure _

theorem stop_keeps (hpost : ∀ held, Keeps (Good held) post) :
    Keeps (Good held) (stop w post) := by
  refine triple_bind (modify_keeps _ fun s => rfl) fun _ => ?_
  refine triple_bind (clearNextTargets_keeps w) fun _ => ?_
  refine triple_bind (hpost held) fun _ => triple_bind (hpost held) fun _ => ?_
  refine triple_bind (ask_keeps _) fun count => triple_ite (fun _ => ?_) fun _ => keeps_pure _
  exact triple_bind (switchTarget_keeps w hpost) fun _ => keeps_pure _

/-- **A target taken over** is no secret of its creator any more. -/
theorem setNowTarget_triple (hpost : ∀ held, Keeps (Good held) post) (nt : Target)
    (planId : Int) :
    Triple (Good ((nt.addr, true) :: held)) (setNowTarget w post nt planId)
      (fun _ => Good ((nt.addr, false) :: held)) (Good ((nt.addr, false) :: held)) := by
  have hend : Triple (Good ((nt.addr, true) :: held)) (endCurrent w)
      (fun _ => Good ((nt.addr, true) :: held)) (Good ((nt.addr, false) :: held)) :=
    (endCurrent_keeps w).mono (fun _ hs => hs) (fun _ _ hs => hs) fun _ hs => Good.reveal hs
  refine triple_bind hend fun _ => triple_bind setHeld_triple fun _ => ?_
  refine triple_bind (modify_keeps _ fun s => rfl) fun _ => ?_
  refine triple_bind (clearNextTargets_keeps w) fun _ => ?_
  exact triple_bind (hpost _) fun _ => keeps_pure _

theorem catchError_keeps {α : Type} {x handler : Exec α} {P' : Executor → Prop}
    {Q : α → Executor → Prop} {E E' : Executor → Prop} (hx : Triple P' x Q E)
    (hh : Triple E handler Q E') (hE : ∀ s, E s → E' s) :
    Triple P' (catchError x handler) Q E' := by
  refine triple_tryCatch hx fun e => ?_
  cases e with
  | error => exact hh
  | emptyFront => exact triple_throw _ hE

theorem addTarget_triple' (nt : Target) (tStart tEnd : Option Int) (planId : Int) (b : Bool) :
    Triple (Good ((nt.addr, b) :: held))
      (onQueue (Que.addTarget w.toWorld nt tStart tEnd (-1) planId none (-1) false))
      (fun _ => Good held) (Good held) :=
  onQueue_triple fun _ => (addTarget_triple w.toWorld nt tStart tEnd _ _ _ _ _ b).mono
    (fun _ hs => hs) (fun _ _ hs => hs) fun _ hs => hs.1

theorem queueCreated_triple (hpost : ∀ held, Keeps (Good held) post) (nt : Target)
    (tStart tEnd : Option Int) (planId : Int) :
    Triple (Good ((nt.addr, true) :: held)) (queueCreated w post nt tStart tEnd planId)
      (fun _ => Good held) (Good held) := by
  have hnow : Triple (Good ((nt.addr, true) :: held)) (setNowTarget w post nt planId)
      (fun _ => Good ((nt.addr, false) :: held)) (Good held) :=
    (setNowTarget_triple w hpost nt planId).mono (fun _ hs => hs) (fun _ _ hs => hs)
      fun _ hs => hs.forget
  have hreturn : Triple (Good ((nt.addr, true) :: held)) (setNowTarget w post nt planId)
      (fun _ => Good held) (Good held) :=
    hnow.post fun _ _ hs => hs.forget
  have hrest (b : Bool) : Triple (Good ((nt.addr, b) :: held)) (do
      discard (onQueue (Que.addTarget w.toWorld nt tStart tEnd (-1) planId none (-1) false))
      if (← get).pool.currentTarget.isNone then
        return if (← switchTarget w post) = 0 then 0 else -2
      return (0 : Int)) (fun _ => Good held) (Good held) := by
    refine triple_bind (triple_bind (addTarget_triple' w nt tStart tEnd planId b) fun _ =>
      keeps_pure _) fun _ => ?_
    refine triple_bind triple_read fun s => triple_ite (fun _ => ?_) fun _ => keeps_pure _
    exact triple_bind (switchTarget_keeps w hpost) fun _ => keeps_pure _
  refine triple_bind triple_read fun s => triple_ite (fun _ => ?_) fun _ => ?_
  · have hdelete : Triple (Good ((nt.addr, true) :: held)) (do
        delete nt
        return (0 : Int)) (fun _ => Good held) (Good held) :=
      triple_bind delete_triple fun _ => keeps_pure _
    refine triple_ite (fun _ => ?_) fun _ => hdelete
    exact triple_bind ((stop_keeps w hpost).mono (fun _ hs => hs) (fun _ _ hs => hs)
      fun _ hs => hs.forget) fun _ => hdelete
  refine triple_ite (fun _ => hreturn) fun _ => triple_ite (fun _ => hreturn) fun _ => ?_
  refine triple_ite (fun _ => ?_) fun _ => hrest true
  refine triple_bind (triple_discard hnow) fun _ => ?_
  refine triple_bind (R := fun _ => Good ((nt.addr, false) :: held)) (triple_modify _ ?_)
    fun _ => hrest false
  exact fun _ hs => hs

theorem queueTarget_keeps (hpost : ∀ held, Keeps (Good held) post) (tarId : Int)
    (tStart tEnd : Option Int) (planId : Int) :
    Keeps (Good held) (queueTarget w post tarId tStart tEnd planId) := by
  refine catchError_keeps ?_ (keeps_pure _) fun _ hs => hs
  exact triple_bind (createTarget_triple w tarId) fun nt =>
    queueCreated_triple w hpost nt tStart tEnd planId

theorem setNext_keeps (hpost : ∀ held, Keeps (Good held) post) (nextId : Int) :
    Keeps (Good held) (setNext w post nextId) := by
  have hqueue : Keeps (Good held) (queueTarget w post nextId none none (-1)) :=
    queueTarget_keeps w hpost nextId none none (-1)
  refine triple_bind triple_read fun s => triple_ite (fun _ => keeps_pure _) fun _ => ?_
  exact triple_ite (fun _ => triple_bind (clearNextTargets_keeps w) fun _ => hqueue)
    fun _ => hqueue

theorem setNextPlan_keeps (hpost : ∀ held, Keeps (Good held) post) (nextPlanId : Int) :
    Keeps (Good held) (setNextPlan w post nextPlanId) := by
  refine triple_bind triple_read fun s => triple_ite (fun _ => keeps_pure _) fun _ => ?_
  refine triple_ite (fun _ => triple_bind (clearNextTargets_keeps w) fun _ => ?_) fun _ => ?_
  all_goals
    refine triple_bind (ask_keeps _) fun answer => ?_
    cases answer with
    | none => exact keeps_throw _
    | some tarId =>
      refine triple_bind (createTarget_triple w tarId) fun planTarget => ?_
      refine triple_bind ((queueTarget_keeps w hpost _ _ _ _).mono (fun _ hs => hs)
        (fun _ _ hs => hs) fun _ hs => hs.forget) fun ret => ?_
      exact triple_bind delete_triple fun _ => keeps_pure _

theorem setNow_keeps (hpost : ∀ held, Keeps (Good held) post) (nextId planId : Int) :
    Keeps (Good held) (setNow w post nextId planId) := by
  refine triple_bind triple_read fun s => triple_ite (fun _ => setNext_keeps w hpost nextId)
    fun _ => catchError_keeps ?_ (keeps_pure _) fun _ hs => hs
  refine triple_bind (createTarget_triple w nextId) fun nt => ?_
  exact (setNowTarget_triple w hpost nt planId).mono (fun _ hs => hs) (fun _ _ hs => hs.forget)
    fun _ hs => hs.forget

/-- A target its creator may still delete, unless somebody has taken it. -/
def Droppable (held : List (Nat × Bool)) (t : Target) (s : Executor) : Prop :=
  Good held s ∧ (¬ PointsTo s.pool.currentTarget t →
    t.addr ∉ s.queue.entries.map (·.target.addr) → Good ((t.addr, true) :: held) s)

theorem Good.droppable {b : Bool} {s : Executor} (h : Good ((t.addr, b) :: held) s) :
    Droppable held t s :=
  ⟨h.forget, fun hc _ hch => (h hch).hide hc⟩

theorem dropNew_triple : Triple (Droppable held t) (dropNew t) (fun _ => Good held)
    (Good held) := by
  refine triple_bind (R := fun r s => r = s ∧ Droppable held t s)
    (triple_get fun s hs => ⟨rfl, hs⟩) fun r => ?_
  refine triple_bind (R := fun _ => Good ((t.addr, true) :: held)) (fun s hs hc => ?_)
    fun _ => delete_triple
  obtain ⟨rfl, -, hfree⟩ := hs
  have htaken := hc _ (List.mem_cons_self ..)
  have hnot := not_or.mp (of_decide_eq_false htaken)
  have hlive := hfree hnot.1 hnot.2 fun x hx => hc x (List.mem_cons_of_mem _ hx)
  exact hlive.check _

/-- Where adding the target throws, it is in the queue or its creator's. -/
theorem offerTarget_triple :
    Triple (Good ((t.addr, true) :: held))
      (onQueue (Que.addTarget w.toWorld t none none (-1) (-1) none (-1) false))
      (fun _ => Good held) (Droppable held t) := by
  have hex : Triple (fun s => ∃ c, Kept c ((t.addr, true) :: held) s)
      (Que.addTarget w.toWorld t none none (-1) (-1) none (-1) false)
      (fun _ s => ∃ c, Kept c held s) (fun s => ∃ c, Offered c held t true s) :=
    triple_exists fun c => (addTarget_triple w.toWorld t none none _ _ _ _ _ true).mono
      (fun _ hs => hs) (fun _ s hs => ⟨c, hs⟩) fun s hs => ⟨c, hs⟩
  have hzoom : Triple _ (onQueue (Que.addTarget w.toWorld t none none (-1) (-1) none (-1) false))
      _ _ := triple_zoom (fun _ _ => rfl) hex
  refine hzoom.mono (fun s hs => good_iff.mp hs) (fun _ s hs => good_iff.mpr hs) fun s hs => ?_
  obtain ⟨c, hkept, hfree⟩ := hs
  refine ⟨good_iff.mpr ⟨c, hkept⟩, fun hcur hmem hc => ?_⟩
  have hnot : t ∉ targets s.queue.entries := by
    intro hm
    obtain ⟨e, he, rfl⟩ := List.mem_map.mp hm
    exact hmem (List.mem_map_of_mem he)
  exact (hfree hnot hc).1.hide hcur

theorem grbCreated_triple (hpost : ∀ held, Keeps (Good held) post) :
    Triple (Good ((t.addr, true) :: held)) (grbCreated w post t) (fun _ => Good held)
      (Droppable held t) := by
  have hask {α : Type} (question : Nat → α) : Triple (Good ((t.addr, true) :: held))
      (ask question) (fun _ => Good ((t.addr, true) :: held)) (Droppable held t) :=
    (ask_keeps question).mono (fun _ hs => hs) (fun _ _ hs => hs) fun _ hs => Good.droppable hs
  have hdelete (n : Int) : Triple (Good ((t.addr, true) :: held)) (do
      delete t
      return n) (fun _ => Good held) (Droppable held t) :=
    triple_bind delete_triple fun _ => triple_pure _ fun _ hs => hs
  have hnow : Triple (Good ((t.addr, true) :: held)) (setNowTarget w post t (-1))
      (fun _ => Good held) (Droppable held t) :=
    (setNowTarget_triple w hpost t (-1)).mono (fun _ hs => hs) (fun _ _ hs => hs.forget)
      fun _ hs => Good.droppable hs
  refine triple_bind (hask _) fun ok => triple_ite (fun _ => hdelete _) fun _ => ?_
  refine triple_bind (hask _) fun ok => triple_ite (fun _ => hdelete _) fun _ => ?_
  refine triple_bind (hask _) fun ok => triple_ite (fun _ => hdelete _) fun _ => ?_
  refine triple_bind triple_read fun s => ?_
  cases s.pool.currentTarget with
  | none => exact hnow
  | some ct =>
    refine triple_bind (hask _) fun same => triple_ite (fun _ => hdelete _) fun _ => ?_
    refine triple_bind (hask _) fun far => triple_ite (fun _ => hnow) fun _ => ?_
    refine triple_bind (hask _) fun near => triple_ite (fun _ => hdelete _) fun _ => ?_
    refine triple_bind ((clearNextTargets_keeps w).mono (fun _ hs => hs) (fun _ _ hs => hs)
      fun _ hs => Good.droppable hs) fun _ => ?_
    exact triple_bind (triple_discard (offerTarget_triple w)) fun _ => triple_pure _ fun _ hs => hs

theorem setGrb_keeps (hpost : ∀ held, Keeps (Good held) post) (grbId : Int) :
    Keeps (Good held) (setGrb w post grbId) := by
  refine triple_bind triple_read fun s => triple_ite (fun _ => keeps_pure _) fun _ => ?_
  refine triple_bind (ask_keeps _) fun validity => triple_ite (fun _ => keeps_pure _) fun _ => ?_
  refine triple_bind (R := fun o s =>
    Good (o.toList.map (fun nt => (nt.addr, true)) ++ held) s) ?_ fun o => ?_
  · refine catchError_keeps ?_ (triple_pure _ fun _ hs => hs) fun _ hs => hs
    exact triple_bind (createTarget_triple w grbId) fun nt => triple_pure _ fun _ hs => hs
  cases o with
  | none => exact keeps_pure _
  | some nt =>
    refine catchError_keeps (grbCreated_triple w hpost) ?_ fun _ hs => hs.1
    exact triple_bind dropNew_triple fun _ => keeps_pure _

theorem setShower_keeps (hpost : ∀ held, Keeps (Good held) post) :
    Keeps (Good held) (setShower w post) :=
  triple_bind triple_read fun _ => triple_ite (fun _ => keeps_pure _) fun _ =>
    setNow_keeps w hpost targetShower (-1)

theorem skip_keeps (hpost : ∀ held, Keeps (Good held) post) : Keeps (Good held) (skip w post) := by
  refine triple_bind triple_read fun s => ?_
  cases s.queue.entries with
  | nil => exact keeps_pure _
  | cons front rest =>
    exact triple_ite (fun _ => keeps_pure _) fun _ => setNow_keeps w hpost _ _

/-! ## Calls and runs -/

theorem replaceCurrent_keeps (hpost : ∀ held, Keeps (Good held) post) (type : Char) :
    Keeps (Good held) (replaceCurrent w post type) := by
  refine triple_bind triple_read fun s => ?_
  cases s.queue.entries with
  | nil => exact keeps_pure _
  | cons front rest =>
    exact triple_ite (fun _ => triple_discard (setNow_keeps w hpost _ _)) fun _ => keeps_pure _

theorem startQueue_keeps (hpost : ∀ held, Keeps (Good held) post) :
    Keeps (Good held) (startQueue w post) := by
  refine triple_bind (modify_keeps _ fun s => rfl) fun _ => triple_bind triple_read fun s => ?_
  exact triple_ite (fun _ => triple_discard (switchTarget_keeps w hpost)) fun _ => keeps_pure _

theorem queueDarks_keeps (hpost : ∀ held, Keeps (Good held) post) :
    Keeps (Good held) (queueDarks w post) := by
  refine catchError_keeps ?_ (modify_keeps _ fun s => rfl) fun _ hs => hs
  refine triple_bind (createTarget_triple w 1) fun dark => ?_
  refine triple_bind (triple_discard (addFront_triple' w dark true)) fun _ => ?_
  refine triple_bind triple_read fun s => triple_ite (fun _ => ?_) fun _ => keeps_pure _
  exact triple_discard (switchTarget_keeps w hpost)

theorem changeMasterState_keeps (hpost : ∀ held, Keeps (Good held) post) (newState : Status) :
    Keeps (Good held) (changeMasterState w post newState) := by
  have hmorning : Keeps (Good held) (do
      morningStarts w post
      startQueue w post) :=
    triple_bind (triple_bind (modify_keeps _ fun s => rfl) fun _ =>
      replaceCurrent_keeps w hpost Target.typeFlat) fun _ => startQueue_keeps w hpost
  have hnight : Keeps (Good held) (nightStarts w post) :=
    triple_bind (modify_keeps _ fun s => rfl) fun _ => replaceCurrent_keeps w hpost Target.typeDark
  have hstandby : Keeps (Good held) (standbyStarts w post) :=
    triple_bind (stop_keeps w hpost) fun _ => triple_bind triple_read fun s =>
      triple_ite (fun _ => queueDarks_keeps w hpost) fun _ => keeps_pure _
  refine triple_bind (modify_keeps _ fun s => rfl) fun _ => triple_bind triple_read fun s => ?_
  refine triple_ite (fun _ => keeps_pure _) fun _ => ?_
  refine triple_bind (modify_keeps _ fun s => rfl) fun _ => ?_
  refine triple_ite (fun _ => triple_bind hnight fun _ => hmorning) fun _ => ?_
  refine triple_ite (fun _ => hmorning) fun _ => ?_
  refine triple_ite (fun _ => startQueue_keeps w hpost) fun _ => ?_
  exact triple_ite (fun _ => hstandby) fun _ => stop_keeps w hpost

theorem switchIfDone_keeps (hpost : ∀ held, Keeps (Good held) post) :
    Keeps (Good held) (switchIfDone w post) :=
  triple_bind (ask_keeps _) fun _ => triple_ite
    (fun _ => triple_discard (switchTarget_keeps w hpost)) fun _ => keeps_pure _

theorem fromNext_keeps {setNext : Exec Int} (h : Keeps (Good held) setNext)
    (fromSelector : Bool) : Keeps (Good held) (fromNext fromSelector setNext) := by
  refine triple_bind triple_read fun s => triple_ite (fun _ => keeps_pure _) fun _ => ?_
  exact triple_bind (modify_keeps _ fun s => rfl) fun _ => h

/-- **Every call** keeps the targets, whatever its events bring about. -/
theorem serve_keeps (hpost : ∀ held, Keeps (Good held) post) (call : Call) :
    Keeps (Good held) (serve w post call) := by
  cases call with
  | grb grbId => exact triple_discard (setGrb_keeps w hpost grbId)
  | shower => exact triple_discard (setShower_keeps w hpost)
  | now tarId single =>
    have hnow : Keeps (Good held) (discard (setNow w post tarId (-1))) :=
      triple_discard (setNow_keeps w hpost tarId (-1))
    exact triple_ite (fun _ => hnow) fun _ => triple_bind (modify_keeps _ fun s => rfl) fun _ => hnow
  | queue tarIds =>
    refine keeps_forM fun o _ => ?_
    cases o with
    | none => exact keeps_pure _
    | some tarId => exact triple_discard (queueTarget_keeps w hpost _ _ _ _)
  | queueAt requests =>
    refine keeps_forM fun o _ => ?_
    cases o with
    | none => exact keeps_pure _
    | some r => exact triple_discard (queueTarget_keeps w hpost _ _ _ _)
  | next tarId fromSelector =>
    exact triple_discard (fromNext_keeps (setNext_keeps w hpost tarId) fromSelector)
  | nextPlan planId fromSelector =>
    exact triple_discard (fromNext_keeps (setNextPlan_keeps w hpost planId) fromSelector)
  | skip => exact triple_discard (skip_keeps w hpost)
  | endCommand => exact modify_keeps _ fun s => rfl
  | stop => exact triple_bind (modify_keeps _ fun s => rfl) fun _ => stop_keeps w hpost
  | clear => exact clearNextTargets_keeps w
  | disable => exact triple_bind (stop_keeps w hpost) fun _ => modify_keeps _ fun s => rfl
  | setNextId nextId => exact triple_discard (setNext_keeps w hpost nextId)
  | setQueueValues values => exact fun s hs => hs
  | setValues => exact modify_keeps _ fun s => rfl
  | changeMasterState newState => exact changeMasterState_keeps w hpost newState
  | scriptEnded => exact triple_bind (switchIfDone_keeps w hpost) fun _ => hpost held
  | lastReadout => exact triple_bind (switchIfDone_keeps w hpost) fun _ => hpost held
  | moveFailed killed =>
    refine triple_ite (fun _ => hpost held) fun _ => ?_
    refine triple_bind (hpost held) fun _ => triple_bind (hpost held) fun _ => ?_
    exact triple_bind (switchIfDone_keeps w hpost) fun _ => hpost held
  | event => exact hpost held

end Functions

/-- However deep the handlers call back. -/
theorem post_keeps (w : ExecWorld) (depth : Nat) : ∀ held, Keeps (Good held) (post w depth) := by
  induction depth with
  | zero => exact fun held => keeps_pure _
  | succ depth ih =>
    exact fun held => triple_bind (ask_keeps _) fun calls =>
      keeps_forM fun call _ => serve_keeps w ih call

theorem run_keeps (w : ExecWorld) (depth : Nat) (calls : List Call) :
    Keeps (Good held) (run w depth calls) :=
  keeps_forM fun call _ => serve_keeps w (post_keeps w depth) call

/-- The targets that the destructor leaves to the queue. -/
theorem spared_addrs (ct : Target) (l : List QueuedTarget) :
    ((targets l).filter fun t => ¬ PointsTo (some ct) t).map Target.addr =
      ((targets l).map Target.addr).filter (· ≠ ct.addr) := by
  rw [List.filter_map]
  refine congrArg (List.map Target.addr) (List.filter_congr fun t _ => ?_)
  simp [PointsTo, eq_comm]

/-- **The destructor** deletes the current target itself and spares it in the
queue. -/
theorem destroy_good (w : ExecWorld) (depth : Nat) : Keeps (Good []) (destroy w depth) := by
  have hclear : Triple (fun s => InOrder none [] ((targets s.queue.entries).filter
        fun t => ¬ PointsTo s.queue.currentTarget t) s.toQueState)
      (onQueue (Que.clearNext w.toWorld)) (fun _ s => Queued none [] [] s.toQueState)
      (fun s => Kept none [] s.toQueState) :=
    triple_zoom (fun _ _ => rfl) (clearNext_spared w.toWorld)
  have hdestroy : Triple (fun s : Executor => Kept none [] s.toQueState) (onQueue Que.destroy)
      (fun _ s => Kept none [] s.toQueState) (fun s => Kept none [] s.toQueState) :=
    triple_zoom (fun _ _ => rfl) Rts2.Plan.destroy_keeps
  have hlast : Triple (fun s => InOrder none [] ((targets s.queue.entries).filter
        fun t => ¬ PointsTo s.queue.currentTarget t) s.toQueState) (do
      onQueue (Que.clearNext w.toWorld)
      onQueue Que.destroy) (fun _ => Good []) (Good []) := by
    refine triple_bind (hclear.mono (fun _ hs => hs) (fun _ _ hs => hs.kept)
      fun s hs => good_iff.mpr ⟨none, hs⟩) fun _ => ?_
    exact hdestroy.mono (fun _ hs => hs) (fun _ s hs => good_iff.mpr ⟨none, hs⟩)
      fun s hs => good_iff.mpr ⟨none, hs⟩
  refine triple_bind (post_keeps w depth []) fun _ => ?_
  refine triple_bind (R := fun r s => r = s ∧ Good [] s) (triple_get fun s hs => ⟨rfl, hs⟩)
    fun r => ?_
  cases hr : r.pool.currentTarget with
  | none =>
    refine triple_bind (R := fun _ s => Good [] s ∧ s.pool.currentTarget = none)
      (triple_modify _ fun s hs => ⟨fun hc => (hs.2 hc).setNull, rfl⟩) fun _ => ?_
    refine triple_bind (R := fun _ s => InOrder none [] ((targets s.queue.entries).filter
        fun t => ¬ PointsTo s.queue.currentTarget t) s.toQueState) (fun s hs => ?_) fun _ => hlast
    intro hc
    refine ⟨(hs.1 hc).sublist (List.filter_sublist.map _), hs.2, fun t _ ht => ?_⟩
    simp [PointsTo] at ht
  | some ct =>
    refine triple_bind (R := fun _ s => s.pool.currentTarget = none ∧ (s.pool.Checked →
        Live s.pool [] (ct.addr :: ((targets s.queue.entries).map Target.addr).filter
          (· ≠ ct.addr))))
      (triple_modify _ fun s hs => ⟨rfl, fun hc => ?_⟩) fun _ => ?_
    · obtain ⟨rfl, hg⟩ := hs
      exact (hg hc).setNull.adopt ((hg hc).current ct hr)
    refine triple_bind (R := fun _ s => s.pool.currentTarget = none ∧ (s.pool.Checked →
        Live s.pool [] (((targets s.queue.entries).map Target.addr).filter (· ≠ ct.addr))))
      (triple_modify _ fun s hs => ?_) fun _ => ?_
    · obtain ⟨hnone, hl⟩ := hs
      refine ⟨(Pool.delete_currentTarget ..).trans hnone, fun hc => ?_⟩
      refine (hl ((Pool.delete_checked ..).mp hc)).delete fun hp => ?_
      rw [hnone] at hp
      simp [PointsTo] at hp
    · refine triple_bind (R := fun _ s => InOrder none [] ((targets s.queue.entries).filter
        fun t => ¬ PointsTo s.queue.currentTarget t) s.toQueState) (fun s hs => ?_) fun _ => hlast
      intro hc
      refine ⟨?_, hs.1, fun t _ ht => by simp [PointsTo] at ht⟩
      exact (spared_addrs ct s.queue.entries).symm ▸ hs.2 hc

end Exec
end Rts2.Plan

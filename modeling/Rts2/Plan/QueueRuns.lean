import Rts2.Plan.Executor

/-! # What the executor does to its queue

The executor changes its queue by five operations. What they keep, every run
keeps. -/
namespace Rts2.Plan
open Rts2.Lib

/-- What the operations on the queue of the executor keep. The objects, the
pointer to the current target and the settings do not matter to it. -/
structure QueueInvariant (w : World) (J : QueState → Prop) : Prop where
  pool : ∀ s p, J s → J { s with pool := p }
  currentTarget : ∀ s ct, J s → J { s with queue := { s.queue with currentTarget := ct } }
  values : ∀ s v, J s → J { s with queue := { s.queue with values := v } }
  clearNext : Keeps J (Que.clearNext w)
  beforeChange : ∀ now, Keeps J (Que.beforeChange w now)
  addFront : ∀ nt, Keeps J (Que.addFront w nt none none)
  addTarget : ∀ nt tStart tEnd repN,
    Keeps J (Que.addTarget w nt tStart tEnd (-1) repN none (-1) false)

namespace Exec

section Functions
variable {w : ExecWorld} {J : QueState → Prop} {post : Exec Unit}

/-- The queue of the executor. -/
abbrev OfQueue (J : QueState → Prop) (s : Executor) : Prop := J s.toQueState

theorem onQueue_of {α : Type} {x : Que α} (h : Keeps J x) : Keeps (OfQueue J) (onQueue x) :=
  triple_zoom (fun _ _ => rfl) h

theorem keeps_read {α : Type} {f : Executor → Exec α} (h : ∀ s, Keeps (OfQueue J) (f s)) :
    Keeps (OfQueue J) (get >>= f) :=
  triple_bind triple_read h

theorem keeps_discard {α : Type} {x : Exec α} (h : Keeps (OfQueue J) x) :
    Keeps (OfQueue J) (discard x) :=
  triple_discard h

theorem keeps_catchError {α : Type} {x handler : Exec α} (hx : Keeps (OfQueue J) x)
    (hh : Keeps (OfQueue J) handler) : Keeps (OfQueue J) (catchError x handler) := by
  refine keeps_tryCatch hx fun e => ?_
  cases e with
  | error => exact hh
  | emptyFront => exact keeps_throw _

theorem keeps_own (f : Executor → Executor) (hf : ∀ s, (f s).toQueState = s.toQueState) :
    Keeps (OfQueue J) (modify f : Exec Unit) := by
  refine keeps_modify f fun s hs => ?_
  show J (f s).toQueState
  rw [hf s]
  exact hs

variable (hJ : QueueInvariant w.toWorld J)
include hJ

theorem pool_of (f : QueState → Pool) :
    Keeps (OfQueue J) (onQueue (modify fun s => { s with pool := f s })) :=
  onQueue_of (keeps_modify _ fun s hs => hJ.pool s (f s) hs)

theorem ask_of {α : Type} (question : Nat → α) : Keeps (OfQueue J) (ask question) := by
  refine onQueue_of (keeps_bind keeps_get fun s => keeps_bind ?_ fun _ => keeps_pure _)
  exact keeps_modify _ fun s hs => hJ.pool s _ hs

theorem setCurrent_of (t : Option Target) : Keeps (OfQueue J) (setCurrent t) :=
  pool_of hJ fun s => s.pool.setCurrent t

theorem delete_of (t : Target) : Keeps (OfQueue J) (delete t) :=
  pool_of hJ fun s => s.pool.delete t

theorem tell_of (ct : Option Target) : Keeps (OfQueue J) (onQueue (Que.setCurrentTarget ct)) :=
  onQueue_of (keeps_modify _ fun s hs => hJ.currentTarget s ct hs)

theorem createTarget_of (tarId : Int) : Keeps (OfQueue J) (createTarget w tarId) := by
  refine onQueue_of (keeps_bind ?_ fun answer => ?_)
  · refine keeps_bind keeps_get fun s => keeps_bind ?_ fun _ => keeps_pure _
    exact keeps_modify _ fun s hs => hJ.pool s _ hs
  · cases answer with
    | none => exact keeps_throw _
    | some type =>
      refine keeps_bind keeps_get fun s => keeps_bind ?_ fun _ => keeps_pure _
      exact keeps_modify _ fun s hs => hJ.pool s _ hs

theorem endObservation_of (t : Target) (nextId : Int) :
    Keeps (OfQueue J) (endObservation w t nextId) := by
  refine keeps_bind (ask_of hJ _) fun answer => ?_
  cases answer with
  | none => exact keeps_throw _
  | some ret => exact keeps_pure _

omit hJ in
theorem processTarget_of (t : Target) : Keeps (OfQueue J) (processTarget t) := by
  have hqueue : Keeps (OfQueue J)
      (modify fun s => { s with targetsQue := s.targetsQue ++ [t] } : Exec Unit) :=
    keeps_own _ fun s => rfl
  exact keeps_ite (keeps_bind (keeps_own _ fun s => rfl) fun _ => hqueue) hqueue

theorem clearNextTargets_of : Keeps (OfQueue J) (clearNextTargets w) :=
  keeps_read fun _ => keeps_bind (tell_of hJ _) fun _ =>
    keeps_bind (onQueue_of hJ.clearNext) fun _ => keeps_own _ fun _ => rfl

theorem endCurrent_of : Keeps (OfQueue J) (endCurrent w) := by
  refine keeps_read fun s => ?_
  cases s.pool.currentTarget with
  | none => exact keeps_pure _
  | some ct => exact keeps_bind (keeps_discard (endObservation_of hJ ct _)) fun _ => processTarget_of ct

theorem requeueContinues_of : Keeps (OfQueue J) (requeueContinues w) := by
  refine keeps_read fun s => ?_
  cases s.pool.currentTarget with
  | none => exact keeps_pure _
  | some ct =>
    refine keeps_bind (ask_of hJ _) fun _ => keeps_read fun _ => keeps_ite ?_ (keeps_pure _)
    refine keeps_bind (createTarget_of hJ _) fun nt => keeps_discard ?_
    exact onQueue_of (hJ.addFront nt)

theorem dropStarted_of : Keeps (OfQueue J) (dropStarted w) := by
  refine keeps_read fun s => ?_
  cases s.pool.currentTarget with
  | none => exact keeps_pure _
  | some ct =>
    refine keeps_bind (ask_of hJ _) fun _ => keeps_read fun _ => keeps_ite ?_ (keeps_pure _)
    exact keeps_bind (setCurrent_of hJ _) fun _ => keeps_own _ fun s => rfl

theorem endAll_of : Keeps (OfQueue J) (endAll w) :=
  keeps_bind (endCurrent_of hJ) fun _ => keeps_bind (setCurrent_of hJ _) fun _ =>
    clearNextTargets_of hJ

variable (hpost : Keeps (OfQueue J) post)
include hpost

theorem doSwitch_of : Keeps (OfQueue J) (doSwitch w post) := by
  have hlast : Keeps (OfQueue J) (do if (← get).pool.currentTarget.isSome then post) :=
    keeps_read fun _ => keeps_ite hpost (keeps_pure _)
  refine keeps_read fun _ => keeps_bind (tell_of hJ _) fun _ => keeps_bind (ask_of hJ _) fun now => ?_
  refine keeps_bind (onQueue_of (hJ.beforeChange now)) fun _ => ?_
  refine keeps_bind (requeueContinues_of hJ) fun _ => keeps_bind (dropStarted_of hJ) fun _ => ?_
  refine keeps_bind (keeps_own _ fun s => rfl) fun _ => keeps_read fun s => ?_
  cases s.queue.entries with
  | nil => exact hlast
  | cons front rest =>
    have hplan : Keeps (OfQueue J) (do
        modify fun s => { s with currentPlanId := front.planId }
        if (← get).pool.currentTarget.isSome then post) :=
      keeps_bind (keeps_own _ fun s => rfl) fun _ => hlast
    cases s.pool.currentTarget with
    | none => exact keeps_bind (setCurrent_of hJ _) fun _ => hplan
    | some ct =>
      refine keeps_bind (endObservation_of hJ _ _) fun _ => keeps_ite hplan ?_
      exact keeps_bind (processTarget_of ct) fun _ => keeps_bind (setCurrent_of hJ _) fun _ => hplan

theorem switchTarget_of : Keeps (OfQueue J) (switchTarget w post) := by
  have hend (n : Int) : Keeps (OfQueue J) (do
      endAll w
      return n) :=
    keeps_bind (endAll_of hJ) fun _ => keeps_pure _
  refine keeps_read fun s => keeps_ite (keeps_bind (clearNextTargets_of hJ) fun _ => keeps_pure _) ?_
  refine keeps_ite (keeps_bind (keeps_own _ fun s => rfl) fun _ => ?_) (keeps_ite ?_ (hend _))
  · exact keeps_ite (keeps_bind hpost fun _ => hend 0) (hend 0)
  · exact keeps_bind (doSwitch_of hJ hpost) fun _ => keeps_pure _

theorem stop_of : Keeps (OfQueue J) (stop w post) := by
  refine keeps_bind (keeps_own _ fun s => rfl) fun _ => keeps_bind (clearNextTargets_of hJ) fun _ => ?_
  refine keeps_bind hpost fun _ => keeps_bind hpost fun _ => keeps_bind (ask_of hJ _) fun _ => ?_
  exact keeps_ite (keeps_discard (switchTarget_of hJ hpost)) (keeps_pure _)

theorem setNowTarget_of (nt : Target) (planId : Int) :
    Keeps (OfQueue J) (setNowTarget w post nt planId) :=
  keeps_bind (endCurrent_of hJ) fun _ => keeps_bind (setCurrent_of hJ _) fun _ =>
    keeps_bind (keeps_own _ fun _ => rfl) fun _ => keeps_bind (clearNextTargets_of hJ) fun _ =>
      keeps_bind hpost fun _ => keeps_pure _

theorem queueCreated_of (nt : Target) (tStart tEnd : Option Int) (planId : Int) :
    Keeps (OfQueue J) (queueCreated w post nt tStart tEnd planId) := by
  have hrest : Keeps (OfQueue J) (do
      discard (onQueue (Que.addTarget w.toWorld nt tStart tEnd (-1) planId none (-1) false))
      if (← get).pool.currentTarget.isNone then
        return if (← switchTarget w post) = 0 then 0 else -2
      return (0 : Int)) :=
    keeps_bind (keeps_discard (onQueue_of (hJ.addTarget nt tStart tEnd planId))) fun _ =>
      keeps_read fun _ => keeps_ite
        (keeps_bind (switchTarget_of hJ hpost) fun _ => keeps_pure _) (keeps_pure _)
  have hdrop : Keeps (OfQueue J) (do
      delete nt
      return (0 : Int)) :=
    keeps_bind (delete_of hJ nt) fun _ => keeps_pure _
  refine keeps_read fun s => keeps_ite (keeps_ite ?_ hdrop) (keeps_ite ?_ (keeps_ite ?_ ?_))
  · exact keeps_bind (stop_of hJ hpost) fun _ => hdrop
  · exact setNowTarget_of hJ hpost nt planId
  · exact setNowTarget_of hJ hpost nt planId
  · refine keeps_ite (keeps_bind (keeps_discard (setNowTarget_of hJ hpost nt planId)) fun _ => ?_) hrest
    exact keeps_bind (keeps_own _ fun s => rfl) fun _ => hrest

theorem queueTarget_of (tarId : Int) (tStart tEnd : Option Int) (planId : Int) :
    Keeps (OfQueue J) (queueTarget w post tarId tStart tEnd planId) :=
  keeps_catchError (keeps_bind (createTarget_of hJ tarId) fun nt =>
    queueCreated_of hJ hpost nt tStart tEnd planId) (keeps_pure _)

theorem setNext_of (nextId : Int) : Keeps (OfQueue J) (setNext w post nextId) := by
  have hqueue := queueTarget_of hJ hpost nextId none none (-1)
  exact keeps_read fun s => keeps_ite (keeps_pure _)
    (keeps_ite (keeps_bind (clearNextTargets_of hJ) fun _ => hqueue) hqueue)

theorem setNextPlan_of (nextPlanId : Int) : Keeps (OfQueue J) (setNextPlan w post nextPlanId) := by
  refine keeps_read fun s => keeps_ite (keeps_pure _) ?_
  refine keeps_ite (keeps_bind (clearNextTargets_of hJ) fun _ => ?_) ?_
  all_goals
    refine keeps_bind (ask_of hJ _) fun answer => ?_
    cases answer with
    | none => exact keeps_throw _
    | some tarId =>
      refine keeps_bind (createTarget_of hJ tarId) fun planTarget => ?_
      refine keeps_bind (queueTarget_of hJ hpost _ _ _ _) fun ret => ?_
      exact keeps_bind (delete_of hJ planTarget) fun _ => keeps_pure _

theorem setNow_of (nextId planId : Int) : Keeps (OfQueue J) (setNow w post nextId planId) :=
  keeps_read fun _ => keeps_ite (setNext_of hJ hpost nextId)
    (keeps_catchError (keeps_bind (createTarget_of hJ nextId) fun nt =>
      setNowTarget_of hJ hpost nt planId) (keeps_pure _))

omit hpost in
theorem dropNew_of (t : Target) : Keeps (OfQueue J) (dropNew t) := by
  refine keeps_read fun s => keeps_bind ?_ fun _ => delete_of hJ t
  exact pool_of hJ fun q => q.pool.check (.dropNew (PointsTo s.pool.currentTarget t ∨
    t.addr ∈ s.queue.entries.map (·.target.addr)))

theorem grbCreated_of (t : Target) : Keeps (OfQueue J) (grbCreated w post t) := by
  have hdrop (n : Int) : Keeps (OfQueue J) (do
      delete t
      return n) :=
    keeps_bind (delete_of hJ t) fun _ => keeps_pure _
  have hnow := setNowTarget_of hJ hpost t (-1)
  refine keeps_bind (ask_of hJ _) fun _ => keeps_ite (hdrop _) ?_
  refine keeps_bind (ask_of hJ _) fun _ => keeps_ite (hdrop _) ?_
  refine keeps_bind (ask_of hJ _) fun _ => keeps_ite (hdrop _) (keeps_read fun s => ?_)
  cases s.pool.currentTarget with
  | none => exact hnow
  | some ct =>
    refine keeps_bind (ask_of hJ _) fun _ => keeps_ite (hdrop _) ?_
    refine keeps_bind (ask_of hJ _) fun _ => keeps_ite hnow ?_
    refine keeps_bind (ask_of hJ _) fun _ => keeps_ite (hdrop _) ?_
    refine keeps_bind (clearNextTargets_of hJ) fun _ => ?_
    exact keeps_bind (keeps_discard (onQueue_of (hJ.addTarget t none none (-1)))) fun _ => keeps_pure _

theorem setGrb_of (grbId : Int) : Keeps (OfQueue J) (setGrb w post grbId) := by
  refine keeps_read fun s => keeps_ite (keeps_pure _) ?_
  refine keeps_bind (ask_of hJ _) fun _ => keeps_ite (keeps_pure _) ?_
  refine keeps_bind (keeps_catchError (keeps_bind (createTarget_of hJ grbId) fun nt =>
    keeps_pure _) (keeps_pure _)) fun o => ?_
  cases o with
  | none => exact keeps_pure _
  | some nt =>
    exact keeps_catchError (grbCreated_of hJ hpost nt)
      (keeps_bind (dropNew_of hJ nt) fun _ => keeps_pure _)

theorem skip_of : Keeps (OfQueue J) (skip w post) := by
  refine keeps_read fun s => ?_
  cases s.queue.entries with
  | nil => exact keeps_pure _
  | cons front rest => exact keeps_ite (keeps_pure _) (setNow_of hJ hpost _ _)

theorem replaceCurrent_of (type : Char) : Keeps (OfQueue J) (replaceCurrent w post type) := by
  refine keeps_read fun s => ?_
  cases s.queue.entries with
  | nil => exact keeps_pure _
  | cons front rest => exact keeps_ite (keeps_discard (setNow_of hJ hpost _ _)) (keeps_pure _)

theorem startQueue_of : Keeps (OfQueue J) (startQueue w post) :=
  keeps_bind (keeps_own _ fun _ => rfl) fun _ => keeps_read fun _ =>
    keeps_ite (keeps_discard (switchTarget_of hJ hpost)) (keeps_pure _)

theorem queueDarks_of : Keeps (OfQueue J) (queueDarks w post) := by
  refine keeps_catchError ?_ (keeps_own _ fun s => rfl)
  refine keeps_bind (createTarget_of hJ 1) fun dark => ?_
  refine keeps_bind (keeps_discard (onQueue_of (hJ.addFront dark))) fun _ => keeps_read fun s => ?_
  exact keeps_ite (keeps_discard (switchTarget_of hJ hpost)) (keeps_pure _)

theorem changeMasterState_of (newState : Status) :
    Keeps (OfQueue J) (changeMasterState w post newState) := by
  have hmorning : Keeps (OfQueue J) (do
      morningStarts w post
      startQueue w post) :=
    keeps_bind (keeps_bind (keeps_own _ fun s => rfl) fun _ => replaceCurrent_of hJ hpost _)
      fun _ => startQueue_of hJ hpost
  have hnight : Keeps (OfQueue J) (nightStarts w post) :=
    keeps_bind (keeps_own _ fun s => rfl) fun _ => replaceCurrent_of hJ hpost _
  have hstandby : Keeps (OfQueue J) (standbyStarts w post) :=
    keeps_bind (stop_of hJ hpost) fun _ => keeps_read fun s =>
      keeps_ite (queueDarks_of hJ hpost) (keeps_pure _)
  refine keeps_bind (keeps_own _ fun s => rfl) fun _ => keeps_read fun s => ?_
  refine keeps_ite (keeps_pure _) (keeps_bind (keeps_own _ fun s => rfl) fun _ => ?_)
  refine keeps_ite (keeps_bind hnight fun _ => hmorning) (keeps_ite hmorning ?_)
  exact keeps_ite (startQueue_of hJ hpost) (keeps_ite hstandby (stop_of hJ hpost))

theorem switchIfDone_of : Keeps (OfQueue J) (switchIfDone w post) :=
  keeps_bind (ask_of hJ _) fun _ =>
    keeps_ite (keeps_discard (switchTarget_of hJ hpost)) (keeps_pure _)

omit hJ hpost in
theorem fromNext_of {next : Exec Int} (h : Keeps (OfQueue J) next) (fromSelector : Bool) :
    Keeps (OfQueue J) (fromNext fromSelector next) :=
  keeps_read fun _ => keeps_ite (keeps_pure _) (keeps_bind (keeps_own _ fun _ => rfl) fun _ => h)

/-- **One call.** -/
theorem serve_of (call : Call) : Keeps (OfQueue J) (serve w post call) := by
  cases call with
  | grb grbId => exact keeps_discard (setGrb_of hJ hpost grbId)
  | shower =>
    exact keeps_discard (keeps_read fun s => keeps_ite (keeps_pure _) (setNow_of hJ hpost _ _))
  | now tarId single =>
    have hnow := keeps_discard (setNow_of hJ hpost tarId (-1))
    exact keeps_ite hnow (keeps_bind (keeps_own _ fun s => rfl) fun _ => hnow)
  | queue tarIds =>
    refine keeps_forM fun o _ => ?_
    cases o with
    | none => exact keeps_pure _
    | some tarId => exact keeps_discard (queueTarget_of hJ hpost _ _ _ _)
  | queueAt requests =>
    refine keeps_forM fun o _ => ?_
    cases o with
    | none => exact keeps_pure _
    | some r => exact keeps_discard (queueTarget_of hJ hpost _ _ _ _)
  | next tarId fromSelector =>
    exact keeps_discard (fromNext_of (setNext_of hJ hpost tarId) fromSelector)
  | nextPlan planId fromSelector =>
    exact keeps_discard (fromNext_of (setNextPlan_of hJ hpost planId) fromSelector)
  | skip => exact keeps_discard (skip_of hJ hpost)
  | endCommand => exact keeps_own _ fun s => rfl
  | stop => exact keeps_bind (keeps_own _ fun s => rfl) fun _ => stop_of hJ hpost
  | clear => exact clearNextTargets_of hJ
  | disable => exact keeps_bind (stop_of hJ hpost) fun _ => keeps_own _ fun s => rfl
  | setNextId nextId => exact keeps_discard (setNext_of hJ hpost nextId)
  | setQueueValues values => exact onQueue_of (keeps_modify _ fun s hs => hJ.values s values hs)
  | setValues => exact keeps_own _ fun s => rfl
  | changeMasterState newState => exact changeMasterState_of hJ hpost newState
  | scriptEnded => exact keeps_bind (switchIfDone_of hJ hpost) fun _ => hpost
  | lastReadout => exact keeps_bind (switchIfDone_of hJ hpost) fun _ => hpost
  | moveFailed killed =>
    refine keeps_ite hpost (keeps_bind hpost fun _ => keeps_bind hpost fun _ => ?_)
    exact keeps_bind (switchIfDone_of hJ hpost) fun _ => hpost
  | event => exact hpost

omit hpost in
theorem post_of (depth : Nat) : Keeps (OfQueue J) (Exec.post w depth) := by
  induction depth with
  | zero => exact keeps_pure _
  | succ depth ih => exact keeps_bind (ask_of hJ _) fun calls => keeps_forM fun call _ => serve_of hJ ih call

omit hpost in
/-- **A run of the executor** keeps what its queue operations keep. -/
theorem run_of (depth : Nat) (calls : List Call) : Keeps (OfQueue J) (run w depth calls) :=
  keeps_forM fun call _ => serve_of hJ (post_of hJ depth) call

end Functions
end Exec
end Rts2.Plan

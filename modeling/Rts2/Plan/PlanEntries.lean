import Rts2.Plan.EveryEntry
import Rts2.Plan.Filter
import Rts2.Plan.QueueRuns
import Rts2.Plan.Selector

/-! # The entries of plans

A plan handed to the executor or to a queue of the selector does not arrive: its
id is taken for a number of repetitions or for a place in the queue. -/
namespace Rts2.Plan
open Rts2.Lib

/-- The ids of the database come from a sequence; -1 is no plan. -/
def DbPlan.Stored (plan : DbPlan) : Prop := 0 < plan.planId

/-- The entry is the one the plan asks for. -/
def Carries (plan : DbPlan) (e : QueuedTarget) : Prop :=
  e.planId = plan.planId ∧ e.target.tarId = plan.tarId ∧ e.tStart = plan.planStart ∧
    e.tEnd = plan.planEnd ∧ e.repN = -1 ∧ e.repSeparation = none

/-- No entry of the queue belongs to a plan. -/
def Unplanned (s : QueState) : Prop := ∀ e ∈ s.queue.entries, e.planId = -1

theorem not_carries {plan : DbPlan} {e : QueuedTarget} (hplan : plan.Stored) (he : e.planId = -1) :
    ¬ Carries plan e := by
  intro h
  have hid := h.1
  unfold DbPlan.Stored at hplan
  omega

section Queue
variable {w : World}

theorem unmarked_planId : Unmarked fun e => e.planId = -1 := ⟨fun _ h => h, fun _ _ h => h⟩

theorem steady_true : Steady fun _ => True :=
  ⟨fun _ _ _ => trivial, fun _ _ => trivial, fun _ _ _ => trivial, fun _ _ _ _ => trivial⟩

theorem keeps_unplanned {α : Type} {x : Que α}
    (h : Keeps (EveryEntry (·.planId = -1) fun _ => True) x) : Keeps Unplanned x :=
  h.mono (fun _ hs => ⟨hs, trivial⟩) (fun _ _ hs => hs.1) fun _ hs => hs.1

theorem beforeChange_unplanned (now : Int) : Keeps Unplanned (Que.beforeChange w now) :=
  keeps_unplanned (beforeChange_every steady_true steady_true unmarked_planId now (fun _ hs => hs)
    (fun _ he => he) (requeue_every steady_true (fun _ _ he => he) fun _ _ _ _ => trivial))

theorem unplanned_invariant (w : World) : QueueInvariant w Unplanned where
  pool := fun _ _ hs => hs
  currentTarget := fun _ _ hs => hs
  values := fun _ _ hs => hs
  clearNext := keeps_unplanned (clearNext_every steady_true fun _ he => he)
  beforeChange := beforeChange_unplanned
  addFront := fun nt => keeps_unplanned (addFront_every steady_true nt none none fun _ => rfl)
  addTarget := fun nt tStart tEnd repN => keeps_unplanned
    (addTarget_every steady_true nt tStart tEnd (-1) repN none (-1) false fun _ => rfl)

/-- The target goes to its place, with the numbers it was given. -/
theorem addTarget_ends (s : QueState) (nt : Target) (tStart tEnd : Option Int)
    (index repN : Int) (repSeparation : Option Int) (planId : Int) (hard : Bool) :
    Ends (Que.addTarget w nt tStart tEnd index repN repSeparation planId hard) s
      (fun _ s' => ∃ qid, s'.queue.entries = s.queue.entries.insertIdx
        (Que.findIndex s.queue.entries.length index)
        ⟨nt, qid, planId, tStart, tEnd, repN, repSeparation, hard, false⟩)
      fun _ _ => True := by
  have hat : At s.pool.asked s.queue.entries s.queue.values s.queue.simul s := ⟨rfl, rfl, rfl, rfl⟩
  refine Ends.bind (Ends.mono (newEntry_ends hat nt tStart tEnd repN repSeparation planId hard)
    (fun _ _ hq => hq) fun _ _ _ => trivial) fun qt s₁ hq => ?_
  obtain ⟨qid, -, -, rfl, hat₁⟩ := hq
  have hinsert (qt : QueuedTarget) : Does w s.queue.values s.queue.simul (do
      Que.modifyEntries fun l => l.insertIdx (Que.findIndex l.length index) qt
      Que.updateVals w
      return qt.qid) s.queue.entries (cost s.queue.simul 1) qt.qid
      (s.queue.entries.insertIdx (Que.findIndex s.queue.entries.length index) qt) :=
    Does.congr (does_bind (does_modifyEntries _) (does_bind does_updateVals (does_pure _)))
      (Nat.zero_add _) rfl
  exact (hinsert _ _ s₁ hat₁).mono (fun _ s₂ hs => ⟨qid, hs.2.1.entries⟩) fun _ _ _ => trivial

theorem addPlan_ends (s : QueState) (plan : DbPlan) (index repN : Int) :
    Ends (Que.addPlan w plan index repN) s
      (fun _ s' => ∃ nt qid, nt.tarId = plan.tarId ∧ s'.queue.entries = s.queue.entries.insertIdx
        (Que.findIndex s.queue.entries.length index)
        ⟨nt, qid, -1, plan.planStart, plan.planEnd, repN, none, false, false⟩)
      fun _ _ => True := by
  have hat : At s.pool.asked s.queue.entries s.queue.values s.queue.simul s := ⟨rfl, rfl, rfl, rfl⟩
  refine Ends.bind (Ends.mono (createTarget_ends hat plan.tarId) (fun _ _ hnt => hnt)
    fun _ _ _ => trivial) fun nt s₁ hnt => ?_
  obtain ⟨type, -, rfl, hat₁⟩ := hnt
  refine Ends.tryCatch (Ends.bind (addTarget_ends s₁ _ _ _ _ _ _ _ _) fun _ s₂ hs => ?_)
    fun e s₂ _ => ?_
  · obtain ⟨qid, hs⟩ := hs
    rw [hat₁.entries] at hs
    exact ⟨_, qid, rfl, hs⟩
  · exact Ends.bind (R := fun _ _ => True) trivial fun _ _ _ => trivial

theorem clearNext_ends (s : QueState) :
    Ends (Que.clearNext w) s (fun _ s' => s'.queue.entries = []) fun _ _ => True := by
  refine Ends.bind (R := fun _ _ => True) trivial fun s₁ s₂ _ => ?_
  refine Ends.bind (R := fun _ _ => True) (ends_trivial _ _) fun _ s₃ _ => ?_
  refine Ends.bind (R := fun _ (s' : QueState) => s'.queue.entries = []) rfl fun _ s₄ hs => ?_
  have hat : At s₄.pool.asked [] s₄.queue.values s₄.queue.simul s₄ := ⟨rfl, hs, rfl, rfl⟩
  exact (does_updateVals _ s₄ hat).mono (fun _ _ h => h.2.1.entries) fun _ _ _ => trivial

/-- The plans go into the queue one after the other. -/
theorem addPlans_ends (index repN : DbPlan → Int) (plans : List DbPlan) (s : QueState)
    (hs : Unplanned s) :
    Ends (plans.forM fun plan => Que.addPlan w plan (index plan) (repN plan)) s
      (fun _ s' => s'.queue.entries.length = s.queue.entries.length + plans.length ∧ Unplanned s')
      fun _ _ => True := by
  induction plans generalizing s with
  | nil => exact ⟨rfl, hs⟩
  | cons plan plans ih =>
    refine Ends.bind (addPlan_ends s plan _ _) fun _ s₁ hs₁ => ?_
    obtain ⟨nt, qid, -, hentries⟩ := hs₁
    have hle := findIndex_le s.queue.entries.length (index plan)
    have hunplanned : Unplanned s₁ := by
      intro e he
      rw [hentries] at he
      rcases List.eq_or_mem_of_mem_insertIdx he with rfl | he
      · rfl
      · exact hs e he
    refine (ih s₁ hunplanned).mono (fun _ s₂ h => ⟨?_, h.2⟩) fun _ _ _ => trivial
    rw [h.1, hentries, List.length_insertIdx_of_le_length hle, List.length_cons]
    omega

end Queue

instance (plan : DbPlan) (e : QueuedTarget) : Decidable (Carries plan e) :=
  inferInstanceAs (Decidable (_ ∧ _))

/-- **No plan arrives.** The entries that `queue_plan`, `queue_plan_id` and
`next_plan` make belong to no plan. -/
theorem plan_not_carried (plan : DbPlan) (hplan : plan.Stored) :
    (∀ (w : World) (s s' : QueState) (plans : List DbPlan),
      Que.queuePlan w plans s = (.ok (), s') → s'.queue.entries.length = plans.length ∧
        (plan ∈ plans → ∀ e ∈ s'.queue.entries, ¬ Carries plan e)) ∧
    (∀ (w : World) (s s' : QueState), Que.queuePlanId w plan s = (.ok (), s') →
      ∃ e, s'.queue.entries = s.queue.entries ++ [e] ∧ ¬ Carries plan e) ∧
    (∀ (w : ExecWorld) (depth : Nat) (masterState : Status) (calls : List Call),
      ∀ e ∈ (Exec.run w depth calls (Executor.new masterState)).2.queue.entries,
        ¬ Carries plan e) := by
  refine ⟨fun w s s' plans hok => ?_, fun w s s' hok => ?_,
    fun w depth masterState calls e he => ?_⟩
  · have hends : Ends (Que.queuePlan w plans) s
        (fun _ s' => s'.queue.entries.length = plans.length ∧ Unplanned s') fun _ _ => True := by
      refine Ends.bind (clearNext_ends s) fun _ s₁ hs₁ => ?_
      refine Ends.bind (R := fun _ (s' : QueState) => s'.queue.entries = []) hs₁ fun _ s₂ hs₂ => ?_
      refine (addPlans_ends (fun plan => plan.planId) (fun _ => -1) plans s₂ fun e he => ?_).mono
        (fun _ s₃ h => ⟨?_, h.2⟩) fun _ _ _ => trivial
      · rw [hs₂] at he
        cases he
      · rw [h.1, hs₂, List.length_nil, Nat.zero_add]
    obtain ⟨hlen, hunplanned⟩ := hends.of_ok hok
    exact ⟨hlen, fun _ e he => not_carries hplan (hunplanned e he)⟩
  · obtain ⟨nt, qid, -, hentries⟩ := (addPlan_ends s plan (-1) plan.planId).of_ok hok
    have hlast : Que.findIndex s.queue.entries.length (-1) = s.queue.entries.length := by
      simp [Que.findIndex]
    rw [hlast, List.insertIdx_length_self] at hentries
    exact ⟨_, hentries, not_carries hplan rfl⟩
  · have hstart : Unplanned (Executor.new masterState).toQueState := fun _ he => by cases he
    have hrun := Exec.run_of (unplanned_invariant w.toWorld) depth calls
      (Executor.new masterState) hstart
    refine not_carries hplan ?_
    rcases hres : Exec.run w depth calls (Executor.new masterState) with ⟨e | a, s'⟩
    · rw [hres] at hrun he
      exact hrun _ he
    · rw [hres] at hrun he
      exact hrun _ he

theorem plan_not_carried_seven :
    let plan : DbPlan := ⟨7, 5, some 10, some 20⟩
    let start : QueState := ⟨Pool.new, ExecutorQueue.new⟩
    (∀ e ∈ (Que.queuePlan World.quiet [plan] start).2.queue.entries, ¬ Carries plan e) ∧
      (∃ e, (Que.queuePlanId World.quiet plan start).2.queue.entries = [e] ∧ ¬ Carries plan e) ∧
      ∀ e ∈ (Exec.run ExecWorld.quiet 0 [.queue [some 6], .nextPlan 7 false]
        (Executor.new Status.serverdNight)).2.queue.entries, ¬ Carries plan e := by
  intro plan start
  have hstored : plan.Stored := by
    show (0 : Int) < 7
    decide
  obtain ⟨hqueue, hid, hexec⟩ := plan_not_carried plan hstored
  exact ⟨(hqueue World.quiet start _ [plan] rfl).2 (List.mem_cons_self ..),
    hid World.quiet start _ rfl, hexec ExecWorld.quiet 0 Status.serverdNight _⟩

/-- The entry of plan 7 is one to be observed seven times, for no plan. -/
theorem plan_seven_repeated :
    (Que.queuePlanId World.quiet ⟨7, 5, some 10, some 20⟩ ⟨Pool.new, ExecutorQueue.new⟩).2.queue.entries
        = [⟨⟨1, 5, 'O'⟩, 1, -1, some 10, some 20, 7, none, false, false⟩] ∧
      ¬ Carries ⟨7, 5, some 10, some 20⟩
        ⟨⟨1, 5, 'O'⟩, 1, -1, some 10, some 20, 7, none, false, false⟩ :=
  ⟨rfl, by decide⟩

end Rts2.Plan

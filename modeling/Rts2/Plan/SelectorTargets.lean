import Rts2.Plan.ExecutorTargets
import Rts2.Plan.Selector

/-! # The targets of the selector

While an operation works on one queue, the targets of the others are held. No
queue of the selector is told of a current target. -/
namespace Rts2.Plan
open Rts2.Lib

variable {held : List (Nat × Bool)} {t : Target} {s : QueState}

/-! ## Calls of one queue -/

section Calls
variable (w : World)
open Que

theorem Orderly.keeps {α : Type} {x : Que α} (h : Orderly none held x) :
    Keeps (Kept none held) x :=
  h.mono (fun _ hs => hs.queued) (fun _ _ hs => hs.kept) fun _ hs => hs

theorem discard_keeps {α : Type} {x : Que α} (h : Keeps (Kept none held) x) :
    Keeps (Kept none held) (discard x) :=
  triple_discard h

/-- The plan deletes a target that is still its own. -/
theorem dropPlan_triple :
    Triple (Offered none held t true) (dropPlan t) (fun _ => Kept none held)
      (Kept none held) := by
  refine triple_bind (R := fun r s => r = s ∧ Offered none held t true s)
    (triple_get fun s hs => ⟨rfl, hs⟩) fun r => ?_
  refine triple_bind (R := fun _ s => Kept none ((t.addr, true) :: held) s)
    (triple_modify _ fun s hs hc => ?_) fun _ => triple_modify _ fun s hs hc => ?_
  · obtain ⟨rfl, -, hfree⟩ := hs
    have htaken := not_or.mp (of_decide_eq_false (hc _ (List.mem_cons_self ..)))
    have hnot : t ∉ targets r.queue.entries := by
      intro hm
      obtain ⟨e, he, rfl⟩ := List.mem_map.mp hm
      exact htaken.2 (List.mem_map_of_mem he)
    obtain ⟨hl, hcur⟩ := hfree hnot fun x hx => hc x (List.mem_cons_of_mem _ hx)
    exact ⟨hl.check _, hcur⟩
  · obtain ⟨hl, hcur⟩ := hs ((Pool.delete_checked ..).mp hc)
    exact ⟨hl.deleteHeld, (Pool.delete_currentTarget ..).trans hcur⟩

theorem addPlan_keeps (plan : DbPlan) (index repN : Int) :
    Keeps (Kept none held) (addPlan w plan index repN) := by
  refine triple_bind (createTarget_kept w plan.tarId) fun nt => ?_
  refine triple_tryCatch (triple_discard (addTarget_triple w nt _ _ index repN none (-1) false
    true)) fun e => ?_
  exact triple_bind dropPlan_triple fun _ => keeps_throw e

theorem queuePlan_keeps (plans : List DbPlan) : Keeps (Kept none held) (queuePlan w plans) := by
  refine triple_bind (Orderly.keeps (clearNext_triple w)) fun _ => ?_
  refine triple_bind (R := fun _ => Kept none held) (triple_modify _ fun _ hs => hs) fun _ => ?_
  exact keeps_forM fun plan _ => addPlan_keeps w plan _ _

/-- **Every call** of a queue keeps the targets. -/
theorem serve_call_keeps (call : QueueCall) : Keeps (Kept none held) (call.serve w) := by
  cases call with
  | addFront tarId tStart tEnd =>
    refine triple_bind (createTarget_kept w tarId) fun tar => triple_discard ?_
    exact (addFront_triple w tar tStart tEnd true).mono (fun _ hs => hs) (fun _ _ hs => hs)
      fun _ hs => hs.1
  | queue index tryFirstPossible requests =>
    exact triple_discard (queueFromConn_keeps w index tryFirstPossible requests)
  | queueQids requests => exact triple_discard (queueFromConnQids_keeps w requests)
  | queuePlan plans => exact queuePlan_keeps w plans
  | queuePlanId plan => exact addPlan_keeps w plan (-1) plan.planId
  | clear => exact Orderly.keeps (clearNext_triple w)
  | remove index => exact discard_keeps (Orderly.keeps (removeIndex_triple w index))
  | move index newindex => exact triple_discard (moveIndex_keeps w index newindex)
  | updateTimes index tStart tEnd =>
    exact triple_discard (updateIndexTimes_keeps w index tStart tEnd)
  | queueNow now tarId once => exact triple_discard (queueNow_triple w now tarId once)
  | beforeChange now => exact Orderly.keeps (beforeChange_triple w now)
  | sortQueue => exact triple_bind (Orderly.keeps (sortQueue_triple w)) fun _ => updateVals_keeps w
  | selectNext now nextTime nextLength removeObserved =>
    exact discard_keeps (Orderly.keeps
      (selectNextObservation_triple w now nextTime nextLength removeObserved))
  | setValues values => exact triple_modify _ fun _ hs => hs
  | setRepN repN => exact setRepN_keeps w repN
  | setRepSeparation separation => exact setRepSeparation_keeps w separation

end Calls

/-! ## All queues -/

def ExecutorQueue.addrs (q : ExecutorQueue) : List Nat := (targets q.entries).map Target.addr

def Selector.addrs (s : Selector) : List Nat :=
  (s.queues ++ s.simulQueue :: s.sqs).flatMap ExecutorQueue.addrs

/-- The targets of all queues are alive and different. -/
def Owned (s : Selector) : Prop :=
  s.pool.Checked → Live s.pool [] s.addrs ∧ s.pool.currentTarget = none

/-- The targets of the other queues are held while one queue is at work. -/
theorem Live.lend {p : Pool} {os as : List Nat} :
    Live p [] (os ++ as) ↔ Live p (os.map (·, false)) as := by
  have hfst : (os.map (·, false)).map Prod.fst = os := by
    rw [List.map_map]
    exact List.map_id os
  constructor
  · intro h
    refine ⟨?_, ?_, fun a ha => ?_, h.current, h.deleted_lt, h.deleted_nodup, h.sound⟩
    · rw [hfst]
      exact h.nodup
    · rw [hfst]
      exact h.alive
    · simp at ha
  · intro h
    obtain ⟨h1, h2, -, h4, h5, h6, h7⟩ := h
    rw [hfst] at h1 h2
    exact ⟨h1, h2, by simp, h4, h5, h6, h7⟩

theorem addrs_set {l : List ExecutorQueue} {i : Nat} {q : ExecutorQueue} (hq : l[i]? = some q)
    (r : ExecutorQueue) :
    ((l.set i r).flatMap ExecutorQueue.addrs).Perm
      ((l.eraseIdx i).flatMap ExecutorQueue.addrs ++ r.addrs) := by
  obtain ⟨hi, -⟩ := List.getElem?_eq_some_iff.mp hq
  have hlen : i < (l.set i r).length := by rw [List.length_set]; exact hi
  have hperm := List.getElem_cons_eraseIdx_perm hlen
  rw [List.getElem_set_self, List.eraseIdx_set_eq] at hperm
  refine (hperm.symm.flatMap_right _).trans ?_
  rw [List.flatMap_cons]
  exact List.perm_append_comm

theorem set_same {l : List ExecutorQueue} {i : Nat} {q : ExecutorQueue} (hq : l[i]? = some q) :
    l.set i q = l := by
  obtain ⟨hi, rfl⟩ := List.getElem?_eq_some_iff.mp hq
  exact List.set_getElem_self hi

/-- The addresses of all queues but the one at a place. -/
def Selector.others (s : Selector) : Place → List Nat
  | .queue i => (s.queues.eraseIdx i ++ s.simulQueue :: s.sqs).flatMap ExecutorQueue.addrs
  | .simulQueue => (s.queues ++ s.sqs).flatMap ExecutorQueue.addrs
  | .sqs i => (s.queues ++ s.simulQueue :: s.sqs.eraseIdx i).flatMap ExecutorQueue.addrs

theorem Selector.addrs_setAt {s : Selector} {p : Place} {q : ExecutorQueue}
    (hq : s.queueAt p = some q) (r : ExecutorQueue) :
    (s.setAt r p).addrs.Perm (s.others p ++ r.addrs) := by
  cases p with
  | queue i =>
    have hset := addrs_set hq r
    simp only [Selector.addrs, Selector.setAt, Selector.others, List.flatMap_append]
    refine (hset.append_right _).trans ?_
    rw [List.append_assoc, List.append_assoc]
    exact List.perm_append_comm.append_left _
  | simulQueue =>
    simp only [Selector.addrs, Selector.setAt, Selector.others, List.flatMap_append,
      List.flatMap_cons]
    rw [List.append_assoc]
    exact List.perm_append_comm.append_left _
  | sqs i =>
    have hset := addrs_set hq r
    simp only [Selector.addrs, Selector.setAt, Selector.others, List.flatMap_append,
      List.flatMap_cons]
    rw [List.append_assoc, List.append_assoc]
    exact (hset.append_left _).append_left _

theorem Selector.setAt_self {s : Selector} {p : Place} {q : ExecutorQueue}
    (hq : s.queueAt p = some q) : s.setAt q p = s := by
  cases p with
  | queue i => rw [Selector.setAt, set_same hq]
  | simulQueue =>
    obtain rfl := Option.some.inj hq
    rfl
  | sqs i => rw [Selector.setAt, set_same hq]

namespace Sel

theorem onQueue_keeps {p : Place} {x : Que Unit} (h : ∀ held, Keeps (Kept none held) x) :
    Keeps Owned (onQueue p x) := by
  refine triple_bind (R := fun r s => r = s ∧ Owned s) (triple_get fun s hs => ⟨rfl, hs⟩)
    fun r => ?_
  cases hq : r.queueAt p with
  | none => exact triple_pure _ fun _ hs => hs.2
  | some q =>
    have hback (s : QueState) (hs : Kept none ((r.others p).map (·, false)) s) :
        Owned { r.setAt s.queue p with pool := s.pool } := by
      intro hc
      obtain ⟨hl, hcur⟩ := hs hc
      exact ⟨(Live.lend.mpr hl).perm (Selector.addrs_setAt hq s.queue), hcur⟩
    refine triple_zoom_of (h ((r.others p).map (·, false))) (fun s hs hc => ?_)
      (fun s _ s' hs hk => hs.1 ▸ hback s' hk) fun s s' hs hk => hs.1 ▸ hback s' hk
    obtain ⟨rfl, ho⟩ := hs
    obtain ⟨hl, hcur⟩ := ho hc
    have hperm := Selector.addrs_setAt hq q
    rw [Selector.setAt_self hq] at hperm
    exact ⟨Live.lend.mp (hl.perm hperm.symm), hcur⟩

/-- The copy has targets of its own. -/
theorem copyQueue_keeps (w : World) (eq : ExecutorQueue) : Keeps Owned (copyQueue w eq) := by
  have hcopy (r : Selector) : Triple (Kept none (r.addrs.map (·, false))) (do
      Que.copyEntries w eq.entries
      return (← get).queue)
      (fun q s => s.pool.Checked →
        Live s.pool (r.addrs.map (·, false)) q.addrs ∧ s.pool.currentTarget = none)
      (Kept none (r.addrs.map (·, false))) :=
    triple_bind (copyEntries_keeps w eq.entries) fun _ =>
      triple_bind (triple_get (Q := fun q s => Kept none (r.addrs.map (·, false)) s ∧ q = s)
        fun s hs => ⟨hs, rfl⟩) fun q => triple_pure _ fun s hs => hs.2 ▸ hs.1
  unfold copyQueue
  refine triple_from fun r => ?_
  refine triple_bind (R := fun q s => s.queues = r.queues ∧ s.simulQueue = r.simulQueue ∧
      s.sqs = r.sqs ∧ (s.pool.Checked →
        Live s.pool (r.addrs.map (·, false)) q.addrs ∧ s.pool.currentTarget = none))
    (triple_zoom_of (hcopy r) (fun s hs hc => ?_) (fun s q s' hs hk => ?_)
      fun s s' hs hk hc => ?_) fun q => triple_modify _ fun s hs hc => ?_
  · obtain ⟨rfl, ho⟩ := hs
    obtain ⟨hl, hcur⟩ := ho hc
    refine ⟨Live.lend.mp ?_, hcur⟩
    simpa using hl
  · obtain ⟨rfl, -⟩ := hs
    exact ⟨rfl, rfl, rfl, hk⟩
  · obtain ⟨rfl, -⟩ := hs
    obtain ⟨hl, hcur⟩ := hk hc
    exact ⟨(Live.lend.mpr hl).sublist (List.sublist_append_left ..), hcur⟩
  · obtain ⟨hqueues, hsimul, hsqs, hk⟩ := hs
    obtain ⟨hl, hcur⟩ := hk hc
    refine ⟨?_, hcur⟩
    have hall := Live.lend.mpr hl
    simpa [Selector.addrs, hqueues, hsimul, hsqs] using hall

/-- Forgetting the copies forgets their targets. -/
theorem dropCopies_keeps : Keeps Owned (modify fun s => { s with sqs := [] } : Sel Unit) := by
  refine keeps_modify _ fun s hs hc => ?_
  obtain ⟨hl, hcur⟩ := hs hc
  refine ⟨hl.sublist ?_, hcur⟩
  simp only [Selector.addrs, List.flatMap_append, List.flatMap_cons]
  exact (List.Sublist.append_left (List.nil_sublist _) _).append_left _ 

theorem clearSimul_keeps' : Keeps (Kept none held) (do Que.clearSimul (← get).queue.entries) := by
  refine triple_bind (triple_get (Q := fun r s => Queued none held [] s ∧
    s.queue.entries = r.queue.entries) fun s hs => ⟨hs.queued, rfl⟩) fun r => ?_
  exact clearSimul_keeps r.queue.entries

theorem serve_keeps (w : World) (call : SelectorCall) : Keeps Owned (serve w call) := by
  cases call with
  | call i call => exact onQueue_keeps fun held => serve_call_keeps w call
  | load i rows => exact onQueue_keeps fun held => load_keeps w rows
  | simulate =>
    refine triple_bind dropCopies_keeps fun _ => triple_bind triple_read fun s => ?_
    refine triple_bind (keeps_forM fun eq _ => copyQueue_keeps w eq) fun _ => ?_
    exact onQueue_keeps fun held => modifyEntries_keeps _ fun l => (List.nil_sublist _).subperm
  | simulFilter i t =>
    exact onQueue_keeps fun held => discard_keeps (Orderly.keeps (filter_triple w t none true))
  | simulSelected i tarId fr t =>
    refine triple_bind (onQueue_keeps fun held => ?_) fun _ =>
      onQueue_keeps fun held => Orderly.keeps (beforeChange_triple w t)
    refine triple_bind (createTarget_kept w tarId) fun tar => triple_discard ?_
    exact (addTarget_triple w tar _ _ _ _ _ _ _ true).mono (fun _ hs => hs) (fun _ _ hs => hs)
      fun _ hs => hs.1
  | simulFinished =>
    refine triple_bind triple_read fun s => triple_bind (keeps_forM fun i _ => ?_) fun _ => ?_
    · exact onQueue_keeps fun held => clearSimul_keeps'
    · exact onQueue_keeps fun held => updateVals_keeps w

theorem run_keeps (w : World) (calls : List SelectorCall) : Keeps Owned (run w calls) := by
  refine keeps_forM fun call _ => keeps_tryCatch (serve_keeps w call) fun e => ?_
  cases e with
  | error => exact keeps_pure _
  | emptyFront => exact keeps_throw _

theorem destroy_keeps : Keeps Owned destroy := by
  refine triple_bind (onQueue_keeps fun held => Rts2.Plan.destroy_keeps) fun _ => ?_
  refine triple_bind triple_read fun s => keeps_forM fun i _ => ?_
  exact onQueue_keeps fun held => Rts2.Plan.destroy_keeps

end Sel
end Rts2.Plan

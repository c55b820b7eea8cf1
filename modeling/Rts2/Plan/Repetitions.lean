import Rts2.Lib.Run
import Rts2.Plan.EveryEntry
import Rts2.Plan.SelectorDev

/-! # Who consumes a repetition

`beforeChange` takes a repetition from the front entry and puts the entry to the
back. It is meant for an observation that starts, and is called after every
edit of a queue at night as well. -/
namespace Rts2.Plan
open Rts2.Lib

/-- The target of the front entry that went to the back. -/
def Check.requeued : Check → Option Target
  | .requeue front _ => some front
  | .recordStays => none
  | .dropNew _ => none

/-- The targets of the entries that went to the back, the last one first. -/
def Pool.requeued (p : Pool) : List Target := p.checks.filterMap Check.requeued

/-- The entry `e` is `x`, with all its repetitions. `clearNext` leaves `NULL` of
a target that is observed. -/
structure Stays (x e : QueuedTarget) : Prop where
  target : e.target = x.target ∨ e.target = Target.null
  qid : e.qid = x.qid
  planId : e.planId = x.planId
  repN : e.repN = x.repN
  repSeparation : e.repSeparation = x.repSeparation

theorem Stays.refl (e : QueuedTarget) : Stays e e := ⟨Or.inl rfl, rfl, rfl, rfl, rfl⟩

/-- The entry was there before, with the same times. -/
def Remains (before : List QueuedTarget) (e : QueuedTarget) : Prop :=
  ∃ x ∈ before, Stays x e ∧ e.tStart = x.tStart ∧ e.tEnd = x.tEnd

/-- The edit asks for the entry, or for its times. The targets it creates come
after the first `created` ones. -/
def QueueEdit.Sets (created : Nat) (before : List QueuedTarget) (e : QueuedTarget) :
    QueueEdit → Prop
  | .queue _ requests => ∃ r, some r ∈ requests ∧ created ≤ e.target.addr ∧
      e.target.tarId = r.tarId ∧ e.tStart = r.tStart ∧ e.tEnd = r.tEnd ∧ e.repN = r.nrep ∧
      e.repSeparation = r.separation
  | .queueQids requests => ∃ r, some r ∈ requests ∧ e.tStart = r.tStart ∧ e.tEnd = r.tEnd ∧
      ((∃ r', some r' ∈ requests ∧ r'.qid = -1 ∧ created ≤ e.target.addr ∧
          e.target.tarId = r'.tarId ∧ e.repN = -1 ∧ e.repSeparation = none) ∨
        ∃ x ∈ before, Stays x e ∧ (x.qid : Int) = r.qid)
  | .updateTimes index tStart tEnd => e.tStart = tStart ∧ e.tEnd = tEnd ∧
      ∃ x, before[Que.findIndex before.length index]? = some x ∧ Stays x e
  | .remove _ => False
  | .move _ _ => False
  | .clear => False

/-- Nothing was taken from the entry by the edit. -/
def QueueEdit.Intact (created : Nat) (before : List QueuedTarget) (edit : QueueEdit)
    (e : QueuedTarget) : Prop :=
  Remains before e ∨ edit.Sets created before e

/-- The objects since there were `created` of them: no entry went to the back. -/
def Since (created : Nat) (requeued : List Target) (pool : Pool) : Prop :=
  created ≤ pool.created ∧ pool.requeued = requeued

theorem since_self (pool : Pool) : Since pool.created pool.requeued pool := ⟨Nat.le_refl _, rfl⟩

theorem remains_unmarked (before : List QueuedTarget) : Unmarked (Remains before) where
  hard := fun _ ⟨x, hx, hs, ht⟩ => ⟨x, hx, ⟨hs.1, hs.2, hs.3, hs.4, hs.5⟩, ht⟩
  reported := fun _ _ ⟨x, hx, hs, ht⟩ => ⟨x, hx, ⟨hs.1, hs.2, hs.3, hs.4, hs.5⟩, ht⟩

theorem requeued_delete (pool : Pool) (t : Target) : (pool.delete t).requeued = pool.requeued := by
  unfold Pool.delete
  split <;> rfl

theorem created_delete (pool : Pool) (t : Target) : (pool.delete t).created = pool.created := by
  unfold Pool.delete
  split <;> rfl

theorem requeued_check {pool : Pool} {c : Check} (hc : ∀ front current, c ≠ .requeue front current) :
    (pool.check c).requeued = pool.requeued := by
  cases c with
  | requeue front current => exact absurd rfl (hc front current)
  | recordStays => rfl
  | dropNew taken => rfl

theorem since_steady (created : Nat) (requeued : List Target) : Steady (Since created requeued) where
  asked := fun _ _ h => h
  created := fun _ h => ⟨Nat.le_succ_of_le h.1, h.2⟩
  delete := fun pool t h => ⟨(created_delete pool t).symm ▸ h.1, (requeued_delete pool t).trans h.2⟩
  check := fun _ _ hc h => ⟨h.1, (requeued_check hc).trans h.2⟩

/-! ## Edits -/

section Edits
variable {w : World} {p : QueuedTarget → Prop} {created : Nat} {requeued : List Target}

theorem createTarget_new (tarId : Int) :
    Triple (EveryEntry p (Since created requeued)) (Que.createTarget w tarId)
      (fun t s => (created ≤ t.addr ∧ t.tarId = tarId) ∧ EveryEntry p (Since created requeued) s)
      (EveryEntry p (Since created requeued)) := by
  refine triple_bind (ask_every (since_steady created requeued) _) fun answer => ?_
  cases answer with
  | none => exact triple_throw _ fun _ hs => hs
  | some type =>
    refine triple_bind (R := fun r s => created ≤ r.pool.created ∧
      EveryEntry p (Since created requeued) s) (triple_get fun s hs => ⟨hs.2.1, hs⟩) fun r => ?_
    refine triple_bind (R := fun _ s => created ≤ r.pool.created ∧
      EveryEntry p (Since created requeued) s) (triple_modify _ fun s hs => ?_) fun _ => ?_
    · exact ⟨hs.1, hs.2.1, Nat.le_succ_of_le hs.2.2.1, hs.2.2.2⟩
    · exact triple_pure _ fun s hs => ⟨⟨hs.1, rfl⟩, hs.2⟩

theorem queueFromConn_every (index : Int) (requests : List (Option Que.Request))
    (hnew : ∀ r, some r ∈ requests → ∀ t qid, created ≤ t.addr → t.tarId = r.tarId →
      p ⟨t, qid, -1, r.tStart, r.tEnd, r.nrep, r.separation, false, false⟩) :
    Keeps (EveryEntry p (Since created requeued)) (Que.queueFromConn w index false requests) := by
  induction requests with
  | nil => exact keeps_pure _
  | cons request rest ih =>
    have hrest := ih fun r hr => hnew r (List.mem_cons_of_mem _ hr)
    cases request with
    | none => exact keeps_bind hrest fun _ => keeps_pure _
    | some r =>
      refine triple_bind (createTarget_new r.tarId) fun t s hs => ?_
      obtain ⟨⟨haddr, htar⟩, hs⟩ := hs
      refine keeps_bind (triple_discard ?_) (fun _ => hrest) s hs
      exact addTarget_every (since_steady created requeued) _ _ _ _ _ _ _ _ fun qid =>
        hnew r (List.mem_cons_self ..) t qid haddr htar

theorem placeQid_every (k : Nat) (r : Que.QidRequest)
    (hplace : ∀ e, p e → (e.qid : Int) = r.qid → p { e with tStart := r.tStart, tEnd := r.tEnd }) :
    Keeps (EveryEntry p (Since created requeued)) (Que.placeQid k r) := by
  refine triple_bind (R := fun r s => r = s ∧ EveryEntry p (Since created requeued) s)
    (triple_get fun s hs => ⟨rfl, hs⟩) fun r' => ?_
  cases hfind : r'.queue.entries.findIdx? fun e => (e.qid : Int) = r.qid with
  | none => exact triple_pure _ fun _ hs => hs.2
  | some m =>
    refine triple_bind (triple_modify _ fun s hs => ?_) fun _ => keeps_pure _
    obtain ⟨rfl, hs⟩ := hs
    refine ⟨fun e he => ?_, hs.2⟩
    obtain ⟨hm, hqid, -⟩ := List.findIdx?_eq_some_iff_getElem.mp hfind
    obtain ⟨j, hj, rfl⟩ := List.getElem_of_mem ((splice_perm _ _ _).mem_iff.mp he)
    rw [List.length_modify] at hj
    have hp := hs.1 _ (List.getElem_mem hj)
    rw [List.getElem_modify]
    split
    · rename_i heq
      subst heq
      exact hplace _ hp (of_decide_eq_true hqid)
    · exact hp

theorem placeQids_every (requests : List (Option Que.QidRequest))
    (hnew : ∀ r, some r ∈ requests → r.qid = -1 → ∀ t qid, created ≤ t.addr → t.tarId = r.tarId →
      p ⟨t, qid, -1, r.tStart, r.tEnd, -1, none, false, false⟩)
    (hplace : ∀ r, some r ∈ requests → ∀ e, p e → (e.qid : Int) = r.qid →
      p { e with tStart := r.tStart, tEnd := r.tEnd }) :
    ∀ k, Keeps (EveryEntry p (Since created requeued)) (Que.placeQids w k requests) := by
  have hsteady := since_steady created requeued
  induction requests with
  | nil => exact fun k => keeps_pure _
  | cons request rest ih =>
    intro k
    have hrest := ih (fun r hr => hnew r (List.mem_cons_of_mem _ hr))
      fun r hr => hplace r (List.mem_cons_of_mem _ hr)
    cases request with
    | none => exact keeps_bind (hrest k) fun _ => keeps_pure _
    | some r =>
      refine triple_bind (createTarget_new r.tarId) fun t s hs => ?_
      obtain ⟨⟨haddr, htar⟩, hs⟩ := hs
      refine triple_ite (fun hqid => ?_) (fun _ => ?_) s hs
      · refine triple_bind (newEntry_every hsteady t r.tStart r.tEnd (-1) none (-1) false)
          fun qt s hs => ?_
        obtain ⟨⟨qid, rfl⟩, hs⟩ := hs
        refine keeps_bind (modifyEntries_every fun l hl e he => ?_)
          (fun _ => keeps_bind (hrest _) fun _ => keeps_pure _) s hs
        rcases List.mem_cons.mp (insertIdx_subset l _ _ he) with rfl | he
        · exact hnew r (List.mem_cons_self ..) hqid t qid haddr htar
        · exact hl e he
      · refine keeps_bind (placeQid_every k r (hplace r (List.mem_cons_self ..))) fun place => ?_
        cases place with
        | none => exact keeps_bind (hrest _) fun _ => keeps_pure _
        | some k' => exact keeps_bind (hrest _) fun _ => keeps_pure _

theorem queueFromConnQids_every (requests : List (Option Que.QidRequest))
    (hnew : ∀ r, some r ∈ requests → r.qid = -1 → ∀ t qid, created ≤ t.addr → t.tarId = r.tarId →
      p ⟨t, qid, -1, r.tStart, r.tEnd, -1, none, false, false⟩)
    (hplace : ∀ r, some r ∈ requests → ∀ e, p e → (e.qid : Int) = r.qid →
      p { e with tStart := r.tStart, tEnd := r.tEnd }) :
    Keeps (EveryEntry p (Since created requeued)) (Que.queueFromConnQids w requests) := by
  have hdrop (known : List Nat) (l : List QueuedTarget) : ∀ i,
      Keeps (EveryEntry p (Since created requeued)) (Que.dropUnknown w known i l) := by
    induction l with
    | nil => exact fun i => keeps_pure _
    | cons e rest ih =>
      intro i
      refine keeps_ite ?_ (ih _)
      exact keeps_bind (removeRecord_every (since_steady created requeued) _) fun _ =>
        keeps_bind (subset_every fun l => (List.eraseIdx_sublist ..).subset) fun _ => ih i
  refine keeps_bind (placeQids_every requests hnew hplace 0) fun r => ?_
  exact keeps_bind keeps_get fun s => keeps_bind (hdrop _ _ 0) fun _ => keeps_pure _

variable {before : List QueuedTarget}

/-- What the entry carries besides the marks decides. -/
theorem intact_marked (edit : QueueEdit) {e : QueuedTarget} (hard reported : Bool)
    (he : edit.Intact created before e) :
    edit.Intact created before { e with hard := hard, unobservableReported := reported } := by
  have hstays {x : QueuedTarget} (hs : Stays x e) :
      Stays x { e with hard := hard, unobservableReported := reported } :=
    ⟨hs.target, hs.qid, hs.planId, hs.repN, hs.repSeparation⟩
  refine he.imp (fun ⟨x, hx, hs, ht⟩ => ⟨x, hx, hstays hs, ht⟩) fun h => ?_
  cases edit with
  | queue index requests => exact h
  | queueQids requests =>
    obtain ⟨r, hr, ht, hte, h⟩ := h
    exact ⟨r, hr, ht, hte, h.imp id fun ⟨x, hx, hs, hq⟩ => ⟨x, hx, hstays hs, hq⟩⟩
  | updateTimes index tStart tEnd =>
    obtain ⟨ht, hte, x, hx, hs⟩ := h
    exact ⟨ht, hte, x, hx, hstays hs⟩
  | remove index => exact h
  | move index newindex => exact h
  | clear => exact h

theorem intact_unmarked (edit : QueueEdit) : Unmarked (edit.Intact created before) where
  hard := fun e he => intact_marked edit false e.unobservableReported he
  reported := fun e b he => intact_marked edit e.hard b he

/-- An edit by itself takes nothing from the entries. -/
theorem serve_intact (edit : QueueEdit) :
    Triple (fun s => s.queue.entries = before ∧ Since created requeued s.pool) (edit.serve w)
      (fun _ => EveryEntry (edit.Intact created before) (Since created requeued))
      (EveryEntry (edit.Intact created before) (Since created requeued)) := by
  have hsteady := since_steady created requeued
  have hstart : ∀ s : QueState, s.queue.entries = before ∧ Since created requeued s.pool →
      EveryEntry (edit.Intact created before) (Since created requeued) s := by
    intro s hs
    refine ⟨fun e he => Or.inl ⟨e, hs.1 ▸ he, Stays.refl e, rfl, rfl⟩, hs.2⟩
  cases edit with
  | queue index requests =>
    refine (keeps_bind (queueFromConn_every index requests ?_) fun _ => keeps_pure _).pre hstart
    exact fun r hr t qid haddr htar => Or.inr ⟨r, hr, haddr, htar, rfl, rfl, rfl, rfl⟩
  | queueQids requests =>
    refine (keeps_bind (queueFromConnQids_every requests ?_ ?_) fun _ => keeps_pure _).pre hstart
    · intro r hr hqid t qid haddr htar
      exact Or.inr ⟨r, hr, rfl, rfl, Or.inl ⟨r, hr, hqid, haddr, htar, rfl, rfl⟩⟩
    · intro r hr e he hqid
      rcases he with ⟨x, hx, hs, -, -⟩ | ⟨r', -, -, -, ⟨r'', hr'', hnew⟩ | ⟨x, hx, hs, -⟩⟩
      · exact Or.inr ⟨r, hr, rfl, rfl, Or.inr ⟨x, hx, ⟨hs.1, hs.2, hs.3, hs.4, hs.5⟩, hs.qid ▸ hqid⟩⟩
      · exact Or.inr ⟨r, hr, rfl, rfl, Or.inl ⟨r'', hr'', hnew⟩⟩
      · exact Or.inr ⟨r, hr, rfl, rfl, Or.inr ⟨x, hx, ⟨hs.1, hs.2, hs.3, hs.4, hs.5⟩, hs.qid ▸ hqid⟩⟩
  | remove index =>
    exact (keeps_bind (removeIndex_every hsteady index) fun _ => keeps_pure _).pre hstart
  | move index newindex =>
    exact (keeps_bind (moveIndex_every hsteady index newindex) fun _ => keeps_pure _).pre hstart
  | updateTimes index tStart tEnd =>
    refine triple_bind (R := fun _ => EveryEntry _ (Since created requeued)) ?_ fun _ => keeps_pure _
    refine triple_bind (R := fun r s => r = s ∧ s.queue.entries = before ∧
      Since created requeued s.pool) (triple_get fun s hs => ⟨rfl, hs⟩) fun r => ?_
    refine triple_ite (fun _ => triple_pure _ fun s hs => hstart s hs.2) fun hne => ?_
    refine triple_bind (triple_modify _ fun s hs => ?_) fun _ =>
      keeps_bind (updateVals_every hsteady) fun _ => keeps_pure _
    obtain ⟨rfl, rfl, hsince⟩ := hs
    refine ⟨fun e he => ?_, hsince⟩
    obtain ⟨j, hj, rfl⟩ := List.getElem_of_mem he
    rw [List.length_modify] at hj
    rw [List.getElem_modify]
    split
    · rename_i heq
      subst heq
      exact Or.inr ⟨rfl, rfl, _, List.getElem?_eq_getElem hj, ⟨Or.inl rfl, rfl, rfl, rfl, rfl⟩⟩
    · exact Or.inl ⟨_, List.getElem_mem hj, Stays.refl _, rfl, rfl⟩
  | clear =>
    refine (keeps_bind (clearNext_every hsteady ?_) fun _ => keeps_pure _).pre hstart
    rintro e (⟨x, hx, hs, ht⟩ | h)
    · exact Or.inl ⟨x, hx, ⟨Or.inr rfl, hs.2, hs.3, hs.4, hs.5⟩, ht⟩
    · exact absurd h id

end Edits

/-! ## The change of the front -/

/-- `beforeChange` puts the front of the sorted queue to the back. -/
def ExecutorQueue.requeuesFront (q : ExecutorQueue) : Bool :=
  match q.entries with
  | [] => false
  | front :: _ => q.values.queueType = .circular || 1 < front.repN

section Front
variable {w : World} {p : QueuedTarget → Prop} {Q : Pool → Prop}

theorem sortQueue_ok (s : QueState) : Que.sortQueue w s = (.ok (), (Que.sortQueue w s).2) := by
  obtain ⟨pool, entries, currentTarget, values, timerAdded, simul⟩ := s
  cases values with
  | mk queueType => cases queueType <;> rfl

/-- Where the front has no repetition to give, `beforeChange` only sorts and
filters. -/
theorem beforeChange_calm (hQ : Steady Q) (hp : Unmarked p) (now : Int) {s : QueState}
    (hs : EveryEntry p Q s) (hcalm : (Que.sortQueue w s).2.queue.requeuesFront = false) :
    Ends (Que.beforeChange w now) s (fun _ => EveryEntry p Q) fun _ => EveryEntry p Q := by
  have hfilter : Keeps (EveryEntry p Q) (do discard (Que.filter w now none true)) :=
    triple_discard (filter_every hQ hp now none true)
  have hsorted : EveryEntry p Q (Que.sortQueue w s).2 :=
    ((sortQueue_every hQ).ends hs).of_ok (sortQueue_ok s)
  generalize hs₁ : (Que.sortQueue w s).2 = s₁ at hcalm hsorted
  have hsort : Ends (Que.sortQueue w) s (fun _ s' => s' = s₁) fun _ _ => False := by
    unfold Ends
    rw [sortQueue_ok, hs₁]
  refine Ends.bind (hsort.mono (fun _ _ h => h) fun _ _ h => h.elim) fun _ s' hs' => ?_
  subst hs'
  refine ends_read ?_
  unfold ExecutorQueue.requeuesFront at hcalm
  revert hcalm
  cases s'.queue.entries with
  | nil => exact fun _ => hfilter.ends hsorted
  | cons front rest =>
    intro hcalm
    obtain ⟨hcircular, hrep⟩ := Bool.or_eq_false_iff.mp hcalm
    refine ends_read ?_
    rw [if_neg (of_decide_eq_false hcircular), if_neg (of_decide_eq_false hrep)]
    exact hfilter.ends hsorted

end Front

/-! ## The selector -/

/-- The entries of each queue have a property, and the objects have one. -/
def QueuesEvery (p : Nat → QueuedTarget → Prop) (Q : Pool → Prop) (s : SelectorDev) : Prop :=
  (∀ i q, s.queues[i]? = some q → ∀ e ∈ q.entries, p i e) ∧ Q s.pool

namespace Dev
variable {w : World} {o : Occasion} {p p' : Nat → QueuedTarget → Prop} {Q Q' : Pool → Prop}

/-- An operation of one queue leaves the other ones. -/
theorem onQueue_ends {α : Type} {x : Que α} {i : Nat} {q : ExecutorQueue} {s : SelectorDev}
    (hx : Ends x ⟨s.pool, q⟩ (fun _ => EveryEntry (p' i) Q') fun _ => EveryEntry (p' i) Q')
    (hother : ∀ j qj, j ≠ i → s.queues[j]? = some qj → ∀ e ∈ qj.entries, p' j e) :
    Ends (onQueue i q x) s (fun _ => QueuesEvery p' Q') fun _ => QueuesEvery p' Q' := by
  have hback (r : QueState) (hr : EveryEntry (p' i) Q' r) :
      QueuesEvery p' Q' { s with pool := r.pool, queues := s.queues.set i r.queue } := by
    refine ⟨fun j qj hj e he => ?_, hr.2⟩
    rw [List.getElem?_set] at hj
    split at hj
    · rename_i hij
      split at hj
      · cases hj
        exact hij ▸ hr.1 e he
      · cases hj
    · rename_i hij
      exact hother j qj (Ne.symm hij) hj e he
  exact ends_zoom_of hx (fun _ => hback) fun _ => hback

/-- The queue after an operation of it is the one the operation leaves. -/
theorem onQueue_result {α : Type} {x : Que α} {i : Nat} {q : ExecutorQueue} {s : SelectorDev}
    {R : α → QueState → Prop} (hx : Ends x ⟨s.pool, q⟩ R fun _ _ => True) :
    Ends (onQueue i q x) s (fun a t => ∀ q' ∈ t.queues[i]?, R a ⟨t.pool, q'⟩) fun _ _ => True := by
  refine ends_zoom_of hx (fun a r hr q' hq' => ?_) fun _ _ _ => trivial
  have hq : (s.queues.set i r.queue)[i]? = some q' := hq'
  rw [List.getElem?_set_self'] at hq
  obtain ⟨-, -, rfl⟩ := Option.map_eq_some_iff.mp hq
  exact hr

theorem onQueue_keeps {α : Type} {x : Que α} {i : Nat} {q : ExecutorQueue}
    (hx : Keeps (EveryEntry (p i) Q) x) (hq : ∀ e ∈ q.entries, p i e) :
    Keeps (QueuesEvery p Q) (onQueue i q x) :=
  triple_of_ends fun _ hs => onQueue_ends (hx.ends ⟨hq, hs.2⟩) fun j qj _ hj => hs.1 j qj hj

/-- The selector's own values are no entries. -/
theorem keeps_own (f : SelectorDev → SelectorDev) (hf : ∀ s, (f s).toSelector = s.toSelector) :
    Keeps (QueuesEvery p Q) (modify f : Dev Unit) := by
  refine keeps_modify f fun s hs => ?_
  unfold QueuesEvery
  rw [hf s]
  exact hs

theorem catchError_every {α : Type} {x handler : Dev α} (hx : Keeps (QueuesEvery p Q) x)
    (hh : Keeps (QueuesEvery p Q) handler) : Keeps (QueuesEvery p Q) (catchError x handler) := by
  refine keeps_tryCatch hx fun e => ?_
  cases e with
  | error => exact hh
  | emptyFront => exact keeps_throw _

section Select
variable (hQ : Steady Q) (hp : ∀ i, Unmarked (p i))
include hQ hp

theorem selectFrom_every (l : List ExecutorQueue) : ∀ i nextTime nextLength removeObserved,
    (∀ k q, l[k]? = some q → ∀ e ∈ q.entries, p (i + k) e) →
      Keeps (QueuesEvery p Q) (selectFrom w o i l nextTime nextLength removeObserved) := by
  induction l with
  | nil => exact fun _ _ _ _ _ => keeps_pure _
  | cons q rest ih =>
    intro i nextTime nextLength removeObserved hl
    have hselect := selectNextObservation_every (w := w) hQ (hp i) o.now nextTime nextLength
      removeObserved
    refine keeps_bind (onQueue_keeps hselect (hl 0 q rfl)) fun r => ?_
    obtain ⟨selected, nextTime⟩ := r
    dsimp only
    cases selected.filter (0 ≤ ·.tarId) with
    | some n => exact keeps_bind (keeps_own _ fun _ => rfl) fun _ => keeps_pure _
    | none =>
      refine keeps_bind (keeps_own _ fun _ => rfl) fun _ => ih _ _ _ _ fun k q hk => ?_
      have hnext := hl (k + 1) q hk
      rwa [Nat.add_comm k 1, ← Nat.add_assoc] at hnext

theorem selectNext_every : Keeps (QueuesEvery p Q) (selectNext w o) := by
  have hautomatic : Keeps (QueuesEvery p Q) (selectAutomatic o) :=
    keeps_ite (keeps_pure _) (keeps_bind (keeps_own _ fun _ => rfl) fun _ => keeps_pure _)
  refine catchError_every (keeps_bind (keeps_own _ fun _ => rfl) fun _ => ?_) (keeps_pure _)
  refine triple_bind (R := fun r s => QueuesEvery p Q r ∧ QueuesEvery p Q s)
    (triple_get fun s hs => ⟨hs, hs⟩) fun r s hs => ?_
  refine keeps_ite (keeps_bind (selectFrom_every hQ hp _ 0 _ _ _ fun k q hk => ?_) fun found => ?_)
    hautomatic s hs.2
  · rw [Nat.zero_add]
    exact hs.1.1 k q hk
  · cases found with
    | some id => exact keeps_pure _
    | none => exact keeps_bind (keeps_own _ fun _ => rfl) fun _ => hautomatic

/-- The part of `updateNext` that selects. -/
theorem updateNext_none_every : Keeps (QueuesEvery p Q) (updateNext w o none) := by
  have htell : Keeps (QueuesEvery p Q) tellExecutor := by
    refine keeps_own _ fun s => ?_
    split
    · rfl
    · split <;> rfl
  refine keeps_bind (selectNext_every hQ hp) fun nid => ?_
  refine keeps_bind (keeps_own _ fun _ => rfl) fun _ => keeps_ite ?_ (keeps_pure _)
  exact keeps_ite (keeps_bind htell fun _ => keeps_pure _) (keeps_pure _)

end Select

/-- A started observation that is not of a front entry leaves the queues. -/
theorem startObservation_other {tarId obsId : Int} :
    Triple (fun s => s.observed tarId = none ∧ QueuesEvery p Q s) (startObservation w o tarId obsId)
      (fun _ => QueuesEvery p Q) (QueuesEvery p Q) := by
  refine triple_bind (R := fun _ s => s.observed tarId = none ∧ QueuesEvery p Q s)
    (triple_modify _ fun s hs => hs) fun _ => ?_
  refine triple_bind (R := fun r s => r.observed tarId = none ∧ QueuesEvery p Q s)
    (triple_get fun s hs => hs) fun r s hs => ?_
  obtain ⟨hr, hs⟩ := hs
  rw [hr]
  exact hs

/-- An observation of a front entry changes one queue. -/
theorem startObservation_front {tarId obsId : Int} {i : Nat} {q : ExecutorQueue}
    {front : QueuedTarget}
    (hx : Triple (EveryEntry (p i) Q) (Que.beforeChange w o.now) (fun _ => EveryEntry (p' i) Q')
      (EveryEntry (p' i) Q')) (hother : ∀ j e, j ≠ i → p j e → p' j e) :
    Triple (fun s => s.observed tarId = some (i, q, front) ∧ s.queues[i]? = some q ∧
        QueuesEvery p Q s) (startObservation w o tarId obsId)
      (fun _ => QueuesEvery p' Q') (QueuesEvery p' Q') := by
  refine triple_bind (R := fun _ s => s.observed tarId = some (i, q, front) ∧
    s.queues[i]? = some q ∧ QueuesEvery p Q s) (triple_modify _ fun s hs => hs) fun _ => ?_
  refine triple_bind (R := fun r s => r.observed tarId = some (i, q, front) ∧
    s.queues[i]? = some q ∧ QueuesEvery p Q s)
    (triple_get fun s hs => hs) fun r s hs => ?_
  obtain ⟨hr, hq, hs⟩ := hs
  rw [hr]
  dsimp only
  refine triple_bind (R := fun _ => QueuesEvery p Q) (triple_modify _ fun s hs => hs)
    (fun _ => ?_) s hs
  refine triple_bind (R := fun _ => QueuesEvery p' Q') (triple_of_ends fun s' hs' => ?_) fun _ =>
    keeps_own _ fun _ => rfl
  exact onQueue_ends (hx.ends ⟨hs.1 i q hq, hs'.2⟩) fun j qj hj hqj e he =>
    hother j e hj (hs'.1 j qj hqj e he)

end Dev

theorem SelectorDev.observed_queue {s : SelectorDev} {tarId : Int} {i : Nat} {q : ExecutorQueue}
    {front : QueuedTarget} (h : s.observed tarId = some (i, q, front)) : s.queues[i]? = some q := by
  unfold SelectorDev.observed at h
  split at h
  · cases h
  · split at h
    · cases h
    · rename_i hq
      split at h
      · cases h
      · split at h
        · cases h
          exact hq
        · cases h

/-! ## Steps -/

def SelectorDev.entriesAt (s : SelectorDev) (i : Nat) : List QueuedTarget :=
  match s.queues[i]? with
  | none => []
  | some q => q.entries

/-- The entry was in the queue before the event, or the event is an edit of that
queue that asks for it. -/
def IntactAt (s : SelectorDev) (event : SelectorEvent) (i : Nat) (e : QueuedTarget) : Prop :=
  Remains (s.entriesAt i) e ∨
    ∃ edit, event = .edit i edit ∧ edit.Sets s.pool.created (s.entriesAt i) e

/-- No repetition was consumed, no entry put to the back and no start shifted. -/
def Undisturbed (s : SelectorDev) (event : SelectorEvent) (s' : SelectorDev) : Prop :=
  QueuesEvery (IntactAt s event) (Since s.pool.created s.pool.requeued) s'

/-- One entry more may have gone to the back. -/
def Once (requeued : List Target) (pool : Pool) : Prop :=
  pool.requeued = requeued ∨ ∃ front, pool.requeued = front :: requeued

/-- An observation of the front entry of a queue has started; the other queues
are as they were, and at most one entry went to the back. -/
def FrontObserved (s : SelectorDev) (event : SelectorEvent) (s' : SelectorDev) : Prop :=
  ∃ tarId obsId i q front, event = .observation tarId obsId ∧
    s.observed tarId = some (i, q, front) ∧
    QueuesEvery (fun j e => j = i ∨ Remains (s.entriesAt j) e) (Once s.pool.requeued) s'

/-- The edit goes through, and the front of the sorted queue would go to the
back. -/
def QueueEdit.requeues (w : World) (edit : QueueEdit) (s : QueState) : Bool :=
  match edit.serve w s with
  | (.ok false, s') => (Que.sortQueue w s').2.queue.requeuesFront
  | _ => false

/-- The queue is edited in the day, or its front has no repetition to give. -/
def Harmless (w : World) (s : SelectorDev) (i : SelectorInput) : Prop :=
  match i.event with
  | .edit k edit => i.occasion.observing = false ∨ edit = .clear ∨
      ∀ q ∈ s.queues[k]?, edit.requeues w ⟨s.pool, q⟩ = false
  | .observation _ _ => True
  | .next => True

instance (w : World) (s : SelectorDev) (i : SelectorInput) : Decidable (Harmless w s i) := by
  unfold Harmless
  split <;> infer_instance

section Step
variable {w : World} {s : SelectorDev} {o : Occasion}

theorem entriesAt_of {i : Nat} {q : ExecutorQueue} (hq : s.queues[i]? = some q) :
    s.entriesAt i = q.entries := by
  unfold SelectorDev.entriesAt
  rw [hq]

theorem intactAt_edit (k : Nat) (edit : QueueEdit) :
    IntactAt s (.edit k edit) k = edit.Intact s.pool.created (s.entriesAt k) := by
  funext e
  simp [IntactAt, QueueEdit.Intact]

theorem intactAt_other {event : SelectorEvent} {i : Nat} (h : ∀ edit, event ≠ .edit i edit) :
    IntactAt s event i = Remains (s.entriesAt i) := by
  funext e
  simp [IntactAt, h]

theorem intactAt_unmarked (event : SelectorEvent) (i : Nat) : Unmarked (IntactAt s event i) := by
  by_cases h : ∃ edit, event = .edit i edit
  · obtain ⟨edit, rfl⟩ := h
    rw [intactAt_edit]
    exact intact_unmarked edit
  · rw [intactAt_other (not_exists.mp h)]
    exact remains_unmarked _

theorem undisturbed_refl (event : SelectorEvent) : Undisturbed s event s :=
  ⟨fun _ _ hq e he => Or.inl ⟨e, (entriesAt_of hq).symm ▸ he, Stays.refl e, rfl, rfl⟩,
    since_self s.pool⟩

theorem since_steady' : Steady (Since s.pool.created s.pool.requeued) := since_steady _ _

/-- After an edit, `beforeChange` finds the front it may put to the back, or the
day. -/
theorem afterQueueChange_undisturbed {event : SelectorEvent} {k : Nat} {r : SelectorDev}
    (hr : Undisturbed s event r)
    (hcalm : o.observing = true → ∀ q ∈ r.queues[k]?,
      (Que.sortQueue w ⟨r.pool, q⟩).2.queue.requeuesFront = false) :
    Ends (Dev.afterQueueChange w o k) r (fun _ => Undisturbed s event)
      fun _ => Undisturbed s event := by
  refine ends_read ?_
  cases hq : r.queues[k]? with
  | none => exact hr
  | some q =>
    have hentries : EveryEntry (IntactAt s event k) (Since s.pool.created s.pool.requeued)
        ⟨r.pool, q⟩ := ⟨hr.1 k q hq, hr.2⟩
    refine ends_ite (fun hobserving => ?_) fun _ => ?_
    · have hchange := beforeChange_calm since_steady' (intactAt_unmarked event k) o.now hentries
        (hcalm hobserving q hq)
      refine (Dev.onQueue_ends hchange fun j qj _ => hr.1 j qj).bind fun _ r' hr' => ?_
      exact (triple_discard (Dev.updateNext_none_every since_steady'
        (intactAt_unmarked event))).ends hr'
    · have hsort : Keeps (EveryEntry (IntactAt s event k) (Since s.pool.created s.pool.requeued))
          (do
            Que.sortQueue w
            Que.updateVals w) :=
        keeps_bind (sortQueue_every since_steady') fun _ => updateVals_every since_steady'
      exact Dev.onQueue_ends (hsort.ends hentries) fun j qj _ => hr.1 j qj

theorem editQueue_undisturbed {k : Nat} {edit : QueueEdit}
    (h : Harmless w s ⟨o, .edit k edit⟩) :
    Ends (Dev.editQueue w o k edit) s (fun _ => Undisturbed s (.edit k edit))
      fun _ => Undisturbed s (.edit k edit) := by
  have hstart : Undisturbed s (.edit k edit) s := undisturbed_refl _
  refine ends_read ?_
  cases hq : s.queues[k]? with
  | none => exact hstart
  | some q =>
    have hserve : Ends (edit.serve w) ⟨s.pool, q⟩
        (fun _ => EveryEntry (IntactAt s (.edit k edit) k) (Since s.pool.created s.pool.requeued))
        fun _ => EveryEntry (IntactAt s (.edit k edit) k) (Since s.pool.created s.pool.requeued) := by
      rw [intactAt_edit]
      exact (serve_intact edit).ends ⟨(entriesAt_of hq).symm, since_self s.pool⟩
    have hedit := Dev.onQueue_ends (i := k) hserve fun j qj _ => hstart.1 j qj
    refine ends_ite (fun _ => ?_) fun hclear => ?_
    · exact hedit.discard.bind fun _ _ hr => hr
    · have hcalm : Ends (edit.serve w) ⟨s.pool, q⟩ (fun refused r => refused = false →
          o.observing = true → (Que.sortQueue w r).2.queue.requeuesFront = false)
          fun _ _ => True := by
        rcases h with h | h | h
        · refine (ends_trivial _ _).mono (fun _ _ _ _ hobs => ?_) fun _ _ h => h
          rw [h] at hobs
          cases hobs
        · exact absurd h hclear
        · have hrequeues := h q hq
          unfold QueueEdit.requeues at hrequeues
          unfold Ends
          rcases hres : edit.serve w ⟨s.pool, q⟩ with ⟨e | refused, r⟩
          · trivial
          · rintro rfl -
            rwa [hres] at hrequeues
      have hboth := hedit.and (Dev.onQueue_result (i := k) hcalm)
      refine Ends.tryCatch (F := fun _ => Undisturbed s (.edit k edit)) ?_ fun e r hr => ?_
      · refine (hboth.mono (fun _ _ hr => hr) fun _ _ hr => hr.1).bind fun refused r hr => ?_
        refine ends_ite (fun _ => hr.1) fun hrefused => ?_
        refine Ends.bind (afterQueueChange_undisturbed hr.1 fun hobs q' hq' => ?_) fun _ _ hr => hr
        exact hr.2 q' hq' (Bool.eq_false_iff.mpr hrefused) hobs
      · cases e with
        | error => exact hr
        | emptyFront => exact hr

theorem once_steady (requeued : List Target) : Steady (Once requeued) where
  asked := fun _ _ h => h
  created := fun _ h => h
  delete := fun pool t h => by rwa [Once, requeued_delete]
  check := fun pool c hc h => by rwa [Once, requeued_check hc]

theorem requeue_once {p : QueuedTarget → Prop} {created : Nat} {requeued : List Target}
    (hp : ∀ e, p e) :
    Triple (EveryEntry p (Since created requeued)) (Que.requeue w)
      (fun _ => EveryEntry p (Once requeued)) (EveryEntry p (Once requeued)) := by
  have hweak : ∀ s, EveryEntry p (Since created requeued) s → EveryEntry p (Once requeued) s :=
    fun s hs => ⟨hs.1, Or.inl hs.2.2⟩
  refine triple_bind triple_read fun r => ?_
  cases r.queue.entries with
  | nil => exact triple_pure _ hweak
  | cons front rest =>
    have hcreate := createTarget_every (w := w) (p := p) (since_steady created requeued)
      front.target.tarId
    refine triple_bind (hcreate.mono (fun _ hs => hs) (fun _ _ hs => hs) hweak) fun nt => ?_
    refine triple_bind (R := fun _ => EveryEntry p (Since created requeued))
      (triple_modify _ fun s hs => ⟨fun e _ => hp e, hs.2⟩) fun _ => triple_bind triple_read fun s => ?_
    refine triple_bind (R := fun _ => EveryEntry p (Once requeued)) (triple_modify _ fun s hs => ?_)
      fun _ => ?_
    · exact ⟨hs.1, Or.inr ⟨front.target, congrArg (front.target :: ·) hs.2.2⟩⟩
    · exact keeps_bind (delete_every (once_steady requeued) _) fun _ =>
        modifyEntries_every fun _ _ e _ => hp e

/-- An observation changes at most the queue whose front it is of. -/
theorem observation_step (tarId obsId : Int) :
    Ends (Dev.updateNext w o (some (tarId, obsId))) s
        (fun _ => Undisturbed s (.observation tarId obsId))
        (fun _ => Undisturbed s (.observation tarId obsId)) ∨
      ∃ i q front, s.observed tarId = some (i, q, front) ∧
        Ends (Dev.updateNext w o (some (tarId, obsId))) s
          (fun _ => QueuesEvery (fun j e => j = i ∨ Remains (s.entriesAt j) e) (Once s.pool.requeued))
          fun _ => QueuesEvery (fun j e => j = i ∨ Remains (s.entriesAt j) e) (Once s.pool.requeued) := by
  have hstart : Undisturbed s (.observation tarId obsId) s := undisturbed_refl _
  cases hobserved : s.observed tarId with
  | none =>
    refine Or.inl (Triple.ends (triple_bind Dev.startObservation_other fun _ => ?_) ⟨hobserved, hstart⟩)
    exact Dev.updateNext_none_every since_steady' (intactAt_unmarked _)
  | some observed =>
    obtain ⟨i, q, front⟩ := observed
    refine Or.inr ⟨i, q, front, rfl, ?_⟩
    have hunmarked (j : Nat) : Unmarked fun e => j = i ∨ Remains (s.entriesAt j) e :=
      ⟨fun e h => h.imp id ((remains_unmarked _).hard e),
        fun e b h => h.imp id ((remains_unmarked _).reported e b)⟩
    have hchange : Triple (EveryEntry (fun e => i = i ∨ Remains (s.entriesAt i) e)
        (Since s.pool.created s.pool.requeued)) (Que.beforeChange w o.now)
        (fun _ => EveryEntry (fun e => i = i ∨ Remains (s.entriesAt i) e) (Once s.pool.requeued))
        (EveryEntry (fun e => i = i ∨ Remains (s.entriesAt i) e) (Once s.pool.requeued)) :=
      beforeChange_every since_steady' (once_steady _) (hunmarked i) o.now
        (fun r hr => ⟨hr.1, Or.inl hr.2.2⟩) (fun _ _ => Or.inl rfl) (requeue_once fun _ => Or.inl rfl)
    have hfront : Triple (fun r => r.observed tarId = some (i, q, front) ∧ r.queues[i]? = some q ∧
        QueuesEvery (fun j e => j = i ∨ Remains (s.entriesAt j) e)
          (Since s.pool.created s.pool.requeued) r) (Dev.startObservation w o tarId obsId)
        (fun _ => QueuesEvery (fun j e => j = i ∨ Remains (s.entriesAt j) e) (Once s.pool.requeued))
        (QueuesEvery (fun j e => j = i ∨ Remains (s.entriesAt j) e) (Once s.pool.requeued)) :=
      Dev.startObservation_front hchange fun _ _ _ h => h
    refine Triple.ends (triple_bind hfront fun _ => Dev.updateNext_none_every (once_steady _) hunmarked)
      ⟨hobserved, SelectorDev.observed_queue hobserved, fun j qj hj e he => ?_, since_self s.pool⟩
    exact Or.inr ⟨e, (entriesAt_of hj).symm ▸ he, Stays.refl e, rfl, rfl⟩

theorem step_of_ends {P : SelectorDev → Prop} {i : SelectorInput} (hs : P s)
    (hhalted : ∀ r : SelectorDev, P r → P { r with halted := true })
    (h : Ends (SelectorDev.serve w i) s (fun _ => P) fun _ => P) : P (s.step w i) := by
  unfold Ends at h
  unfold SelectorDev.step
  split
  · exact hs
  · split
    · rename_i hres
      rw [hres] at h
      exact hhalted _ h
    · rename_i r s' _ hres
      rw [hres] at h
      cases r with
      | error e => exact h
      | ok ret => exact h

theorem step_undisturbed (i : SelectorInput) (h : Harmless w s i) :
    Undisturbed s i.event (s.step w i) ∨ FrontObserved s i.event (s.step w i) := by
  obtain ⟨o, event⟩ := i
  cases event with
  | edit k edit =>
    exact Or.inl (step_of_ends (undisturbed_refl _) (fun _ hr => hr) (editQueue_undisturbed h))
  | next =>
    have hnext := (Dev.updateNext_none_every (w := w) (o := o) since_steady'
      (intactAt_unmarked SelectorEvent.next)).ends (undisturbed_refl (s := s) _)
    exact Or.inl (step_of_ends (undisturbed_refl _) (fun _ hr => hr) hnext)
  | observation tarId obsId =>
    rcases observation_step (w := w) (s := s) (o := o) tarId obsId with hends | ⟨i, q, front, hobs, hends⟩
    · exact Or.inl (step_of_ends (undisturbed_refl _) (fun _ hr => hr) hends)
    · refine Or.inr ⟨tarId, obsId, i, q, front, rfl, hobs, ?_⟩
      refine step_of_ends ⟨fun j qj hj e he => ?_, Or.inl rfl⟩ (fun _ hr => hr) hends
      exact Or.inr ⟨e, (entriesAt_of hj).symm ▸ he, Stays.refl e, rfl, rfl⟩

end Step
/-- **Only observations consume repetitions.** In a run whose edits are all
harmless, no event takes a repetition from an entry, shifts its times or puts it
to the back, unless it is the observation of a front entry; that puts at most one
entry of its queue to the back. Edits set what they ask for. -/
theorem repetitions_by_observations (w : World) (s : SelectorDev) (inputs : List SelectorInput)
    (h : Along (SelectorDev.step w) (Harmless w) s inputs) :
    Along (SelectorDev.step w) (fun s i =>
      Undisturbed s i.event (s.step w i) ∨ FrontObserved s i.event (s.step w i)) s inputs :=
  h.mono fun _ i hi => step_undisturbed i hi

/-- The occasions of the witnesses: in the day, and at night. -/
def morning : Occasion where
  now := 0
  masterState := Status.serverdMorning
  ignoreDay := false
  queueOnly := true
  selEnabled := true
  executor := true
  selectUntil := none
  autoId := -1
  autoBonus := 0

def midnight : Occasion := { morning with now := 3600, masterState := Status.serverdNight }

/-- A target to be observed twice is queued in the day, and at night another one
is queued: the front has one repetition left, at the back of the queue, although
nothing was observed. -/
theorem edit_consumes_repetition :
    ((run (SelectorDev.step World.quiet) (SelectorDev.new 1)
        [⟨morning, .edit 0 (.queue (-1) [some ⟨1000, none, none, 2, none⟩])⟩]).entriesAt 0).map
          (fun e => (e.target.tarId, e.repN)) = [(1000, 2)] ∧
      ((run (SelectorDev.step World.quiet) (SelectorDev.new 1)
        [⟨morning, .edit 0 (.queue (-1) [some ⟨1000, none, none, 2, none⟩])⟩,
          ⟨midnight, .edit 0 (.queue (-1) [some ⟨2000, none, none, -1, none⟩])⟩]).entriesAt 0).map
            (fun e => (e.target.tarId, e.repN)) = [(2000, -1), (1000, 1)] ∧
      ¬ Along (SelectorDev.step World.quiet) (fun s i =>
          Undisturbed s i.event (s.step World.quiet i) ∨ FrontObserved s i.event (s.step World.quiet i))
        (SelectorDev.new 1)
        [⟨morning, .edit 0 (.queue (-1) [some ⟨1000, none, none, 2, none⟩])⟩,
          ⟨midnight, .edit 0 (.queue (-1) [some ⟨2000, none, none, -1, none⟩])⟩] := by
  refine ⟨by decide +kernel, by decide +kernel, fun h => ?_⟩
  rcases h.2.1 with hundisturbed | ⟨tarId, obsId, i, q, front, hevent, -⟩
  · revert hundisturbed
    refine fun h => absurd h.2.2 ?_
    decide +kernel
  · cases hevent

/-- Two targets are queued in the day; at night the first one is observed once,
of twice, and the other one is removed. -/
theorem repetitions_by_observations_night :
    Along (SelectorDev.step World.quiet) (fun s i =>
        Undisturbed s i.event (s.step World.quiet i) ∨ FrontObserved s i.event (s.step World.quiet i))
      (SelectorDev.new 1)
      [⟨morning, .edit 0 (.queue (-1) [some ⟨1000, none, none, 2, none⟩])⟩,
        ⟨morning, .edit 0 (.queue (-1) [some ⟨2000, none, none, -1, none⟩])⟩,
        ⟨midnight, .next⟩, ⟨midnight, .observation 1000 1⟩, ⟨midnight, .edit 0 (.remove 0)⟩] :=
  repetitions_by_observations World.quiet (SelectorDev.new 1) _ (by decide +kernel)

end Rts2.Plan

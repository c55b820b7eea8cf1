import Rts2.Plan.QueueLife

/-! # What holds of every entry

A property of single entries that does not look at their marks, and one of the
objects that a requeue alone could break, survive the operations that only
remove, move and filter. Adding an entry and requeueing the front need the
property of what they put in. -/
namespace Rts2.Plan
open Rts2.Lib

/-- Every entry has the property `p`, and the objects have `Q`. -/
def EveryEntry (p : QueuedTarget → Prop) (Q : Pool → Prop) (s : QueState) : Prop :=
  (∀ e ∈ s.queue.entries, p e) ∧ Q s.pool

/-- The property does not depend on what filtering and selecting note in an
entry. -/
structure Unmarked (p : QueuedTarget → Prop) : Prop where
  hard : ∀ e, p e → p { e with hard := false }
  reported : ∀ e b, p e → p { e with unobservableReported := b }

/-- The property of the objects that only a requeue may change. -/
structure Steady (Q : Pool → Prop) : Prop where
  asked : ∀ pool n, Q pool → Q { pool with asked := n }
  created : ∀ pool, Q pool → Q { pool with created := pool.created + 1 }
  delete : ∀ pool t, Q pool → Q (pool.delete t)
  check : ∀ pool c, (∀ front current, c ≠ .requeue front current) → Q pool → Q (pool.check c)

section Operations
variable {w : World} {p : QueuedTarget → Prop} {Q : Pool → Prop}

theorem modifyEntries_every {f : List QueuedTarget → List QueuedTarget}
    (hf : ∀ l, (∀ e ∈ l, p e) → ∀ e ∈ f l, p e) :
    Keeps (EveryEntry p Q) (Que.modifyEntries f) :=
  keeps_modify _ fun s hs => ⟨hf s.queue.entries hs.1, hs.2⟩

/-- The entries are some of those there were. -/
theorem subset_every {f : List QueuedTarget → List QueuedTarget} (hf : ∀ l, f l ⊆ l) :
    Keeps (EveryEntry p Q) (Que.modifyEntries f) :=
  modifyEntries_every fun l hl e he => hl e (hf l he)

theorem setCurrentTarget_every (ct : Option Target) :
    Keeps (EveryEntry p Q) (Que.setCurrentTarget ct) :=
  keeps_modify _ fun _ hs => hs

section Objects
variable (hQ : Steady Q)
include hQ

theorem ask_every {α : Type} (question : Nat → α) : Keeps (EveryEntry p Q) (Que.ask question) :=
  keeps_bind keeps_get fun _ => keeps_bind (keeps_modify _ fun _ hs => ⟨hs.1, hQ.asked _ _ hs.2⟩)
    fun _ => keeps_pure _

theorem dbWrite_every : Keeps (EveryEntry p Q) (Que.dbWrite w) :=
  keeps_bind (ask_every hQ _) fun _ => keeps_ite (keeps_throw _) (keeps_pure _)

theorem delete_every (t : Target) : Keeps (EveryEntry p Q) (Que.delete t) :=
  keeps_modify _ fun _ hs => ⟨hs.1, hQ.delete _ _ hs.2⟩

theorem removeRecord_every (gone : Bool) : Keeps (EveryEntry p Q) (Que.removeRecord w gone) := by
  have hcheck : Keeps (EveryEntry p Q) (Que.check .recordStays) :=
    keeps_modify _ fun s hs => ⟨hs.1, hQ.check _ _ (fun _ _ h => nomatch h) hs.2⟩
  refine keeps_bind (ask_every hQ _) fun _ => keeps_ite ?_ (keeps_pure _)
  exact keeps_ite (keeps_bind hcheck fun _ => keeps_throw _) (keeps_throw _)

theorem updateVals_every : Keeps (EveryEntry p Q) (Que.updateVals w) :=
  keeps_bind keeps_get fun _ => keeps_ite (keeps_pure _) (dbWrite_every hQ)

theorem release_every (t : Target) : Keeps (EveryEntry p Q) (Que.release t) :=
  keeps_bind keeps_get fun _ => keeps_ite (setCurrentTarget_every _) (delete_every hQ _)

theorem removeEntry_every (i : Nat) : Keeps (EveryEntry p Q) (Que.removeEntry w i) := by
  have herase : Keeps (EveryEntry p Q) (Que.modifyEntries (·.eraseIdx i)) :=
    subset_every fun l => (List.eraseIdx_sublist ..).subset
  refine keeps_bind keeps_get fun s => ?_
  cases s.queue.entries[i]? with
  | none => exact keeps_pure _
  | some e =>
    exact keeps_bind (release_every hQ _) fun _ =>
      keeps_ite herase (keeps_bind (removeRecord_every hQ _) fun _ => herase)

theorem removeIndex_every (index : Int) : Keeps (EveryEntry p Q) (Que.removeIndex w index) :=
  keeps_bind keeps_get fun _ => keeps_ite (keeps_pure _)
    (keeps_bind (removeEntry_every hQ _) fun _ => keeps_bind (updateVals_every hQ) fun _ =>
      keeps_pure _)

theorem moveIndex_every (index newindex : Int) :
    Keeps (EveryEntry p Q) (Que.moveIndex w index newindex) :=
  keeps_bind keeps_get fun _ => keeps_ite (keeps_pure _)
    (keeps_bind (subset_every fun l => (splice_perm _ _ l).subset) fun _ =>
      keeps_bind (updateVals_every hQ) fun _ => keeps_pure _)

/-! ## Filters -/

theorem removeFirst_every (n : Nat) : Keeps (EveryEntry p Q) (Que.removeFirst w n) := by
  induction n with
  | zero => exact keeps_pure _
  | succ n ih => exact keeps_bind (removeEntry_every hQ 0) fun _ => ih

theorem expireBefore_every (now : Int) (l : List QueuedTarget) :
    ∀ n, Keeps (EveryEntry p Q) (Que.expireBefore w now n l) := by
  induction l with
  | nil => exact fun n => keeps_pure _
  | cons e rest ih =>
    exact fun n => keeps_ite (keeps_bind (removeFirst_every hQ n) fun _ => ih 1) (ih _)

theorem expire_every (sky : Sky) (now : Int) (l : List QueuedTarget) :
    ∀ i, Keeps (EveryEntry p Q) (Que.expire w sky now i l) := by
  induction l with
  | nil => exact fun i => keeps_pure _
  | cons e rest ih =>
    exact fun i => keeps_bind keeps_get fun _ =>
      keeps_ite (keeps_bind (removeEntry_every hQ i) fun _ => ih i) (ih _)

theorem filterExpired_every (sky : Sky) (now : Int) :
    Keeps (EveryEntry p Q) (Que.filterExpired w sky now) := by
  have hall : Keeps (EveryEntry p Q) (do Que.expire w sky now 0 (← get).queue.entries) :=
    keeps_bind keeps_get fun s => expire_every hQ sky now _ 0
  refine keeps_bind keeps_get fun s => keeps_ite (keeps_bind keeps_get fun s => ?_) hall
  exact keeps_bind (expireBefore_every hQ now _ 0) fun _ => hall

variable (hp : Unmarked p)
include hp

theorem filterUnobservable_every (sky : Sky) (now : Int) (maxLength : Option Int)
    (removeObserved : Bool) (l : List QueuedTarget) :
    ∀ skipped : List QueuedTarget, (∀ e ∈ skipped, p e) → (∀ e ∈ l, p e) →
      Triple (EveryEntry p Q) (Que.filterUnobservable w sky now maxLength removeObserved l skipped)
        (fun skipped s => (∀ e ∈ skipped, p e) ∧ EveryEntry p Q s) (EveryEntry p Q) := by
  have htail : Keeps (EveryEntry p Q) (Que.modifyEntries List.tail) :=
    subset_every fun l => (List.tail_sublist l).subset
  induction l with
  | nil => exact fun skipped hskipped _ => triple_pure _ fun _ hs => ⟨hskipped, hs⟩
  | cons e rest ih =>
    intro skipped hskipped hl
    have hrest : ∀ e ∈ rest, p e := fun x hx => hl x (List.mem_cons_of_mem _ hx)
    have hdone : Triple (EveryEntry p Q) (pure skipped : Que (List QueuedTarget))
        (fun skipped s => (∀ e ∈ skipped, p e) ∧ EveryEntry p Q s) (EveryEntry p Q) :=
      triple_pure _ fun _ hs => ⟨hskipped, hs⟩
    refine triple_bind keeps_get fun s => triple_ite (fun _ => triple_ite (fun _ => ?_) fun _ => hdone)
      fun _ => triple_ite (fun _ => ?_) fun _ => ?_
    · refine triple_bind (modifyEntries_every fun l hl => ?_) fun _ => hdone
      cases l with
      | nil => exact hl
      | cons a l =>
        obtain ⟨ha, hl⟩ := List.forall_mem_cons.mp hl
        exact List.forall_mem_cons.mpr ⟨hp.reported a false ha, hl⟩
    · exact triple_bind (removeRecord_every hQ false) fun _ => triple_bind htail fun _ =>
        ih skipped hskipped hrest
    · refine triple_bind htail fun _ => ih _ (fun x hx => ?_) hrest
      rcases List.mem_append.mp hx with hx | hx
      · exact hskipped x hx
      · rw [List.mem_singleton.mp hx]
        exact hp.reported e true (hl e (List.mem_cons_self ..))

theorem filter_every (now : Int) (maxLength : Option Int) (removeObserved : Bool) :
    Keeps (EveryEntry p Q) (Que.filter w now maxLength removeObserved) := by
  refine keeps_bind (ask_every hQ _) fun sky => keeps_bind (filterExpired_every hQ sky now) fun _ => ?_
  refine keeps_bind keeps_get fun s => keeps_ite (keeps_pure _) ?_
  refine triple_bind (R := fun r s => (∀ e ∈ r.queue.entries, p e) ∧ EveryEntry p Q s)
    (triple_get fun s hs => ⟨hs.1, hs⟩) fun r s hs => ?_
  refine triple_bind (filterUnobservable_every hQ hp sky now maxLength removeObserved _ []
    (fun _ he => absurd he List.not_mem_nil) hs.1) (fun skipped => ?_) s hs.2
  refine triple_bind (R := fun r s => (∀ e ∈ skipped, p e) ∧ (∀ e ∈ r.queue.entries, p e) ∧
    EveryEntry p Q s) (triple_get fun s hs => ⟨hs.1, hs.2.1, hs.2⟩) fun r s hs => ?_
  obtain ⟨hskipped, hr, hs⟩ := hs
  have hdone {α : Type} (a : α) (f : List QueuedTarget → List QueuedTarget)
      (hf : ∀ l, (∀ e ∈ l, p e) → ∀ e ∈ f l, p e) : Keeps (EveryEntry p Q) (do
        Que.modifyEntries f
        Que.updateVals w
        return a) :=
    keeps_bind (modifyEntries_every hf) fun _ => keeps_bind (updateVals_every hQ) fun _ =>
      keeps_pure _
  have hback : ∀ l : List QueuedTarget, (∀ e ∈ l, p e) → ∀ e ∈ skipped ++ l, p e := by
    intro l hl e he
    rcases List.mem_append.mp he with he | he
    · exact hskipped e he
    · exact hl e he
  revert hr
  cases r.queue.entries with
  | nil => exact fun _ => hdone _ _ hback s hs
  | cons front rest =>
    intro hr
    refine keeps_ite (hdone _ _ fun l _ e he => ?_) (hdone _ _ hback) s hs
    rcases List.mem_cons.mp he with rfl | he
    · exact hr e (List.mem_cons_self ..)
    · exact hback rest (fun x hx => hr x (List.mem_cons_of_mem _ hx)) e he

omit hp

/-! ## The front, and new entries -/

theorem sortQueue_every : Keeps (EveryEntry p Q) (Que.sortQueue w) := by
  have hsort : Keeps (EveryEntry p Q) (do
      let order ← Que.ask w.order
      Que.modifyEntries order) := by
    refine triple_bind (R := fun order s => (∀ l, (order l).Perm l) ∧ EveryEntry p Q s)
      (fun s hs => ?_) fun order => triple_modify _ fun s hs => ?_
    · exact ⟨w.order_perm _, hs.1, hQ.asked _ _ hs.2⟩
    · exact ⟨fun e he => hs.2.1 e ((hs.1 s.queue.entries).mem_iff.mp he), hs.2.2⟩
  refine keeps_bind keeps_get fun s => ?_
  cases s.queue.values.queueType with
  | fifo => exact keeps_pure _
  | circular => exact keeps_pure _
  | highest => exact hsort
  | westeast => exact hsort
  | westeastMeridian => exact hsort
  | outOfLimits => exact hsort

theorem createTarget_every (tarId : Int) : Keeps (EveryEntry p Q) (Que.createTarget w tarId) := by
  refine keeps_bind (ask_every hQ _) fun answer => ?_
  cases answer with
  | none => exact keeps_throw _
  | some type =>
    exact keeps_bind keeps_get fun _ =>
      keeps_bind (keeps_modify _ fun _ hs => ⟨hs.1, hQ.created _ hs.2⟩) fun _ => keeps_pure _

theorem newEntry_every (nt : Target) (tStart tEnd : Option Int) (repN : Int)
    (repSeparation : Option Int) (planId : Int) (hard : Bool) :
    Triple (EveryEntry p Q) (Que.newEntry w nt tStart tEnd repN repSeparation planId hard)
      (fun qt s => (∃ qid, qt = ⟨nt, qid, planId, tStart, tEnd, repN, repSeparation, hard, false⟩) ∧
        EveryEntry p Q s) (EveryEntry p Q) := by
  refine triple_bind (ask_every hQ _) fun qid => ?_
  cases qid with
  | none => exact triple_throw _ fun _ hs => hs
  | some qid =>
    exact triple_bind (dbWrite_every hQ) fun _ => triple_pure _ fun _ hs => ⟨⟨qid, rfl⟩, hs⟩

/-- A new entry goes into the queue somewhere. -/
theorem insert_every {α : Type} {qt : QueuedTarget} (hqt : p qt) (a : α)
    {f : List QueuedTarget → List QueuedTarget} (hf : ∀ l, f l ⊆ qt :: l) :
    Keeps (EveryEntry p Q) (do
      Que.modifyEntries f
      Que.updateVals w
      return a) := by
  refine keeps_bind (modifyEntries_every fun l hl e he => ?_) fun _ =>
    keeps_bind (updateVals_every hQ) fun _ => keeps_pure _
  rcases List.mem_cons.mp (hf l he) with rfl | he
  · exact hqt
  · exact hl e he

omit hQ in
theorem insertIdx_subset (l : List QueuedTarget) (i : Nat) (qt : QueuedTarget) :
    l.insertIdx i qt ⊆ qt :: l := by
  intro e he
  rcases List.eq_or_mem_of_mem_insertIdx he with rfl | he
  · exact List.mem_cons_self ..
  · exact List.mem_cons_of_mem _ he

theorem addFront_every (nt : Target) (tStart tEnd : Option Int)
    (hnew : ∀ qid, p ⟨nt, qid, -1, tStart, tEnd, -1, none, false, false⟩) :
    Keeps (EveryEntry p Q) (Que.addFront w nt tStart tEnd) := by
  refine triple_bind (newEntry_every hQ nt tStart tEnd (-1) none (-1) false) fun qt s hs => ?_
  obtain ⟨⟨qid, rfl⟩, hs⟩ := hs
  exact insert_every hQ (hnew qid) _ (fun _ => List.Subset.refl _) s hs

theorem addTarget_every (nt : Target) (tStart tEnd : Option Int) (index repN : Int)
    (repSeparation : Option Int) (planId : Int) (hard : Bool)
    (hnew : ∀ qid, p ⟨nt, qid, planId, tStart, tEnd, repN, repSeparation, hard, false⟩) :
    Keeps (EveryEntry p Q) (Que.addTarget w nt tStart tEnd index repN repSeparation planId hard) := by
  refine triple_bind (newEntry_every hQ nt tStart tEnd repN repSeparation planId hard)
    fun qt s hs => ?_
  obtain ⟨⟨qid, rfl⟩, hs⟩ := hs
  exact insert_every hQ (hnew qid) _ (fun l => insertIdx_subset l _ _) s hs

/-- The front goes to the back with another target. -/
theorem requeue_every (hp : ∀ e nt, p e → p (e.withTarget nt))
    (hcheck : ∀ pool front current, Q pool → Q (pool.check (.requeue front current))) :
    Keeps (EveryEntry p Q) (Que.requeue w) := by
  refine triple_bind (R := fun r s => (∀ e ∈ r.queue.entries, p e) ∧ EveryEntry p Q s)
    (triple_get fun s hs => ⟨hs.1, hs⟩) fun r s hs => ?_
  obtain ⟨hr, hs⟩ := hs
  revert hr
  cases r.queue.entries with
  | nil => exact fun _ => hs
  | cons front rest =>
    intro hr
    refine keeps_bind (createTarget_every hQ _) (fun nt => ?_) s hs
    refine keeps_bind (modifyEntries_every fun l hl e he => ?_) fun _ => ?_
    · rcases List.mem_append.mp he with he | he
      · exact hl e he
      · rw [List.mem_singleton.mp he]
        exact hp front nt (hr front (List.mem_cons_self ..))
    · refine keeps_bind keeps_get fun _ =>
        keeps_bind (keeps_modify _ fun _ hs => ⟨hs.1, hcheck _ _ _ hs.2⟩) fun _ => ?_
      exact keeps_bind (delete_every hQ _) fun _ => subset_every fun l => (List.tail_sublist l).subset

/-- Where the front may go to the back, another property may hold after it. -/
theorem beforeChange_every {p' : QueuedTarget → Prop} {Q' : Pool → Prop} (hQ' : Steady Q')
    (hp' : Unmarked p') (now : Int) (hweak : ∀ s, EveryEntry p Q s → EveryEntry p' Q' s)
    (hrepeated : ∀ e, p e → p (e.repeated now))
    (hrequeue : Triple (EveryEntry p Q) (Que.requeue w) (fun _ => EveryEntry p' Q')
      (EveryEntry p' Q')) :
    Triple (EveryEntry p Q) (Que.beforeChange w now) (fun _ => EveryEntry p' Q')
      (EveryEntry p' Q') := by
  have hfilter : Keeps (EveryEntry p' Q') (do discard (Que.filter w now none true)) :=
    triple_discard (filter_every hQ' hp' now none true)
  have hfront : Triple (EveryEntry p Q) (do
      Que.requeue w
      discard (Que.filter w now none true)) (fun _ => EveryEntry p' Q') (EveryEntry p' Q') :=
    triple_bind hrequeue fun _ => hfilter
  have hrepeat : Keeps (EveryEntry p Q) (Que.modifyEntries (·.modifyHead (·.repeated now))) := by
    refine modifyEntries_every fun l hl => ?_
    cases l with
    | nil => exact hl
    | cons a l =>
      obtain ⟨ha, hl⟩ := List.forall_mem_cons.mp hl
      exact List.forall_mem_cons.mpr ⟨hrepeated a ha, hl⟩
  have hagain : Triple (EveryEntry p Q) (do
      Que.modifyEntries (·.modifyHead (·.repeated now))
      Que.requeue w
      discard (Que.filter w now none true)) (fun _ => EveryEntry p' Q') (EveryEntry p' Q') :=
    triple_bind (hrepeat.mono (fun _ hs => hs) (fun _ _ hs => hs) hweak) fun _ => hfront
  refine triple_bind ((sortQueue_every hQ).mono (fun _ hs => hs) (fun _ _ hs => hs) hweak) fun _ => ?_
  refine triple_bind triple_read fun s => ?_
  cases s.queue.entries with
  | nil => exact hfilter.pre hweak
  | cons front rest =>
    refine triple_bind triple_read fun s => triple_ite (fun _ => ?_) fun _ => ?_
    · exact triple_ite (fun _ => hagain) fun _ => hfront
    · exact triple_ite (fun _ => hagain) fun _ => hfilter.pre hweak

/-- The choice may take the mark of a hard interruption away. -/
theorem selectNextObservation_every (hp : Unmarked p) (now : Int) (nextTime nextLength : Option Int)
    (removeObserved : Bool) :
    Keeps (EveryEntry p Q) (Que.selectNextObservation w now nextTime nextLength removeObserved) := by
  have hfront : Keeps (EveryEntry p Q) Que.front := by
    refine keeps_bind keeps_get fun s => ?_
    cases s.queue.entries with
    | nil => exact keeps_throw _
    | cons front rest => exact keeps_pure _
  have hhard : Keeps (EveryEntry p Q)
      (Que.modifyEntries (·.modifyHead fun e => { e with hard := false })) := by
    refine modifyEntries_every fun l hl => ?_
    cases l with
    | nil => exact hl
    | cons a l =>
      obtain ⟨ha, hl⟩ := List.forall_mem_cons.mp hl
      exact List.forall_mem_cons.mpr ⟨hp.hard a ha, hl⟩
  have hselect (sky : Sky) : Keeps (EveryEntry p Q) (Que.selectFront sky nextLength) := by
    refine keeps_bind hfront fun e => ?_
    cases nextLength with
    | none => exact keeps_pure _
    | some length =>
      dsimp only
      cases sky.scriptLength e.target with
      | none => exact keeps_throw _
      | some tl =>
        refine keeps_bind keeps_get fun s => keeps_ite (keeps_ite (keeps_pure _) ?_) (keeps_pure _)
        exact keeps_bind hhard fun _ => keeps_pure _
  have htimer (tStart : Option Int) : Keeps (EveryEntry p Q) (Que.addTimer (now + 60) tStart) := by
    refine keeps_bind keeps_get fun s => keeps_ite (keeps_modify _ fun _ hs => hs) ?_
    exact keeps_bind hfront fun e => keeps_ite (keeps_modify _ fun _ hs => hs) (keeps_pure _)
  refine keeps_bind keeps_get fun s => keeps_ite (keeps_pure _) ?_
  refine keeps_bind (filter_every hQ hp _ _ _) fun r => ?_
  refine keeps_bind (keeps_ite (keeps_bind hfront fun _ => keeps_pure _) (keeps_pure _)) fun ready => ?_
  refine keeps_ite ?_ ?_
  · exact keeps_bind (ask_every hQ _) fun sky => keeps_bind (hselect sky) fun _ => keeps_pure _
  · exact keeps_bind (htimer _) fun _ => keeps_ite (keeps_pure _) (keeps_pure _)

theorem clearNext_every (hp : ∀ e, p e → p { e with target := Target.null }) :
    Keeps (EveryEntry p Q) (Que.clearNext w) := by
  have hnull (i : Nat) : Keeps (EveryEntry p Q)
      (Que.modifyEntries (·.modify i fun e => { e with target := Target.null })) := by
    refine modifyEntries_every fun l hl e he => ?_
    obtain ⟨j, hj, rfl⟩ := List.getElem_of_mem he
    rw [List.length_modify] at hj
    have hj' := hl l[j] (List.getElem_mem hj)
    rw [List.getElem_modify]
    split
    · exact hp _ hj'
    · exact hj'
  have hclear (l : List QueuedTarget) : ∀ i, Keeps (EveryEntry p Q) (Que.clearFrom w i l) := by
    induction l with
    | nil => exact fun i => keeps_pure _
    | cons e rest ih =>
      intro i
      have hrest : Keeps (EveryEntry p Q) (do
          Que.removeRecord w true
          Que.clearFrom w (i + 1) rest) :=
        keeps_bind (removeRecord_every hQ true) fun _ => ih (i + 1)
      exact keeps_bind keeps_get fun s => keeps_ite (keeps_bind (hnull i) fun _ => hrest)
        (keeps_bind (delete_every hQ _) fun _ => hrest)
  refine keeps_bind keeps_get fun s => keeps_bind (hclear _ 0) fun _ => ?_
  exact keeps_bind (subset_every fun l => List.nil_subset l) fun _ => updateVals_every hQ

end Objects
end Operations
end Rts2.Plan

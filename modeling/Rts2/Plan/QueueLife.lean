import Rts2.Plan.TargetLife

/-! # What the operations of a queue do to its targets

Each operation of `TargetQueue` and `ExecutorQueue` leaves the targets of the
entries alive and different, when it ends and where it throws. The operations
that delete need to know the current target; the others do not. -/
namespace Rts2.Plan
open Rts2.Lib

variable {c : Option Target} {held : List (Nat × Bool)} {extra extra' ts ts' : List Target}
  {P : QueState → Prop} {t : Target} {s : QueState}

section Operations
variable (w : World)
open Que

theorem ask_triple {α : Type} (question : Nat → α) (hP : Calm P) {E : QueState → Prop} :
    Triple P (ask question) (fun _ => P) E := by
  refine triple_bind triple_read fun s => ?_
  refine triple_bind (R := fun _ => P) (triple_modify _ fun s hs => hP s _ hs) fun _ => ?_
  exact triple_pure _ fun _ hs => hs

theorem dbWrite_triple (hP : Calm P) (hE : ∀ s, P s → Kept c held s) :
    Triple P (dbWrite w) (fun _ => P) (Kept c held) := by
  refine triple_bind (ask_triple _ hP) fun failed => ?_
  exact triple_ite (fun _ => triple_throw _ hE) fun _ => triple_pure _ fun _ hs => hs

/-- Where the record stays although the target is gone, nothing is promised. -/
theorem removeRecord_triple (gone : Bool) (hP : Calm P)
    (hE : gone = false → ∀ s, P s → Kept c held s) :
    Triple P (removeRecord w gone) (fun _ => P) (Kept c held) := by
  refine triple_bind (ask_triple _ hP) fun failed => ?_
  refine triple_ite (fun _ => ?_) fun _ => triple_pure _ fun _ hs => hs
  cases gone with
  | false => exact triple_throw _ (hE rfl)
  | true =>
    refine triple_bind (R := fun _ => Kept c held)
      (triple_modify _ fun s _ hc => ?_) fun _ => triple_throw _ fun _ h => h
    exact absurd (hc .recordStays (List.mem_cons_self ..)) id

theorem updateVals_triple (hP : Calm P) (hE : ∀ s, P s → Kept c held s) :
    Triple P (updateVals w) (fun _ => P) (Kept c held) := by
  refine triple_bind triple_read fun s => ?_
  exact triple_ite (fun _ => triple_pure _ fun _ hs => hs) fun _ => dbWrite_triple w hP hE

/-- The entries change, and their targets are some of those there were. -/
theorem modifyEntries_triple (f : List QueuedTarget → List QueuedTarget) {E : QueState → Prop}
    (hs : ∀ l, (extra' ++ targets (f l)).Subperm (extra ++ targets l)) :
    Triple (Queued c held extra) (modifyEntries f) (fun _ => Queued c held extra') E :=
  triple_modify _ fun s h => InOrder.withEntries (InOrder.sub h (hs s.queue.entries)) _

/-- Creating a target leaves the queue alone. -/
theorem createTarget_triple (tarId : Int) (q : ExecutorQueue) :
    Triple (fun s => Queued c held extra s ∧ s.queue = q) (createTarget w tarId)
      (fun nt s => Queued c ((nt.addr, true) :: held) extra s ∧ s.queue = q)
      (Kept c held) := by
  refine triple_bind (ask_triple _ (Queued.calm.and (calm_queue q))) fun answer => ?_
  cases answer with
  | none => exact triple_throw _ fun s hs => hs.1.kept
  | some type =>
    refine triple_bind (R := fun r s => r = s ∧ Queued c held extra s ∧ s.queue = q)
      (triple_get fun s hs => ⟨rfl, hs⟩) fun r => ?_
    refine triple_bind (R := fun _ s => Queued c ((r.pool.created, true) :: held) extra s ∧
      s.queue = q) (triple_modify _ fun s hs => ?_) fun _ => triple_pure _ fun _ hs => hs
    obtain ⟨rfl, hq, hqueue⟩ := hs
    refine ⟨fun hc => ?_, hqueue⟩
    obtain ⟨hl, hcur, hg⟩ := hq hc
    exact ⟨hl.create, hcur, hg⟩

/-- A queue operation in the ordinary case. -/
abbrev Orderly {α : Type} (c : Option Target) (held : List (Nat × Bool)) (x : Que α) : Prop :=
  Triple (Queued c held []) x (fun _ => Queued c held []) (Kept c held)

theorem release_triple (q : ExecutorQueue) (hperm : (targets q.entries).Perm (t :: ts)) :
    Triple (fun s => Queued c held [] s ∧ s.queue = q) (release t)
      (fun _ s => InOrder c held ts s ∧ s.queue.entries = q.entries ∧
        (PointsTo q.currentTarget t → Kept c held s)) (Kept c held) := by
  refine triple_bind (R := fun r s => r = s ∧ Queued c held [] s ∧ s.queue = q)
    (triple_get fun s hs => ⟨rfl, hs⟩) fun r => ?_
  refine triple_ite (fun hp => triple_modify _ fun s hs => ?_)
    fun hp => triple_modify _ fun s hs => ?_
  · obtain ⟨rfl, hq, rfl⟩ := hs
    refine ⟨fun hc => ?_, rfl, fun _ => hq.kept⟩
    obtain ⟨hl, hcur, hg⟩ := InOrder.sub hq hperm.symm.subperm hc
    refine ⟨hl.sublist (List.sublist_cons_self ..), hcur, fun t' ht' hp' => ?_⟩
    have hsame := (hg t' (List.mem_cons_of_mem _ ht') hp').symm.trans hp
    have hnodup := (List.nodup_append.mp hl.nodup).2.1
    refine absurd ?_ (List.nodup_cons.mp hnodup).1
    rw [← Option.some.inj hsame]
    exact List.mem_map_of_mem ht'
  · obtain ⟨rfl, hq, rfl⟩ := hs
    refine ⟨InOrder.delete (InOrder.sub hq hperm.symm.subperm) fun hc hcur => hp ?_, rfl,
      fun h => absurd h hp⟩
    obtain ⟨hl, hcur', hg⟩ := InOrder.sub hq hperm.symm.subperm hc
    exact hg t (List.mem_cons_self ..) (hcur' ▸ hcur)

theorem targets_eraseIdx_perm {l : List QueuedTarget} {i : Nat} {e : QueuedTarget}
    (he : l[i]? = some e) : (targets l).Perm (e.target :: targets (l.eraseIdx i)) := by
  obtain ⟨hi, rfl⟩ := List.getElem?_eq_some_iff.mp he
  exact (List.getElem_cons_eraseIdx_perm hi).symm.map _

/-- **Removing an entry.** -/
theorem removeEntry_triple (i : Nat) : Orderly c held (removeEntry w i) := by
  refine triple_bind (R := fun r s => r = s ∧ Queued c held [] s)
    (triple_get fun s hs => ⟨rfl, hs⟩) fun r => ?_
  cases he : r.queue.entries[i]? with
  | none =>
    exact triple_pure _ fun s hs => hs.2
  | some e =>
    refine triple_bind ((release_triple r.queue (targets_eraseIdx_perm he)).pre
      fun s hs => ⟨hs.2, hs.1 ▸ rfl⟩) fun _ => ?_
    have herase : Triple (fun s => InOrder c held (targets (r.queue.entries.eraseIdx i)) s ∧
          s.queue.entries = r.queue.entries ∧
          (PointsTo r.queue.currentTarget e.target → Kept c held s))
        (modifyEntries (·.eraseIdx i)) (fun _ => Queued c held []) (Kept c held) := by
      refine triple_modify _ fun s hs => ?_
      obtain ⟨ho, hentries, -⟩ := hs
      rw [hentries]
      exact ho
    refine triple_ite (fun _ => herase) fun _ => ?_
    refine triple_bind (removeRecord_triple w _ ?_ ?_) fun _ => herase
    · intro s n hs
      exact ⟨InOrder.calm s n hs.1, hs.2.1, fun hp hc => by
        obtain ⟨hl, hcur⟩ := hs.2.2 hp hc
        exact ⟨hl.asked n, hcur⟩⟩
    · intro hgone s hs
      exact hs.2.2 (by simpa using hgone)

theorem removeFirst_triple (n : Nat) : Orderly c held (removeFirst w n) := by
  induction n with
  | zero => exact triple_pure _ fun _ hs => hs
  | succ n ih => exact triple_bind (removeEntry_triple w 0) fun _ => ih

theorem expireBefore_triple (now : Int) (l : List QueuedTarget) :
    ∀ n, Orderly c held (expireBefore w now n l) := by
  induction l with
  | nil => exact fun n => triple_pure _ fun _ hs => hs
  | cons e rest ih =>
    intro n
    refine triple_ite (fun _ => ?_) fun _ => ih _
    exact triple_bind (removeFirst_triple w n) fun _ => ih 1

theorem expire_triple (sky : Sky) (now : Int) (l : List QueuedTarget) :
    ∀ i, Orderly c held (expire w sky now i l) := by
  induction l with
  | nil => exact fun i => triple_pure _ fun _ hs => hs
  | cons e rest ih =>
    intro i
    refine triple_bind triple_read fun s => triple_ite (fun _ => ?_) fun _ => ih _
    exact triple_bind (removeEntry_triple w i) fun _ => ih i

theorem filterExpired_triple (sky : Sky) (now : Int) :
    Orderly c held (filterExpired w sky now) := by
  have hexpire : Orderly c held (do expire w sky now 0 (← get).queue.entries) :=
    triple_bind triple_read fun s => expire_triple w sky now _ 0
  refine triple_bind triple_read fun s => triple_ite (fun _ => ?_) fun _ => hexpire
  refine triple_bind triple_read fun s => ?_
  exact triple_bind (expireBefore_triple w now _ 0) fun _ => hexpire

/-- The front entry leaves the queue, its target perhaps for `extra'`. -/
theorem tail_triple {e : QueuedTarget} {rest : List QueuedTarget} {E : QueState → Prop}
    (hs : (extra' ++ targets rest).Subperm (extra ++ e.target :: targets rest)) :
    Triple (fun s => Queued c held extra s ∧ s.queue.entries = e :: rest)
      (modifyEntries List.tail)
      (fun _ s => Queued c held extra' s ∧ s.queue.entries = rest) E := by
  refine triple_modify _ fun s h => ?_
  obtain ⟨hq, hentries⟩ := h
  refine ⟨InOrder.withEntries ?_ _, by rw [hentries]; rfl⟩
  rw [hentries]
  rw [Queued, hentries] at hq
  exact hq.sub hs

theorem filterUnobservable_triple (sky : Sky) (now : Int) (maxLength : Option Int)
    (removeObserved : Bool) (l : List QueuedTarget) :
    ∀ skipped, Triple (fun s => Queued c held (targets skipped) s ∧ s.queue.entries = l)
      (filterUnobservable w sky now maxLength removeObserved l skipped)
      (fun skipped' => Queued c held (targets skipped')) (Kept c held) := by
  induction l with
  | nil => exact fun skipped => triple_pure _ fun _ hs => hs.1
  | cons e rest ih =>
    intro skipped
    have hcalm : Calm fun s => Queued c held (targets skipped) s ∧ s.queue.entries = e :: rest :=
      fun s n hs => ⟨Queued.calm s n hs.1, hs.2⟩
    refine triple_bind triple_read fun s => ?_
    refine triple_ite (fun _ => ?_) fun _ => triple_ite (fun _ => ?_) fun _ => ?_
    · refine triple_ite (fun _ => ?_) fun _ => triple_pure _ fun _ hs => hs.1
      refine triple_bind ((modifyEntries_triple _ fun l => ?_).pre fun s hs => hs.1) fun _ =>
        triple_pure _ fun _ hs => hs
      cases l with
      | nil => exact List.Subperm.refl _
      | cons e l => exact List.Subperm.refl _
    · refine triple_bind (removeRecord_triple w false hcalm fun _ s hs => hs.1.kept) fun _ => ?_
      refine triple_bind (tail_triple (List.Sublist.subperm ?_)) fun _ => ih skipped
      exact (List.sublist_cons_self ..).append_left _
    · refine triple_bind (tail_triple (List.Perm.subperm ?_)) fun _ => ih _
      simp [targets]

/-- **Filtering** leaves a queue in order. -/
theorem filter_triple (now : Int) (maxLength : Option Int) (removeObserved : Bool) :
    Orderly c held (filter w now maxLength removeObserved) := by
  refine triple_bind (ask_triple _ Queued.calm) fun sky => ?_
  refine triple_bind (filterExpired_triple w sky now) fun _ => ?_
  refine triple_bind triple_read fun s => triple_ite (fun _ => triple_pure _ fun _ hs => hs)
    fun _ => ?_
  refine triple_bind (R := fun r s => Queued c held [] s ∧ s.queue.entries = r.queue.entries)
    (triple_get fun s hs => ⟨hs, rfl⟩) fun s => ?_
  refine triple_bind (filterUnobservable_triple w sky now maxLength removeObserved _ [])
    fun skipped => ?_
  refine triple_bind (R := fun r s => Queued c held (targets skipped) s ∧
    s.queue.entries = r.queue.entries) (triple_get fun s hs => ⟨hs, rfl⟩) fun r => ?_
  have hdone (b : Bool) (start : Option Int) : Orderly c held (do
      updateVals w
      return (b, start)) :=
    triple_bind (updateVals_triple w Queued.calm fun s hs => hs.kept) fun _ =>
      triple_pure _ fun _ hs => hs
  have hback : Triple (fun s => Queued c held (targets skipped) s ∧
      s.queue.entries = r.queue.entries) (modifyEntries (skipped ++ ·))
      (fun _ => Queued c held []) (Kept c held) := by
    refine (modifyEntries_triple _ fun l => ?_).pre fun s hs => hs.1
    rw [targets_append]
    exact List.Subperm.refl _
  cases hr : r.queue.entries with
  | nil => exact triple_bind (hr ▸ hback) fun _ => hdone _ _
  | cons front rest =>
    refine triple_ite (fun _ => ?_) fun _ => triple_bind (hr ▸ hback) fun _ => hdone _ _
    refine triple_bind (triple_modify _ fun s hs => ?_) fun _ => hdone _ _
    refine InOrder.withEntries (InOrder.sub hs.1 ?_) _
    rw [hs.2, targets_cons, targets_cons, targets_append]
    exact List.perm_middle.symm.subperm

theorem sortQueue_triple : Orderly c held (sortQueue w) := by
  have hsort : Orderly c held (do
      let order ← ask w.order
      modifyEntries order) := by
    refine triple_bind (R := fun order s => Queued c held [] s ∧ ∀ l, (order l).Perm l) ?_
      fun order => triple_modify _ fun s hs => ?_
    · intro s hs
      exact ⟨Queued.calm s _ hs, w.order_perm _⟩
    · exact InOrder.withEntries (InOrder.sub hs.1 ((hs.2 _).map _).subperm) _
  refine triple_bind triple_read fun s => ?_
  cases s.queue.values.queueType with
  | fifo => exact triple_pure _ fun _ hs => hs
  | circular => exact triple_pure _ fun _ hs => hs
  | highest => exact hsort
  | westeast => exact hsort
  | westeastMeridian => exact hsort
  | outOfLimits => exact hsort

/-- The new target of the front entry is the queue's, and the old one is deleted
by the check that allows it. -/
theorem requeue_triple : Orderly c held (requeue w) := by
  refine triple_bind (R := fun r s => Queued c held [] s ∧ s.queue = r.queue)
    (triple_get fun s hs => ⟨hs, rfl⟩) fun r => ?_
  cases hr : r.queue.entries with
  | nil => exact triple_pure _ fun s hs => hs.1
  | cons front rest =>
    refine triple_bind ((createTarget_triple w front.target.tarId r.queue).mono (fun _ hs => hs)
      (fun _ _ hs => hs) fun _ hs => hs) fun nt => ?_
    let back := front.withTarget nt
    refine triple_bind (R := fun _ s => InOrder c held (targets (front :: (rest ++ [back]))) s ∧
      s.queue.entries = front :: (rest ++ [back])) (triple_modify _ fun s hs => ?_) fun _ => ?_
    · obtain ⟨hq, hqueue⟩ := hs
      rw [Queued, hqueue, hr] at hq
      refine ⟨InOrder.withEntries (hq.insert.sub ?_) _, by rw [hqueue, hr]; rfl⟩
      have hback : back.target = nt := rfl
      simp only [targets_cons, targets_append, targets_nil, List.nil_append, hback]
      exact (List.perm_append_singleton nt (front.target :: targets rest)).subperm
    refine triple_bind (R := fun r' s => r' = s ∧
      InOrder c held (targets (front :: (rest ++ [back]))) s ∧
      s.queue.entries = front :: (rest ++ [back])) (triple_get fun s hs => ⟨rfl, hs⟩) fun r' => ?_
    refine triple_bind (R := fun _ s =>
      InOrder c held (targets (front :: (rest ++ [back]))) s ∧
      s.queue.entries = front :: (rest ++ [back]) ∧
      (s.pool.Checked → ¬ PointsTo s.pool.currentTarget front.target))
      (triple_modify _ fun s hs => ?_) fun _ => ?_
    · obtain ⟨rfl, ho, hentries⟩ := hs
      refine ⟨fun hc => ?_, hentries, fun hc => hc _ (List.mem_cons_self ..)⟩
      obtain ⟨hl, hcur, hg⟩ := ho fun x hx => hc x (List.mem_cons_of_mem _ hx)
      exact ⟨hl.check _, hcur, hg⟩
    refine triple_bind (R := fun _ s => InOrder c held (targets (rest ++ [back])) s ∧
      s.queue.entries = front :: (rest ++ [back])) (triple_modify _ fun s hs => ?_) fun _ => ?_
    · exact ⟨InOrder.delete hs.1 hs.2.2, hs.2.1⟩
    · refine triple_modify _ fun s hs => ?_
      obtain ⟨ho, hentries⟩ := hs
      rw [hentries]
      exact ho

theorem targets_modifyHead {f : QueuedTarget → QueuedTarget} (hf : ∀ e, (f e).target = e.target)
    (l : List QueuedTarget) : targets (l.modifyHead f) = targets l := by
  cases l with
  | nil => rfl
  | cons e l => simp [hf]

/-- **Before a change of the target.** -/
theorem beforeChange_triple (now : Int) : Orderly c held (beforeChange w now) := by
  have hfilter : Orderly c held (do discard (filter w now none true)) :=
    triple_bind (filter_triple w now none true) fun _ => triple_pure _ fun _ hs => hs
  have hrepeat : Orderly c held (modifyEntries (·.modifyHead (·.repeated now))) :=
    modifyEntries_triple _ fun l => by
      rw [targets_modifyHead (f := (·.repeated now)) fun _ => rfl]
  have hrequeue : Orderly c held (do
      requeue w
      discard (filter w now none true)) :=
    triple_bind (requeue_triple w) fun _ => hfilter
  refine triple_bind (sortQueue_triple w) fun _ => triple_bind triple_read fun s => ?_
  cases s.queue.entries with
  | nil => exact hfilter
  | cons front rest =>
    refine triple_bind triple_read fun s => ?_
    refine triple_ite (fun _ => ?_) fun _ => triple_ite (fun _ => ?_) fun _ => hfilter
    · exact triple_ite (fun _ => triple_bind hrepeat fun _ => hrequeue) fun _ => hrequeue
    · exact triple_bind hrepeat fun _ => hrequeue

/-! ### Adding and moving -/

theorem Kept.calm : Calm (Kept c held) := by
  intro s n h hc
  obtain ⟨hl, hcur⟩ := h hc
  exact ⟨hl.asked n, hcur⟩

theorem Kept.sub (h : Kept c held s) {l : List QueuedTarget}
    (hs : (targets l).Subperm (targets s.queue.entries)) :
    Kept c held { s with queue := { s.queue with entries := l } } := by
  intro hc
  obtain ⟨hl, hcur⟩ := h hc
  obtain ⟨m, hperm, hsub⟩ := hs
  exact ⟨(hl.sublist (hsub.map _)).perm (hperm.symm.map _), hcur⟩

theorem modifyEntries_keeps (f : List QueuedTarget → List QueuedTarget)
    (hs : ∀ l, (targets (f l)).Subperm (targets l)) : Keeps (Kept c held) (modifyEntries f) :=
  keeps_modify _ fun s h => h.sub (hs s.queue.entries)

theorem updateVals_keeps : Keeps (Kept c held) (updateVals w) :=
  updateVals_triple w Kept.calm fun _ hs => hs

theorem createTarget_kept (tarId : Int) :
    Triple (Kept c held) (createTarget w tarId) (fun nt => Kept c ((nt.addr, true) :: held))
      (Kept c held) := by
  refine triple_bind (ask_triple _ Kept.calm) fun answer => ?_
  cases answer with
  | none => exact triple_throw _ fun s hs => hs
  | some type =>
    refine triple_bind (R := fun r s => r = s ∧ Kept c held s)
      (triple_get fun s hs => ⟨rfl, hs⟩) fun r => ?_
    refine triple_bind (R := fun _ => Kept c ((r.pool.created, true) :: held))
      (triple_modify _ fun s hs hc => ?_) fun _ => triple_pure _ fun _ hs => hs
    obtain ⟨rfl, hk⟩ := hs
    obtain ⟨hl, hcur⟩ := hk hc
    exact ⟨hl.create, hcur⟩

/-- Whoever held the target finds it in the queue, or holds it still. -/
def Offered (c : Option Target) (held : List (Nat × Bool)) (t : Target) (b : Bool)
    (s : QueState) : Prop :=
  Kept c held s ∧ (t ∉ targets s.queue.entries → Kept c ((t.addr, b) :: held) s)

theorem Kept.offered {b : Bool} (h : Kept c ((t.addr, b) :: held) s) : Offered c held t b s :=
  ⟨h.forget, fun _ => h⟩

theorem newEntry_triple (nt : Target) (tStart tEnd : Option Int) (repN : Int)
    (repSeparation : Option Int) (planId : Int) (hard : Bool) (b : Bool) :
    Triple (Kept c ((nt.addr, b) :: held))
      (newEntry w nt tStart tEnd repN repSeparation planId hard)
      (fun qt s => Kept c ((nt.addr, b) :: held) s ∧ qt.target = nt)
      (Kept c ((nt.addr, b) :: held)) := by
  refine triple_bind (ask_triple _ Kept.calm) fun qid => ?_
  cases qid with
  | none => exact triple_throw _ fun _ hs => hs
  | some qid =>
    refine triple_bind (dbWrite_triple w Kept.calm fun _ hs => hs) fun _ => ?_
    exact triple_pure _ fun _ hs => ⟨hs, rfl⟩

/-- A held target goes into the queue. -/
theorem insert_triple (nt : Target) (b : Bool) (f : List QueuedTarget → List QueuedTarget)
    (hf : ∀ l, (targets (f l)).Perm (nt :: targets l)) {E : QueState → Prop} :
    Triple (Kept c ((nt.addr, b) :: held)) (modifyEntries f)
      (fun _ s => Kept c held s ∧ nt ∈ targets s.queue.entries) E := by
  refine triple_modify _ fun s hk => ?_
  have hperm := hf s.queue.entries
  refine ⟨fun hc => ?_, hperm.mem_iff.mpr (List.mem_cons_self ..)⟩
  obtain ⟨hl, hcur⟩ := hk hc
  exact ⟨hl.insert.perm (hperm.map _), hcur⟩

/-- The new entry goes into the queue, and the values are sent. -/
theorem insertEntry_triple {α : Type} (nt : Target) (b : Bool) (a : α)
    (f : List QueuedTarget → List QueuedTarget)
    (hf : ∀ l, (targets (f l)).Perm (nt :: targets l)) :
    Triple (Kept c ((nt.addr, b) :: held))
      (do modifyEntries f
          updateVals w
          return a)
      (fun _ => Kept c held) (Offered c held nt b) := by
  refine triple_bind (insert_triple nt b f hf) fun _ => ?_
  refine triple_bind (R := fun _ s => Kept c held s ∧ nt ∈ targets s.queue.entries)
    ?_ fun _ => triple_pure _ fun _ hs => hs.1
  refine triple_bind triple_read fun s => triple_ite (fun _ => triple_pure _ fun _ hs => hs)
    fun _ => triple_bind (ask_triple _ ?_) fun failed =>
      triple_ite (fun _ => triple_throw _ fun s hs => ⟨hs.1, fun h => absurd hs.2 h⟩)
        fun _ => triple_pure _ fun _ hs => hs
  exact fun s n hs => ⟨Kept.calm s n hs.1, hs.2⟩

theorem insertIdx_targets (qt : QueuedTarget) (l : List QueuedTarget) {i : Nat}
    (hi : i ≤ l.length) : (targets (l.insertIdx i qt)).Perm (qt.target :: targets l) :=
  (List.perm_insertIdx qt l hi).map _

theorem findIndex_le (size : Nat) (index : Int) : findIndex size index ≤ size := by
  unfold findIndex
  split <;> omega

theorem addFront_triple (nt : Target) (tStart tEnd : Option Int) (b : Bool) :
    Triple (Kept c ((nt.addr, b) :: held)) (addFront w nt tStart tEnd) (fun _ => Kept c held)
      (Offered c held nt b) := by
  refine triple_bind ((newEntry_triple w nt tStart tEnd _ _ _ _ b).mono (fun _ hs => hs)
    (fun _ _ hs => hs) fun _ hs => hs.offered) fun qt => ?_
  intro s hs
  obtain ⟨hk, rfl⟩ := hs
  exact insertEntry_triple w qt.target b _ _ (fun l => List.Perm.refl _) s hk

theorem addTarget_triple (nt : Target) (tStart tEnd : Option Int) (index repN : Int)
    (repSeparation : Option Int) (planId : Int) (hard : Bool) (b : Bool) :
    Triple (Kept c ((nt.addr, b) :: held))
      (addTarget w nt tStart tEnd index repN repSeparation planId hard) (fun _ => Kept c held)
      (Offered c held nt b) := by
  refine triple_bind ((newEntry_triple w nt tStart tEnd _ _ _ _ b).mono (fun _ hs => hs)
    (fun _ _ hs => hs) fun _ hs => hs.offered) fun qt => ?_
  intro s hs
  obtain ⟨hk, rfl⟩ := hs
  exact insertEntry_triple w qt.target b _ _
    (fun l => insertIdx_targets qt l (findIndex_le ..)) s hk

theorem addFirst_triple (nt : Target) (tStart tEnd : Option Int) (repN : Int)
    (repSeparation : Option Int) (planId : Int) (hard : Bool) :
    Triple (Kept c ((nt.addr, true) :: held))
      (addFirst w nt tStart tEnd repN repSeparation planId hard) (fun _ => Kept c held)
      (Kept c held) := by
  refine triple_bind triple_read fun s => triple_bind (ask_triple _ Kept.calm) fun place => ?_
  cases place with
  | some i =>
    refine triple_bind ((newEntry_triple w nt tStart tEnd _ _ _ _ true).mono (fun _ hs => hs)
      (fun _ _ hs => hs) fun _ hs => hs.forget) fun qt => ?_
    refine triple_bind (R := fun _ => Kept c held) (fun s hs => ?_) fun _ => updateVals_keeps w
    obtain ⟨hk, rfl⟩ := hs
    exact (insert_triple (E := Kept c held) qt.target true _ fun l =>
      insertIdx_targets qt l (Nat.min_le_right ..)).post (fun _ _ hs => hs.1) s hk
  | none =>
    refine triple_bind ?_ fun _ => updateVals_keeps w
    refine triple_bind ((addTarget_triple w nt tStart tEnd (-1) repN repSeparation planId hard
      true).mono (fun _ hs => hs) (fun _ _ hs => hs) fun _ hs => hs.1) fun _ => ?_
    exact triple_pure _ fun _ hs => hs

/-- What a splice leaves of the other entries. -/
theorem splice_rest {i : Nat} (j : Nat) {l : List QueuedTarget} (hi : i < l.length) :
    (l.take j).eraseIdx i ++ (if j ≤ i then (l.drop j).eraseIdx (i - j) else l.drop j) =
      l.eraseIdx i := by
  conv_rhs => rw [← List.take_append_drop j l]
  split
  · have hlen : (l.take j).length = j := by rw [List.length_take]; omega
    rw [List.eraseIdx_append_of_length_le (by omega), hlen,
      List.eraseIdx_of_length_le (by omega)]
  · rw [List.eraseIdx_append_of_lt_length (by rw [List.length_take]; omega)]

theorem splice_perm (i j : Nat) (l : List QueuedTarget) : (splice i j l).Perm l := by
  unfold splice
  cases he : l[i]? with
  | none => exact List.Perm.refl l
  | some e =>
    obtain ⟨hi, rfl⟩ := List.getElem?_eq_some_iff.mp he
    refine List.perm_middle.trans ?_
    rw [splice_rest j hi]
    exact List.getElem_cons_eraseIdx_perm hi

theorem splice_keeps (i j : Nat) : Keeps (Kept c held) (modifyEntries (splice i j)) :=
  modifyEntries_keeps _ fun l => ((splice_perm i j l).map _).subperm

theorem moveIndex_keeps (index newindex : Int) : Keeps (Kept c held) (moveIndex w index newindex) := by
  refine triple_bind triple_read fun s => ?_
  refine triple_ite (fun _ => keeps_pure _) fun _ => ?_
  refine triple_bind (splice_keeps _ _) fun _ => ?_
  exact triple_bind (updateVals_keeps w) fun _ => keeps_pure _

theorem targets_modify {f : QueuedTarget → QueuedTarget} (hf : ∀ e, (f e).target = e.target)
    (i : Nat) (l : List QueuedTarget) : targets (l.modify i f) = targets l := by
  induction l generalizing i with
  | nil => cases i <;> rfl
  | cons e l ih =>
    cases i with
    | zero => simp [hf]
    | succ i => simp [ih]

theorem updateIndexTimes_keeps (index : Int) (tStart tEnd : Option Int) :
    Keeps (Kept c held) (updateIndexTimes w index tStart tEnd) := by
  refine triple_bind triple_read fun s => ?_
  refine triple_ite (fun _ => keeps_pure _) fun _ => ?_
  refine triple_bind (modifyEntries_keeps _ fun l => ?_) fun _ =>
    triple_bind (updateVals_keeps w) fun _ => keeps_pure _
  rw [targets_modify (f := fun e => { e with tStart := tStart, tEnd := tEnd }) fun _ => rfl]

theorem targets_zipWith {α : Type} {f : QueuedTarget → α → QueuedTarget}
    (hf : ∀ e a, (f e a).target = e.target) (l : List QueuedTarget) (as : List α) :
    targets (List.zipWith f l as ++ l.drop as.length) = targets l := by
  induction l generalizing as with
  | nil => simp
  | cons e l ih =>
    cases as with
    | nil => simp
    | cons a as => simpa [hf] using ih as

theorem setRepN_keeps (repN : List Int) : Keeps (Kept c held) (setRepN w repN) := by
  refine triple_bind (modifyEntries_keeps _ fun l => ?_) fun _ =>
    dbWrite_triple w Kept.calm fun _ hs => hs
  rw [targets_zipWith fun e n => by split <;> rfl]

theorem setRepSeparation_keeps (separation : List (Option Int)) :
    Keeps (Kept c held) (setRepSeparation w separation) := by
  refine triple_bind (modifyEntries_keeps _ fun l => ?_) fun _ =>
    dbWrite_triple w Kept.calm fun _ hs => hs
  rw [targets_zipWith (f := fun e n => { e with repSeparation := n }) fun e n => rfl]

theorem queueFromConn_keeps (index : Int) (tryFirstPossible : Bool)
    (requests : List (Option Request)) :
    Keeps (Kept c held) (queueFromConn w index tryFirstPossible requests) := by
  induction requests with
  | nil => exact keeps_pure _
  | cons r rest ih =>
    cases r with
    | none => exact triple_bind ih fun failed => keeps_pure _
    | some r =>
      refine triple_bind (createTarget_kept w r.tarId) fun nt => ?_
      refine triple_ite (fun _ => triple_bind (addFirst_triple w nt _ _ _ _ _ _) fun _ => ih)
        fun _ => ?_
      refine triple_bind (R := fun _ => Kept c held) ?_ fun _ => ih
      refine triple_bind ((addTarget_triple w nt _ _ _ _ _ _ _ true).mono (fun _ hs => hs)
        (fun _ _ hs => hs) fun _ hs => hs.1) fun _ => triple_pure _ fun _ hs => hs

theorem placeQid_keeps (k : Nat) (r : QidRequest) : Keeps (Kept c held) (placeQid k r) := by
  refine triple_bind triple_read fun s => ?_
  cases s.queue.entries.findIdx? fun e => (e.qid : Int) = r.qid with
  | none => exact keeps_pure _
  | some m =>
    refine triple_bind (modifyEntries_keeps _ fun l => ?_) fun _ => keeps_pure _
    have htimes := targets_modify (f := fun e => { e with tStart := r.tStart, tEnd := r.tEnd })
      (fun _ => rfl) m l
    rw [← htimes]
    exact ((splice_perm m k _).map _).subperm

theorem placeQids_keeps (requests : List (Option QidRequest)) :
    ∀ k, Keeps (Kept c held) (placeQids w k requests) := by
  induction requests with
  | nil => exact fun k => keeps_pure _
  | cons r rest ih =>
    intro k
    have hdone {α : Type} (k : Nat) (f : Nat × List Nat → α) :
        Keeps (Kept c held) (do
          let p ← placeQids w k rest
          return f p) :=
      triple_bind (ih k) fun p => keeps_pure _
    cases r with
    | none => exact hdone k _
    | some r =>
      refine triple_bind (createTarget_kept w r.tarId) fun nt => ?_
      refine triple_ite (fun _ => ?_) fun _ => ?_
      · refine triple_bind ((newEntry_triple w nt r.tStart r.tEnd (-1) none (-1) false true).mono
          (fun _ hs => hs) (fun _ _ hs => hs) fun _ hs => hs.forget) fun qt => ?_
        refine triple_bind (R := fun _ => Kept c held) (fun s hs => ?_) fun _ => hdone (k + 1) _
        obtain ⟨hk, rfl⟩ := hs
        exact (insert_triple (E := Kept c held) qt.target true _ fun l =>
          insertIdx_targets qt l (Nat.min_le_right ..)).post (fun _ _ hs => hs.1) s hk
      · refine triple_bind ((placeQid_keeps k r).mono (fun _ hs => hs.forget) (fun _ _ hs => hs)
          fun _ hs => hs) fun place => ?_
        cases place with
        | none => exact hdone k _
        | some k' => exact hdone k' _

theorem dropUnknown_keeps (known : List Nat) (l : List QueuedTarget) :
    ∀ i, Keeps (Kept c held) (dropUnknown w known i l) := by
  induction l with
  | nil => exact fun i => keeps_pure _
  | cons e rest ih =>
    intro i
    refine triple_ite (fun _ => ?_) fun _ => ih _
    refine triple_bind (removeRecord_triple w false Kept.calm fun _ _ hs => hs) fun _ => ?_
    refine triple_bind (modifyEntries_keeps _ fun l => ?_) fun _ => ih i
    exact ((List.eraseIdx_sublist ..).map _).subperm

theorem queueFromConnQids_keeps (requests : List (Option QidRequest)) :
    Keeps (Kept c held) (queueFromConnQids w requests) := by
  refine triple_bind (placeQids_keeps w requests 0) fun p => ?_
  refine triple_bind triple_read fun s => ?_
  exact triple_bind (dropUnknown_keeps w p.2 _ 0) fun _ => keeps_pure _

theorem append_keeps (nt : Target) (f : Target → QueuedTarget) (hf : (f nt).target = nt) {x : Que Unit}
    (hx : Keeps (Kept c held) x) :
    Triple (Kept c ((nt.addr, true) :: held)) (do
      modifyEntries (· ++ [f nt])
      x) (fun _ => Kept c held) (Kept c held) := by
  refine triple_bind ((insert_triple nt true _ fun l => ?_).post fun _ _ hs => hs.1) fun _ => hx
  rw [targets_append, targets_cons, hf]
  exact List.perm_append_singleton nt (targets l)

theorem load_keeps (rows : List QueuedTarget) : Keeps (Kept c held) (load w rows) := by
  induction rows with
  | nil => exact updateVals_keeps w
  | cons row rows ih =>
    refine triple_bind (dbWrite_triple w Kept.calm fun _ hs => hs) fun _ => ?_
    refine triple_bind (createTarget_kept w _) fun nt => ?_
    exact append_keeps nt (fun nt => { row with target := nt, hard := false }) rfl ih

theorem copyEntries_keeps (l : List QueuedTarget) : Keeps (Kept c held) (copyEntries w l) := by
  induction l with
  | nil => exact keeps_pure _
  | cons e rest ih =>
    refine triple_bind (createTarget_kept w _) fun nt => ?_
    exact append_keeps nt e.withTarget rfl ih

/-! ### Emptying a queue -/

/-- The targets of the entries are deleted one after the other, but for the one
the queue knows to be current. -/
theorem clearFrom_triple (d : Option Target) (l : List QueuedTarget) :
    ∀ i, Triple (fun s => InOrder c held ((targets l).filter fun t => ¬ PointsTo d t) s ∧
        s.queue.currentTarget = d) (clearFrom w i l) (fun _ => InOrder c held [])
      (Kept c held) := by
  induction l with
  | nil => exact fun i => triple_pure _ fun _ hs => hs.1
  | cons e rest ih =>
    intro i
    refine triple_bind (R := fun r s => r = s ∧
        InOrder c held ((targets (e :: rest)).filter fun t => ¬ PointsTo d t) s ∧
        s.queue.currentTarget = d)
      (triple_get fun s hs => ⟨rfl, hs⟩) fun r => ?_
    have hrest : Triple (fun s => InOrder c held ((targets rest).filter fun t => ¬ PointsTo d t) s ∧
        s.queue.currentTarget = d) (do
        removeRecord w true
        clearFrom w (i + 1) rest) (fun _ => InOrder c held []) (Kept c held) := by
      refine triple_bind (removeRecord_triple w true (fun s n hs => ?_) ?_) fun _ => ih (i + 1)
      · exact ⟨InOrder.calm s n hs.1, hs.2⟩
      · exact fun h => absurd h (by decide)
    refine triple_ite (fun hp => ?_) fun hp => ?_
    · refine triple_bind (triple_modify _ fun s hs => ?_) fun _ => hrest
      obtain ⟨rfl, ho, hd⟩ := hs
      refine ⟨InOrder.withEntries (ho.sub (List.Sublist.subperm ?_)) _, hd⟩
      exact (List.sublist_cons_self ..).filter _
    · refine triple_bind (triple_modify _ fun s hs => ?_) fun _ => hrest
      obtain ⟨rfl, ho, rfl⟩ := hs
      have hkeep : ((targets (e :: rest)).filter fun t => ¬ PointsTo r.queue.currentTarget t) =
          e.target :: (targets rest).filter fun t => ¬ PointsTo r.queue.currentTarget t := by
        rw [targets_cons, List.filter_cons_of_pos (by simpa using hp)]
      rw [hkeep] at ho
      refine ⟨InOrder.delete ho fun hc hcur => hp ?_, rfl⟩
      obtain ⟨-, hcur', hg⟩ := ho hc
      exact hg e.target (List.mem_cons_self ..) (hcur' ▸ hcur)

/-- **Clearing a queue** whose current target need not be alive. -/
theorem clearNext_spared : Triple (fun s => InOrder c held
      ((targets s.queue.entries).filter fun t => ¬ PointsTo s.queue.currentTarget t) s)
    (clearNext w) (fun _ => Queued c held []) (Kept c held) := by
  refine triple_bind (triple_get (Q := fun r s => InOrder c held
    ((targets r.queue.entries).filter fun t => ¬ PointsTo r.queue.currentTarget t) s ∧
      s.queue.currentTarget = r.queue.currentTarget) fun s hs => ⟨hs, rfl⟩) fun r => ?_
  refine triple_bind (clearFrom_triple w _ _ 0) fun _ => ?_
  refine triple_bind (R := fun _ => Queued c held []) (triple_modify _ fun s hs => hs) fun _ => ?_
  exact updateVals_triple w Queued.calm fun s hs => hs.kept

/-- **Clearing a queue.** -/
theorem clearNext_triple : Orderly c held (clearNext w) :=
  (clearNext_spared w).pre fun _ hs => InOrder.sub hs List.filter_sublist.subperm

theorem deleteAll_triple (l : List QueuedTarget) {E : QueState → Prop} :
    Triple (InOrder none held (targets l)) (l.forM fun e => delete e.target)
      (fun _ => InOrder none held []) E := by
  induction l with
  | nil => exact triple_pure _ fun _ hs => hs
  | cons e rest ih =>
    refine triple_bind (triple_modify _ fun s hs => InOrder.delete hs fun hc hcur => ?_) fun _ => ih
    obtain ⟨-, hnone, -⟩ := hs hc
    rw [hnone] at hcur
    simp [PointsTo] at hcur

/-- A queue that is destroyed when there is no current target. -/
theorem destroy_keeps : Keeps (Kept none held) destroy := by
  refine triple_bind (R := fun _ => Queued none held [])
    (triple_modify _ fun s hs => Kept.queued hs) fun _ => ?_
  refine triple_bind (triple_get
    (Q := fun r => InOrder none held (targets r.queue.entries)) fun s hs => hs) fun r => ?_
  refine triple_bind (deleteAll_triple _) fun _ => triple_modify _ fun s hs => ?_
  exact (show Queued none held [] _ from InOrder.withEntries hs []).kept

theorem clearSimul_keeps (l : List QueuedTarget) :
    Triple (fun s => Queued none held [] s ∧ s.queue.entries = l) (clearSimul l)
      (fun _ => Kept none held) (Kept none held) := by
  induction l with
  | nil => exact triple_pure _ fun _ hs => hs.1.kept
  | cons e rest ih =>
    refine triple_bind (R := fun _ s => InOrder none held (targets rest) s ∧
      s.queue.entries = e :: rest) (triple_modify _ fun s hs => ?_) fun _ => ?_
    · obtain ⟨hq, hentries⟩ := hs
      rw [Queued, hentries] at hq
      refine ⟨InOrder.delete hq fun hc hcur => ?_, hentries⟩
      obtain ⟨-, hnone, -⟩ := hq hc
      rw [hnone] at hcur
      simp [PointsTo] at hcur
    · refine triple_bind (R := fun _ s => Queued none held [] s ∧ s.queue.entries = rest)
        (triple_modify _ fun s hs => ?_) fun _ => ih
      obtain ⟨ho, hentries⟩ := hs
      exact ⟨by rw [hentries]; exact InOrder.withEntries ho rest, by rw [hentries]; rfl⟩

/-! ### Selecting -/

theorem removeIndex_triple (index : Int) : Orderly c held (removeIndex w index) := by
  refine triple_bind triple_read fun s => ?_
  refine triple_ite (fun _ => triple_pure _ fun _ hs => hs) fun _ => ?_
  refine triple_bind (removeEntry_triple w _) fun _ => ?_
  exact triple_bind (updateVals_triple w Queued.calm fun s hs => hs.kept) fun _ =>
    triple_pure _ fun _ hs => hs

theorem front_triple : Triple P front (fun _ => P) P := by
  refine triple_bind triple_read fun s => ?_
  cases s.queue.entries with
  | nil => exact triple_throw _ fun _ hs => hs
  | cons front rest => exact triple_pure _ fun _ hs => hs

theorem front_orderly : Triple (Queued c held []) front (fun _ => Queued c held []) (Kept c held) :=
  front_triple.mono (fun _ hs => hs) (fun _ _ hs => hs) fun _ hs => hs.kept

theorem selectFront_triple (sky : Sky) (nextLength : Option Int) :
    Orderly c held (selectFront sky nextLength) := by
  have hnone {α : Type} (a : α) : Orderly c held (pure a) := triple_pure _ fun _ hs => hs
  refine triple_bind front_orderly fun e => ?_
  cases nextLength with
  | none => exact hnone _
  | some length =>
    cases sky.scriptLength e.target with
    | none => exact triple_throw _ fun _ hs => hs.kept
    | some tl =>
      refine triple_bind triple_read fun s => triple_ite (fun _ => ?_) fun _ => hnone _
      refine triple_ite (fun _ => hnone _) fun _ => ?_
      refine triple_bind (modifyEntries_triple _ fun l => ?_) fun _ => hnone _
      rw [targets_modifyHead (f := fun e => { e with hard := false }) fun _ => rfl]

theorem addTimer_triple (now : Int) (tStart : Option Int) :
    Orderly c held (addTimer now tStart) := by
  refine triple_bind triple_read fun s => triple_ite (fun _ => triple_modify _ fun _ hs => hs)
    fun _ => triple_bind front_orderly fun e => ?_
  exact triple_ite (fun _ => triple_modify _ fun _ hs => hs) fun _ => triple_pure _ fun _ hs => hs

theorem selectNextObservation_triple (now : Int) (nextTime nextLength : Option Int)
    (removeObserved : Bool) :
    Orderly c held (selectNextObservation w now nextTime nextLength removeObserved) := by
  have hnone {α : Type} (a : α) : Orderly c held (pure a) := triple_pure _ fun _ hs => hs
  refine triple_bind triple_read fun s => triple_ite (fun _ => hnone _) fun _ => ?_
  refine triple_bind (filter_triple w _ _ _) fun r => ?_
  refine triple_bind (R := fun _ => Queued c held []) ?_ fun ready => triple_ite (fun _ => ?_)
    fun _ => ?_
  · exact triple_ite (fun _ => triple_bind front_orderly fun e => hnone _) fun _ => hnone _
  · refine triple_bind (ask_triple _ Queued.calm) fun sky => ?_
    exact triple_bind (selectFront_triple sky nextLength) fun selected => hnone _
  · refine triple_bind (addTimer_triple _ _) fun _ => ?_
    exact triple_ite (fun _ => hnone _) fun _ => hnone _

theorem queueNow_triple (now tarId : Int) (once : Bool) :
    Keeps (Kept none held) (queueNow w now tarId once) := by
  have hadd : Keeps (Kept none held) (do
      let tar ← createTarget w tarId
      discard (addFront w tar none none)
      discard (filter w now none true)
      return some (decide ((← front).target.addr = tar.addr))) := by
    refine triple_bind (createTarget_kept w tarId) fun tar => ?_
    refine triple_bind (R := fun _ => Kept none held) ?_ fun _ => ?_
    · refine triple_bind ((addFront_triple w tar none none true).mono (fun _ hs => hs)
        (fun _ _ hs => hs) fun _ hs => hs.1) fun _ => triple_pure _ fun _ hs => hs
    · refine triple_bind (R := fun _ => Kept none held) ?_ fun _ =>
        triple_bind front_triple fun _ => keeps_pure _
      refine triple_bind ((filter_triple w now none true).mono (fun _ hs => hs.queued)
        (fun _ _ hs => hs.kept) fun _ hs => hs) fun _ => keeps_pure _
  refine triple_bind triple_read fun s => triple_ite (fun _ => keeps_pure _) fun _ => hadd

end Operations
end Rts2.Plan

import Mathlib.Data.List.Basic
import Rts2.Plan.TargetQueue

/-! # Filtering a queue

What `TargetQueue::filter` leaves of the entries and how many statements of the
database it takes. An exception comes out of it when the database refuses one of
them, and then only. -/
namespace Rts2.Plan
open Rts2.Lib

/-- The entries and settings of a queue, after `a` questions. -/
structure At (a : Nat) (l : List QueuedTarget) (v : QueueValues) (simul : Bool)
    (s : QueState) : Prop where
  asked : s.pool.asked = a
  entries : s.queue.entries = l
  values : s.queue.values = v
  simul : s.queue.simul = simul

/-- The database answers the `m` questions from the one with number `a` on. -/
def Fine (w : World) (a m : Nat) : Prop := ∀ k < m, w.dbFails (a + k) = false

theorem fine_zero (w : World) (a : Nat) : Fine w a 0 := fun _ h => absurd h (by omega)

theorem fine_add {w : World} {a m n : Nat} : Fine w a (m + n) ↔ Fine w a m ∧ Fine w (a + m) n := by
  constructor
  · intro h
    refine ⟨fun k hk => h k (by omega), fun k hk => ?_⟩
    rw [Nat.add_assoc]
    exact h (m + k) (by omega)
  · intro h k hk
    rcases Nat.lt_or_ge k m with hlt | hge
    · exact h.1 k hlt
    · have hnext := h.2 (k - m) (by omega)
      rwa [Nat.add_assoc, Nat.add_sub_cancel' hge] at hnext

section Does
variable (w : World) (v : QueueValues) (simul : Bool)

/-- The program turns the entries `l` into `l'` and returns `r`, with `m`
statements of the database. It throws where one of them is refused. -/
def Does {α : Type} (x : Que α) (l : List QueuedTarget) (m : Nat) (r : α)
    (l' : List QueuedTarget) : Prop :=
  ∀ a s, At a l v simul s →
    Ends x s (fun b s' => b = r ∧ At (a + m) l' v simul s' ∧ Fine w a m)
      fun e _ => e = .error ∧ ¬ Fine w a m

variable {w v simul}

variable {α β : Type} {x : Que α} {f : α → Que β} {l l' l'' : List QueuedTarget} {m n : Nat}
  {r : α} {r' : β}

theorem does_pure (r : α) : Does w v simul (pure r) l 0 r l :=
  fun a _ h => ⟨rfl, h, fine_zero w a⟩

theorem does_bind (hx : Does w v simul x l m r l') (hf : Does w v simul (f r) l' n r' l'') :
    Does w v simul (x >>= f) l (m + n) r' l'' := by
  intro a s h
  refine ((hx a s h).mono (fun _ _ hb => hb) fun e _ he => ?_).bind fun b s' hb => ?_
  · exact ⟨he.1, fun hfine => he.2 (fine_add.mp hfine).1⟩
  · obtain ⟨rfl, hat, hm⟩ := hb
    refine (hf (a + m) s' hat).mono (fun c s'' hc => ?_) fun e _ he => ?_
    · obtain ⟨hc, hat', hn⟩ := hc
      exact ⟨hc, Nat.add_assoc a m n ▸ hat', fine_add.mpr ⟨hm, hn⟩⟩
    · exact ⟨he.1, fun hfine => he.2 (fine_add.mp hfine).2⟩

/-- Reading the queue. -/
theorem does_read {f : QueState → Que β}
    (hf : ∀ s, s.queue.entries = l → s.queue.values = v → s.queue.simul = simul →
      Does w v simul (f s) l m r' l') : Does w v simul (get >>= f) l m r' l' :=
  fun a s h => hf s h.entries h.values h.simul a s h

theorem does_modifyEntries (f : List QueuedTarget → List QueuedTarget) :
    Does w v simul (Que.modifyEntries f) l 0 () (f l) :=
  fun a _ h => ⟨rfl, ⟨h.asked, congrArg f h.entries, h.values, h.simul⟩, fine_zero w a⟩

theorem Does.congr (h : Does w v simul x l m r l') (hm : m = n) (hl : l' = l'') :
    Does w v simul x l n r l'' := by
  subst hm hl
  exact h

/-- A statement that may be refused. -/
theorem does_refusable {y : Que Unit} (hy : ∀ s, Ends y s (fun _ _ => False) fun e _ => e = .error) :
    Does w v simul (do if ← Que.ask w.dbFails then y) l 1 () l := by
  intro a s h
  have hasked : At (a + 1) l v simul
      { s with pool := { s.pool with asked := s.pool.asked + 1 } } :=
    ⟨congrArg (· + 1) h.asked, h.entries, h.values, h.simul⟩
  have hfine : Fine w a 1 ↔ w.dbFails s.pool.asked = false := by
    rw [h.asked]
    constructor
    · exact fun hf => hf 0 (by omega)
    · intro hf k hk
      obtain rfl : k = 0 := by omega
      exact hf
  show Ends (if w.dbFails s.pool.asked = true then y else pure ()) _ _ _
  refine ends_ite (fun hfail => ?_) fun hfail => ⟨rfl, hasked, ?_⟩
  · refine (hy _).mono (fun _ _ hf => hf.elim) fun e _ he => ⟨he, fun hf => ?_⟩
    rw [hfine, hfail] at hf
    cases hf
  · rw [hfine]
    simpa using hfail

theorem does_dbWrite : Does w v simul (Que.dbWrite w) l 1 () l :=
  does_refusable fun _ => rfl

theorem does_removeRecord (gone : Bool) : Does w v simul (Que.removeRecord w gone) l 1 () l :=
  does_refusable fun s => by cases gone <;> rfl

/-- What only a queue with records in the database does. -/
def cost (simul : Bool) (n : Nat) : Nat := if simul then 0 else n

@[simp] theorem cost_zero (simul : Bool) : cost simul 0 = 0 := by
  cases simul <;> rfl

theorem cost_add (simul : Bool) (m n : Nat) : cost simul m + cost simul n = cost simul (m + n) := by
  cases simul <;> rfl

theorem does_updateVals : Does w v simul (Que.updateVals w) l (cost simul 1) () l := by
  refine does_read fun s _ _ hsimul => ?_
  rw [hsimul]
  cases simul with
  | true => exact does_pure ()
  | false => exact does_dbWrite

theorem does_release (t : Target) : Does w v simul (Que.release t) l 0 () l := by
  refine does_read fun s _ _ _ => ?_
  split
  · exact fun a s h => ⟨rfl, ⟨h.asked, h.entries, h.values, h.simul⟩, fine_zero w a⟩
  · intro a s h
    refine ⟨rfl, ⟨?_, h.entries, h.values, h.simul⟩, fine_zero w a⟩
    refine Eq.trans ?_ h.asked
    show (s.pool.delete t).asked = _
    unfold Pool.delete
    split <;> rfl

theorem does_removeEntry {i : Nat} (hi : i < l.length) :
    Does w v simul (Que.removeEntry w i) l (cost simul 1) () (l.eraseIdx i) := by
  refine does_read fun s hl _ hsimul => ?_
  have he : s.queue.entries[i]? = some l[i] := by rw [hl, List.getElem?_eq_getElem hi]
  rw [he, hsimul]
  have herase : Does w v simul (Que.modifyEntries (·.eraseIdx i)) l 0 () (l.eraseIdx i) :=
    does_modifyEntries _
  cases simul with
  | true => exact Does.congr (does_bind (does_release _) herase) rfl rfl
  | false =>
    exact Does.congr (does_bind (does_release _) (does_bind (does_removeRecord _) herase)) rfl rfl

theorem does_removeFirst (pre l : List QueuedTarget) :
    Does w v simul (Que.removeFirst w pre.length) (pre ++ l) (cost simul pre.length) () l := by
  induction pre with
  | nil => exact (does_pure ()).congr (cost_zero simul).symm rfl
  | cons e pre ih =>
    refine Does.congr (does_bind (does_removeEntry (Nat.zero_lt_succ _)) ih) ?_ rfl
    rw [cost_add, List.length_cons, Nat.add_comm]

end Does

/-! ## Entries whose time has passed -/

section Expired
variable {w : World} {v : QueueValues} {simul : Bool}

/-- The start or the end of the entry has passed. -/
def due (now : Int) (e : QueuedTarget) : Bool := Que.past e.tStart now || Que.past e.tEnd now

/-- The entries from the last due one on. -/
def dueFrom (now : Int) : List QueuedTarget → List QueuedTarget
  | [] => []
  | e :: rest => if rest.any (due now) then dueFrom now rest else e :: rest

theorem dueFrom_suffix (now : Int) (l : List QueuedTarget) : dueFrom now l <:+ l := by
  induction l with
  | nil => exact List.suffix_refl _
  | cons e rest ih =>
    unfold dueFrom
    split
    · exact ih.trans (List.suffix_cons e rest)
    · exact List.suffix_refl _

/-- What the loop leaves of the entries `pre` before its iterator and `l` from
there on. -/
def afterDue (now : Int) (pre l : List QueuedTarget) : List QueuedTarget :=
  if l.any (due now) then dueFrom now l else pre ++ l

theorem afterDue_nil (now : Int) (l : List QueuedTarget) : afterDue now [] l = dueFrom now l := by
  unfold afterDue
  split
  · rfl
  · rename_i hnone
    cases l with
    | nil => rfl
    | cons e rest =>
      have hrest : rest.any (due now) = false := by
        rw [List.any_cons, Bool.or_eq_true, not_or] at hnone
        simpa using hnone.2
      simp [dueFrom, hrest]

theorem afterDue_due {now : Int} {e : QueuedTarget} (he : due now e = true)
    (pre rest : List QueuedTarget) : afterDue now pre (e :: rest) = afterDue now [e] rest := by
  simp [afterDue, he, dueFrom]

theorem afterDue_cons {now : Int} {e : QueuedTarget} (he : due now e = false)
    (pre rest : List QueuedTarget) :
    afterDue now pre (e :: rest) = afterDue now (pre ++ [e]) rest := by
  by_cases hrest : rest.any (due now) = true
  · simp [afterDue, he, hrest, dueFrom]
  · simp [afterDue, he, hrest]

theorem afterDue_length_le (now : Int) (pre l : List QueuedTarget) :
    (afterDue now pre l).length ≤ pre.length + l.length := by
  unfold afterDue
  split
  · exact Nat.le_trans (dueFrom_suffix now l).length_le (Nat.le_add_left ..)
  · exact Nat.le_of_eq List.length_append

theorem does_expireBefore (now : Int) (l : List QueuedTarget) :
    ∀ pre : List QueuedTarget,
      Does w v simul (Que.expireBefore w now pre.length l) (pre ++ l)
        (cost simul (pre.length + l.length - (afterDue now pre l).length)) ()
        (afterDue now pre l) := by
  induction l with
  | nil =>
    intro pre
    refine (does_pure ()).congr ?_ rfl
    simp [afterDue]
  | cons e rest ih =>
    intro pre
    unfold Que.expireBefore
    by_cases hdue : due now e = true
    · have hlen := afterDue_length_le now [e] rest
      have hpast : (Que.past e.tStart now || Que.past e.tEnd now) = true := hdue
      rw [if_pos hpast, afterDue_due hdue]
      refine Does.congr (does_bind (does_removeFirst pre (e :: rest)) (ih [e])) ?_ rfl
      rw [cost_add]
      simp only [List.length_cons, List.length_nil] at hlen ⊢
      congr 1
      omega
    · have hrest := ih (pre ++ [e])
      have hpast : ¬ (Que.past e.tStart now || Que.past e.tEnd now) = true := hdue
      rw [if_neg hpast, afterDue_cons (by simpa using hdue)]
      rw [List.length_append, List.append_assoc] at hrest
      refine hrest.congr ?_ rfl
      simp only [List.length_cons, List.length_nil]
      congr 1
      omega

/-- An entry the second loop removes. -/
def expired (sky : Sky) (v : QueueValues) (now : Int) (e : QueuedTarget) : Bool :=
  Que.past e.tEnd now || (sky.observationStarted e.target && v.removeAfterExecution)

theorem does_expire (sky : Sky) (now : Int) (l : List QueuedTarget) :
    ∀ pre : List QueuedTarget,
      Does w v simul (Que.expire w sky now pre.length l) (pre ++ l)
        (cost simul (l.length - (l.filter (!expired sky v now ·)).length)) ()
        (pre ++ l.filter (!expired sky v now ·)) := by
  induction l with
  | nil => exact fun pre => (does_pure ()).congr (cost_zero simul).symm rfl
  | cons e rest ih =>
    intro pre
    have hlen := List.length_filter_le (!expired sky v now ·) rest
    refine does_read fun s _ hvalues _ => ?_
    rw [hvalues]
    by_cases hexp : expired sky v now e = true
    · have hi : pre.length < (pre ++ e :: rest).length := by simp
      have herase : (pre ++ e :: rest).eraseIdx pre.length = pre ++ rest := by
        rw [List.eraseIdx_append_of_length_le (Nat.le_refl _), Nat.sub_self]
        rfl
      have hremove : Does w v simul (Que.removeEntry w pre.length) (pre ++ e :: rest)
          (cost simul 1) () (pre ++ rest) :=
        (does_removeEntry hi).congr rfl herase
      rw [List.filter_cons_of_neg (by simp [hexp])]
      have hgone : (Que.past e.tEnd now ||
          (sky.observationStarted e.target && v.removeAfterExecution)) = true := hexp
      rw [if_pos hgone]
      refine Does.congr (does_bind hremove (ih pre)) ?_ rfl
      rw [cost_add, List.length_cons]
      congr 1
      omega
    · have hrest := ih (pre ++ [e])
      rw [List.length_append, List.append_assoc, List.append_assoc] at hrest
      rw [List.filter_cons_of_pos (by simp [hexp])]
      have hgone : ¬ (Que.past e.tEnd now ||
          (sky.observationStarted e.target && v.removeAfterExecution)) = true := hexp
      rw [if_neg hgone]
      refine hrest.congr ?_ rfl
      rw [List.length_cons, List.length_cons]
      congr 1
      omega

/-- What `filterExpired` leaves. -/
def unexpired (sky : Sky) (v : QueueValues) (now : Int) (l : List QueuedTarget) :
    List QueuedTarget :=
  (if v.queueType = .fifo then dueFrom now l else l).filter (!expired sky v now ·)

theorem unexpired_length_le (sky : Sky) (v : QueueValues) (now : Int) (l : List QueuedTarget) :
    (unexpired sky v now l).length ≤ l.length := by
  refine Nat.le_trans (List.length_filter_le ..) ?_
  split
  · exact (dueFrom_suffix now l).length_le
  · exact Nat.le_refl _

theorem does_filterExpired (sky : Sky) (now : Int) (l : List QueuedTarget) :
    Does w v simul (Que.filterExpired w sky now) l
      (cost simul (l.length - (unexpired sky v now l).length)) () (unexpired sky v now l) := by
  have hexpire (l : List QueuedTarget) : Does w v simul (do
      Que.expire w sky now 0 (← get).queue.entries) l
      (cost simul (l.length - (l.filter (!expired sky v now ·)).length)) ()
      (l.filter (!expired sky v now ·)) := by
    refine does_read fun s hl _ _ => ?_
    rw [hl]
    exact does_expire sky now l []
  refine does_read fun s hl hvalues _ => ?_
  rw [hvalues]
  unfold unexpired
  by_cases hfifo : v.queueType = .fifo
  · rw [if_pos hfifo, if_pos hfifo]
    have hbefore : Does w v simul (Que.expireBefore w now 0 l) l
        (cost simul (0 + l.length - (afterDue now [] l).length)) () (afterDue now [] l) :=
      does_expireBefore now l []
    rw [afterDue_nil, Nat.zero_add] at hbefore
    have hle := (dueFrom_suffix now l).length_le
    have hle' := List.length_filter_le (!expired sky v now ·) (dueFrom now l)
    refine does_read fun s hl _ _ => ?_
    rw [hl]
    refine Does.congr (does_bind hbefore (hexpire _)) ?_ rfl
    rw [cost_add]
    congr 1
    omega
  · rw [if_neg hfifo, if_neg hfifo]
    exact hexpire l

end Expired

/-! ## Entries that cannot be observed -/

section Unobservable
variable (sky : Sky) (v : QueueValues) (now : Int) (maxLength : Option Int) (removeObserved : Bool)

/-- The entry ends the search of `filterUnobservable`. -/
def ready (e : QueuedTarget) : Bool :=
  !Que.shiftCircular v now e && Que.observable sky v maxLength removeObserved e

/-- The entries the search passes. -/
def passed (l : List QueuedTarget) : List QueuedTarget :=
  l.takeWhile (!ready sky v now maxLength removeObserved ·)

/-- Those of them that are kept for later. -/
def aside (l : List QueuedTarget) : List QueuedTarget :=
  ((passed sky v now maxLength removeObserved l).filter (!Que.leaves sky v now ·)).map
    fun e => { e with unobservableReported := true }

/-- The entries from the first that can be observed on. -/
def readyFrom (l : List QueuedTarget) : List QueuedTarget :=
  if maxLength.isNone then
    (l.dropWhile (!ready sky v now maxLength removeObserved ·)).modifyHead
      fun e => { e with unobservableReported := false }
  else l.dropWhile (!ready sky v now maxLength removeObserved ·)

/-- The first that can be observed stays at the front if it has started. -/
def arranged (skipped : List QueuedTarget) : List QueuedTarget → List QueuedTarget
  | [] => skipped
  | front :: rest =>
    if front.tStart.all (· ≤ now) then front :: (skipped ++ rest) else skipped ++ front :: rest

/-- What `filter` leaves. -/
def filtered (l : List QueuedTarget) : List QueuedTarget :=
  let l := unexpired sky v now l
  if v.blockUntilVisible then l
  else arranged now (aside sky v now maxLength removeObserved l)
    (readyFrom sky v now maxLength removeObserved l)

/-- What `filter` returns. -/
def verdict (l : List QueuedTarget) : Bool × Option Int :=
  if v.blockUntilVisible then (true, none)
  else match readyFrom sky v now maxLength removeObserved (unexpired sky v now l) with
    | [] => (false, none)
    | front :: _ => (front.tStart.all (· ≤ now), front.tStart)

/-- How many statements of the database it takes. -/
def statements (simul : Bool) (l : List QueuedTarget) : Nat :=
  let left := unexpired sky v now l
  cost simul (l.length - left.length) +
    if v.blockUntilVisible then 0
    else ((passed sky v now maxLength removeObserved left).filter
      (Que.leaves sky v now)).length + cost simul 1

variable {w : World} {simul : Bool}
variable {sky v now maxLength removeObserved}

theorem passed_ready {e : QueuedTarget} {rest : List QueuedTarget}
    (he : ready sky v now maxLength removeObserved e = true) :
    passed sky v now maxLength removeObserved (e :: rest) = [] := by
  simp [passed, he]

theorem passed_cons {e : QueuedTarget} {rest : List QueuedTarget}
    (he : ready sky v now maxLength removeObserved e = false) :
    passed sky v now maxLength removeObserved (e :: rest) =
      e :: passed sky v now maxLength removeObserved rest := by
  simp [passed, he]

theorem readyFrom_cons {e : QueuedTarget} {rest : List QueuedTarget}
    (he : ready sky v now maxLength removeObserved e = false) :
    readyFrom sky v now maxLength removeObserved (e :: rest) =
      readyFrom sky v now maxLength removeObserved rest := by
  simp [readyFrom, he]

theorem does_filterUnobservable (l : List QueuedTarget) :
    ∀ skipped, Does w v simul
      (Que.filterUnobservable w sky now maxLength removeObserved l skipped) l
      ((passed sky v now maxLength removeObserved l).filter (Que.leaves sky v now)).length
      (skipped ++ aside sky v now maxLength removeObserved l)
      (readyFrom sky v now maxLength removeObserved l) := by
  induction l with
  | nil =>
    intro skipped
    have haside : aside sky v now maxLength removeObserved [] = [] := rfl
    have hfrom : readyFrom sky v now maxLength removeObserved [] = [] := by
      unfold readyFrom
      split <;> rfl
    rw [haside, hfrom, List.append_nil]
    exact does_pure skipped
  | cons e rest ih =>
    intro skipped
    have htail : Does w v simul (Que.modifyEntries List.tail) (e :: rest) 0 () rest :=
      does_modifyEntries _
    refine does_read fun s _ hvalues _ => ?_
    rw [hvalues]
    by_cases hready : ready sky v now maxLength removeObserved e = true
    · have hstop : (!Que.shiftCircular v now e &&
          Que.observable sky v maxLength removeObserved e) = true := hready
      have haside : aside sky v now maxLength removeObserved (e :: rest) = [] := by
        rw [aside, passed_ready hready]
        rfl
      rw [if_pos hstop, passed_ready hready, haside, List.append_nil]
      cases hlength : maxLength with
      | none =>
        subst hlength
        have hhead : Does w v simul
            (Que.modifyEntries (·.modifyHead fun e => { e with unobservableReported := false }))
            (e :: rest) 0 () (readyFrom sky v now none removeObserved (e :: rest)) :=
          (does_modifyEntries _).congr rfl (by simp [readyFrom, hready])
        exact Does.congr (does_bind hhead (does_pure skipped)) rfl rfl
      | some length =>
        subst hlength
        exact (does_pure skipped).congr rfl (by simp [readyFrom, hready])
    · have hnot : ready sky v now maxLength removeObserved e = false := by simpa using hready
      have hstop : ¬ (!Que.shiftCircular v now e &&
          Que.observable sky v maxLength removeObserved e) = true := hready
      rw [if_neg hstop, passed_cons hnot, readyFrom_cons hnot]
      by_cases hleaves : Que.leaves sky v now e = true
      · have haside : aside sky v now maxLength removeObserved (e :: rest) =
            aside sky v now maxLength removeObserved rest := by
          simp [aside, passed_cons hnot, hleaves]
        rw [if_pos hleaves, haside, List.filter_cons_of_pos hleaves]
        refine Does.congr (does_bind (does_removeRecord false) (does_bind htail (ih skipped))) ?_ rfl
        rw [List.length_cons]
        omega
      · have haside : aside sky v now maxLength removeObserved (e :: rest) =
            { e with unobservableReported := true } ::
              aside sky v now maxLength removeObserved rest := by
          simp [aside, passed_cons hnot, hleaves]
        rw [if_neg hleaves, haside, List.filter_cons_of_neg hleaves]
        have hrest := ih (skipped ++ [{ e with unobservableReported := true }])
        rw [List.append_assoc] at hrest
        exact Does.congr (does_bind htail hrest) (Nat.zero_add _) rfl

/-- The skipped entries go back into the queue. -/
theorem does_arrange (skipped l : List QueuedTarget) :
    Does w v simul (do
      match (← get).queue.entries with
      | [] =>
        Que.modifyEntries (skipped ++ ·)
        Que.updateVals w
        return (false, none)
      | front :: rest =>
        if front.tStart.all (· ≤ now) then
          Que.modifyEntries fun _ => front :: (skipped ++ rest)
          Que.updateVals w
          return (true, front.tStart)
        else
          Que.modifyEntries (skipped ++ ·)
          Que.updateVals w
          return (false, front.tStart)) l (cost simul 1)
      (match l with
        | [] => (false, none)
        | front :: _ => (front.tStart.all (· ≤ now), front.tStart))
      (arranged now skipped l) := by
  have hdone {α : Type} (f : List QueuedTarget → List QueuedTarget) (l : List QueuedTarget) (r : α) :
      Does w v simul (do
        Que.modifyEntries f
        Que.updateVals w
        return r) l (cost simul 1) r (f l) :=
    Does.congr (does_bind (does_modifyEntries f) (does_bind does_updateVals (does_pure r)))
      (Nat.zero_add _) rfl
  refine does_read fun s hl _ _ => ?_
  rw [hl]
  cases l with
  | nil => exact (hdone _ [] _).congr rfl (List.append_nil skipped)
  | cons front rest =>
    by_cases hstart : front.tStart.all (· ≤ now) = true
    · dsimp only
      rw [if_pos hstart, hstart]
      exact (hdone _ _ _).congr rfl (by rw [arranged, if_pos hstart])
    · have hfalse : front.tStart.all (· ≤ now) = false := by simpa using hstart
      dsimp only
      rw [if_neg hstart, hfalse]
      exact (hdone _ _ _).congr rfl (by rw [arranged, if_neg hstart])

/-- **What a filter does.** -/
theorem filter_ends {s : QueState} {a : Nat} {l : List QueuedTarget} (h : At a l v simul s)
    (now : Int) (maxLength : Option Int) (removeObserved : Bool) :
    Ends (Que.filter w now maxLength removeObserved) s
      (fun r s' => r = verdict (w.sky a) v now maxLength removeObserved l ∧
        At (a + 1 + statements (w.sky a) v now maxLength removeObserved simul l)
          (filtered (w.sky a) v now maxLength removeObserved l) v simul s' ∧
        Fine w (a + 1) (statements (w.sky a) v now maxLength removeObserved simul l))
      fun e _ => e = .error ∧
        ¬ Fine w (a + 1) (statements (w.sky a) v now maxLength removeObserved simul l) := by
  refine Ends.bind (R := fun sky s' => sky = w.sky a ∧ At (a + 1) l v simul s') ?_
    fun sky s' hs => ?_
  · exact ⟨congrArg w.sky h.asked, congrArg (· + 1) h.asked, h.entries, h.values, h.simul⟩
  obtain ⟨rfl, hat⟩ := hs
  refine (?_ : Does w v simul _ l _ _ _) (a + 1) s' hat
  unfold statements verdict filtered
  refine does_bind (does_filterExpired (w.sky a) now l) ?_
  refine does_read fun s _ hvalues _ => ?_
  rw [hvalues]
  by_cases hblock : v.blockUntilVisible = true
  · rw [if_pos hblock, if_pos hblock, if_pos hblock, if_pos hblock]
    exact does_pure _
  · rw [if_neg hblock, if_neg hblock, if_neg hblock, if_neg hblock]
    refine does_read fun s hl _ _ => ?_
    rw [hl]
    exact does_bind (does_filterUnobservable _ []) (does_arrange _ _)

end Unobservable
/-! ## Creating and adding -/

section Adding
variable {w : World} {v : QueueValues} {simul : Bool} {l : List QueuedTarget} {a : Nat}
  {s : QueState}

theorem createTarget_ends (h : At a l v simul s) (tarId : Int) :
    Ends (Que.createTarget w tarId) s
      (fun nt s' => ∃ type, w.createTarget a tarId = some type ∧
        nt = ⟨s.pool.created, tarId, type⟩ ∧ At (a + 1) l v simul s')
      fun e _ => e = .error ∧ w.createTarget a tarId = none := by
  refine Ends.bind (R := fun answer s' => answer = w.createTarget a tarId ∧
      At (a + 1) l v simul s' ∧ s'.pool.created = s.pool.created) ?_ fun answer s' hs => ?_
  · refine ⟨by rw [h.asked], ⟨congrArg (· + 1) h.asked, h.entries, h.values, h.simul⟩, rfl⟩
  obtain ⟨hanswer, hat, hcreated⟩ := hs
  cases answer with
  | none => exact ⟨rfl, hanswer.symm⟩
  | some type =>
    refine ⟨type, hanswer.symm, by rw [← hcreated], ?_⟩
    exact ⟨hat.asked, hat.entries, hat.values, hat.simul⟩

/-- `QueuedTarget` takes an id and a statement of the database. -/
theorem newEntry_ends (h : At a l v simul s) (nt : Target) (tStart tEnd : Option Int) (repN : Int)
    (repSeparation : Option Int) (planId : Int) (hard : Bool) :
    Ends (Que.newEntry w nt tStart tEnd repN repSeparation planId hard) s
      (fun qt s' => ∃ qid, w.nextQid a = some qid ∧ Fine w (a + 1) 1 ∧
        qt = ⟨nt, qid, planId, tStart, tEnd, repN, repSeparation, hard, false⟩ ∧
        At (a + 2) l v simul s')
      fun e _ => e = .error ∧ ¬ ∃ qid, w.nextQid a = some qid ∧ Fine w (a + 1) 1 := by
  refine Ends.bind (R := fun answer s' => answer = w.nextQid a ∧ At (a + 1) l v simul s') ?_
    fun answer s' hs => ?_
  · exact ⟨by rw [h.asked], congrArg (· + 1) h.asked, h.entries, h.values, h.simul⟩
  obtain ⟨hanswer, hat⟩ := hs
  cases answer with
  | none =>
    refine ⟨rfl, fun hex => ?_⟩
    obtain ⟨qid, hqid, -⟩ := hex
    rw [← hanswer] at hqid
    cases hqid
  | some qid =>
    have hwrite : Does w v simul (do
        Que.dbWrite w
        return (⟨nt, qid, planId, tStart, tEnd, repN, repSeparation, hard, false⟩ : QueuedTarget))
        l 1 _ l := Does.congr (does_bind does_dbWrite (does_pure _)) rfl rfl
    refine (hwrite (a + 1) s' hat).mono (fun qt s'' hq => ?_) fun e _ he => ⟨he.1, fun hex => ?_⟩
    · exact ⟨qid, hanswer.symm, hq.2.2, hq.1, hq.2.1⟩
    · exact he.2 hex.choose_spec.2

theorem addFront_ends (h : At a l v false s) (nt : Target) (tStart tEnd : Option Int) :
    Ends (Que.addFront w nt tStart tEnd) s
      (fun _ s' => ∃ qid, w.nextQid a = some qid ∧ Fine w (a + 1) 2 ∧
        At (a + 3) (⟨nt, qid, -1, tStart, tEnd, -1, none, false, false⟩ :: l) v false s')
      fun e _ => e = .error ∧ ¬ ∃ qid, w.nextQid a = some qid ∧ Fine w (a + 1) 2 := by
  have hfine : Fine w (a + 1) 2 ↔ Fine w (a + 1) 1 ∧ Fine w (a + 2) 1 :=
    fine_add (m := 1) (n := 1)
  refine Ends.bind (Ends.mono (newEntry_ends h nt tStart tEnd (-1) none (-1) false)
    (fun _ _ hq => hq) fun e _ he => ⟨he.1, fun hex => ?_⟩) fun qt s' hq => ?_
  · obtain ⟨qid, hqid, hf⟩ := hex
    exact he.2 ⟨qid, hqid, (hfine.mp hf).1⟩
  obtain ⟨qid, hqid, hf, rfl, hat⟩ := hq
  have hrest (qt : QueuedTarget) : Does w v false (do
      Que.modifyEntries (qt :: ·)
      Que.updateVals w
      return qt.qid) l 1 qt.qid (qt :: l) :=
    Does.congr (does_bind (does_modifyEntries _) (does_bind does_updateVals (does_pure _))) rfl rfl
  refine (hrest _ (a + 2) s' hat).mono (fun _ s'' hs => ?_) fun e _ he => ⟨he.1, fun hex => ?_⟩
  · exact ⟨qid, hqid, hfine.mpr ⟨hf, hs.2.2⟩, hs.2.1⟩
  · exact he.2 (hfine.mp hex.choose_spec.2).2

end Adding
end Rts2.Plan

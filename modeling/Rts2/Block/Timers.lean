import Mathlib.Data.Int.Order.Basic
import Mathlib.Data.List.Nodup
import Mathlib.Order.Compare
import Mathlib.Order.Lattice
import Mathlib.Tactic.Tauto
import Rts2.Lib.Run

/-! # Timers of a block

`Block::addTimer` keeps events in a map from the time they are due, and the loop
of `Block::idle` posts those whose time has passed. A node is erased only at the
end of the loop: `toDelete` holds the nodes that were posted or deleted since.
Handlers add and delete timers while the loop stands at a node, so a run is a
list of calls and of evaluations of the loop's condition, each with the clock it
read. Times are any linear order with an addition. -/
namespace Rts2.Timers

open Rts2.Lib

/-- An event object. `serial` tells the objects apart, `arg` is the object the
event is posted to; without one it is posted to the block. -/
structure Event where
  serial : Nat
  type : Int
  arg : Option Nat
  deriving DecidableEq

/-- The timers of a block. `iter_t` is the iterator of the loop of `idle`: `none`
outside of the loop, `some none` before its first evaluation. The last three
fields record what was done with the events: added with the time they were due,
posted with the clock the loop had read, deleted by `deleteTimers`. -/
structure Block (T : Type*) [LinearOrder T] where
  timers : Std.TreeMap T Event := ∅
  toDelete : List T := []
  iter_t : Option (Option T) := none
  added : List (Event × T) := []
  posted : List (Event × T) := []
  deleted : List Event := []

variable {T : Type*} [LinearOrder T]

namespace Block

/-- `Block::addTimer`. -/
def addTimer [Add T] (getNow timer_time : T) (type : Int) (arg : Option Nat) (b : Block T) :
    Block T :=
  let event := ⟨b.added.length, type, arg⟩
  { b with
    timers := b.timers.insert (getNow + timer_time) event
    added := b.added ++ [(event, getNow + timer_time)] }

/-- `Block::pushToDelete`: only unique iterators are pushed. -/
def pushToDelete (iter : T) (b : Block T) : Bool × Block T :=
  if iter ∈ b.toDelete then (false, b) else (true, { b with toDelete := b.toDelete ++ [iter] })

/-- The body of the loop of `Block::deleteTimers`. -/
def deleteTimer (event_type : Int) (b : Block T) (iter : T × Event) : Block T :=
  if iter.2.type = event_type then
    let (pushed, b) := b.pushToDelete iter.1
    if pushed then { b with deleted := b.deleted ++ [iter.2] } else b
  else b

/-- `Block::deleteTimers`. -/
def deleteTimers (event_type : Int) (b : Block T) : Block T :=
  b.timers.toList.foldl (deleteTimer event_type) b

/-- The node the loop of `idle` looks at next. -/
def nextTimer (b : Block T) (iter : Option T) : Option (T × Event) :=
  b.timers.toList.find? fun node => iter.all (· < node.1)

/-- The end of `Block::idle`: the nodes queued for delete are erased. -/
def endIdle (b : Block T) : Block T :=
  { b with
    timers := b.toDelete.foldl (fun timers iter => timers.erase iter) b.timers
    toDelete := []
    iter_t := none }

/-- The loop of `Block::idle` moves on, its condition is evaluated and, where it
holds, the event is given to its handler. -/
def timerTurn (getNow : T) (iter : Option T) (b : Block T) : Block T :=
  match b.nextTimer iter with
  | none => b.endIdle
  | some (time, sec) =>
    if time < getNow then
      let (pushed, b) := b.pushToDelete time
      if pushed then { b with iter_t := some (some time), posted := b.posted ++ [(sec, getNow)] }
      else { b with iter_t := some (some time) }
    else b.endIdle

end Block

/-- What happens to a block. -/
inductive Input (T : Type*) where
  | addTimer (getNow timer_time : T) (type : Int) (arg : Option Nat)
  | deleteTimers (event_type : Int)
  | idle
  | turn (getNow : T)

/-- One step. `idle` is not called from a handler, and the loop has turns only
while it runs. -/
def step [Add T] (b : Block T) : Input T → Block T
  | .addTimer now time type arg => b.addTimer now time type arg
  | .deleteTimers type => b.deleteTimers type
  | .idle => match b.iter_t with
    | none => { b with iter_t := some none }
    | some _ => b
  | .turn now => match b.iter_t with
    | none => b
    | some iter => b.timerTurn now iter

/-- A timer is added at a time that has no node in the map. -/
def NewTime [Add T] (b : Block T) : Input T → Prop
  | .addTimer now time _ _ => now + time ∉ b.timers
  | _ => True

instance NewTime.decidable [Add T] (b : Block T) : DecidablePred (NewTime b)
  | .addTimer now time _ _ => inferInstanceAs (Decidable (now + time ∉ b.timers))
  | .deleteTimers _ | .idle | .turn _ => inferInstanceAs (Decidable True)

/-- The event waits in the map for its time. -/
def Block.Pending (b : Block T) (e : Event) (due : T) : Prop :=
  b.timers[due]? = some e ∧ due ∉ b.toDelete

/-- The event was posted. -/
def Block.Posted (b : Block T) (e : Event) : Prop := e ∈ b.posted.map Prod.fst

/-- The event was posted or deleted. -/
def Block.Closed (b : Block T) (e : Event) : Prop := b.Posted e ∨ e ∈ b.deleted

/-! ## The nodes of the map -/

theorem mem_timers {b : Block T} {time : T} {e : Event} :
    (time, e) ∈ b.timers.toList ↔ b.timers[time]? = some e :=
  Std.TreeMap.mem_toList_iff_getElem?_eq_some

theorem timers_mem {b : Block T} {time : T} {e : Event} (h : b.timers[time]? = some e) :
    time ∈ b.timers := by
  rw [Std.TreeMap.mem_iff_isSome_getElem?, h]
  rfl

/-- The next node is the first one after the iterator. -/
theorem nextTimer_some {b : Block T} {iter : Option T} {time : T} {e : Event}
    (h : b.nextTimer iter = some (time, e)) :
    b.timers[time]? = some e ∧ (∀ i, iter = some i → i < time) ∧
      ∀ d e', b.timers[d]? = some e' → (∀ i, iter = some i → i < d) → time ≤ d := by
  obtain ⟨hafter, pre, post, hsplit, hpre⟩ := List.find?_eq_some_iff_append.1 h
  have hmem : (time, e) ∈ b.timers.toList := by rw [hsplit]; simp
  refine ⟨mem_timers.1 hmem, ?_, ?_⟩
  · intro i hi
    simpa [hi] using hafter
  · intro d e' hd hi
    have hd' := mem_timers.2 hd
    have hsorted := Std.TreeMap.ordered_keys_toList (t := b.timers)
    rw [hsplit] at hd' hsorted
    rcases List.mem_append.1 hd' with hd' | hd'
    · -- a node before the one found does not come after the iterator
      have hfalse := hpre _ hd'
      cases iter with
      | none => simp at hfalse
      | some i => simp [hi i rfl] at hfalse
    · rcases List.mem_cons.1 hd' with hd' | hd'
      · exact le_of_eq (congrArg Prod.fst hd').symm
      · have hlt := (List.pairwise_append.1 hsorted).2.1
        exact le_of_lt (compare_lt_iff_lt.1 ((List.pairwise_cons.1 hlt).1 _ hd'))

theorem nextTimer_none {b : Block T} {iter : Option T} (h : b.nextTimer iter = none) (d : T)
    (e : Event) (hd : b.timers[d]? = some e) : ¬ ∀ i, iter = some i → i < d := by
  intro hi
  have hfalse := List.find?_eq_none.1 h _ (mem_timers.2 hd)
  cases iter with
  | none => simp at hfalse
  | some i => simp [hi i rfl] at hfalse

/-- The map after the nodes queued for delete are erased. -/
theorem foldl_erase (iters : List T) (timers : Std.TreeMap T Event) (d : T) :
    (iters.foldl (fun timers iter => timers.erase iter) timers)[d]? =
      if d ∈ iters then none else timers[d]? := by
  induction iters generalizing timers with
  | nil => simp
  | cons iter iters ih =>
    rw [List.foldl_cons, ih, Std.TreeMap.getElem?_erase]
    by_cases hd : d = iter
    · simp [hd]
    · have hne : compare iter d ≠ .eq := fun h => hd (compare_eq_iff_eq.1 h).symm
      simp [hd, hne]

/-! ## Each event in one place -/

/-- What holds of the timers of a block between any two steps: the nodes hold events
that were added for their time, an event waits, was posted or was deleted, and never
two of these. -/
structure Accounted (b : Block T) : Prop where
  serial_lt : ∀ p ∈ b.added, p.1.serial < b.added.length
  serials : (b.added.map fun p => p.1.serial).Nodup
  marked : ∀ d ∈ b.toDelete, d ∈ b.timers
  held : ∀ d e, b.timers[d]? = some e → (e, d) ∈ b.added
  waits : ∀ e d, b.Pending e d → ¬ b.Closed e
  placed : ∀ e d, (e, d) ∈ b.added → b.Pending e d ∨ b.Closed e
  once : (b.posted.map Prod.fst).Nodup
  past : ∀ e now, (e, now) ∈ b.posted → ∃ d, (e, d) ∈ b.added ∧ d < now
  known : ∀ e ∈ b.deleted, ∃ d, (e, d) ∈ b.added
  unposted : ∀ e ∈ b.deleted, ¬ b.Posted e

theorem accounted_start : Accounted ({} : Block T) := by
  constructor <;> simp [Block.Posted, Block.Pending, Block.Closed]

section
variable {b : Block T} {e : Event} {d : T}

/-- An event is due at one time. -/
theorem Accounted.due_eq (h : Accounted b) {d' : T} (hd : (e, d) ∈ b.added)
    (hd' : (e, d') ∈ b.added) : d = d' := by
  have := List.inj_on_of_nodup_map h.serials hd hd' rfl
  exact congrArg Prod.snd this

theorem Accounted.closed_added (h : Accounted b) (he : b.Closed e) :
    ∃ d, (e, d) ∈ b.added := by
  rcases he with he | he
  · obtain ⟨⟨e', now⟩, hmem, rfl⟩ := List.mem_map.1 he
    obtain ⟨d, hd, _⟩ := h.past _ _ hmem
    exact ⟨d, hd⟩
  · exact h.known e he

/-- Only the fields read by `Accounted` matter. -/
theorem Accounted.iter (h : Accounted b) (iter : Option (Option T)) :
    Accounted { b with iter_t := iter } :=
  ⟨h.serial_lt, h.serials, h.marked, h.held, h.waits, h.placed, h.once, h.past, h.known,
    h.unposted⟩

theorem Accounted.addTimer [Add T] (h : Accounted b) {getNow timer_time : T}
    (hnew : getNow + timer_time ∉ b.timers) (type : Int) (arg : Option Nat) :
    Accounted (b.addTimer getNow timer_time type arg) := by
  have hfresh : ∀ d, ((⟨b.added.length, type, arg⟩ : Event), d) ∉ b.added := by
    intro d hd
    exact Nat.lt_irrefl _ (h.serial_lt _ hd)
  have hget : ∀ d, (b.timers.insert (getNow + timer_time) ⟨b.added.length, type, arg⟩)[d]? =
      if getNow + timer_time = d then some ⟨b.added.length, type, arg⟩ else b.timers[d]? := by
    intro d
    simp only [Std.TreeMap.getElem?_insert, compare_eq_iff_eq]
  constructor
  · intro p hp
    simp only [Block.addTimer, List.mem_append, List.mem_singleton, List.length_append,
      List.length_singleton] at hp ⊢
    rcases hp with hp | rfl
    · exact Nat.lt_succ_of_lt (h.serial_lt p hp)
    · exact Nat.lt_succ_self _
  · simp only [Block.addTimer, List.map_append, List.nodup_append, List.map_singleton]
    refine ⟨h.serials, List.nodup_singleton _, ?_⟩
    simp only [List.mem_map, List.mem_singleton]
    rintro _ ⟨p, hp, rfl⟩ _ rfl
    exact Nat.ne_of_lt (h.serial_lt p hp)
  · intro d hd
    exact Std.TreeMap.mem_insert.2 (Or.inr (h.marked d hd))
  · intro d e hd
    simp only [Block.addTimer, hget] at hd
    split at hd
    · next htime =>
      cases hd
      simp [Block.addTimer, htime]
    · exact List.mem_append_left _ (h.held d e hd)
  · rintro e d ⟨hd, hmarked⟩
    simp only [Block.addTimer, hget] at hd
    split at hd
    · cases hd
      intro hclosed
      obtain ⟨d', hd'⟩ := h.closed_added hclosed
      exact hfresh d' hd'
    · exact h.waits e d ⟨hd, hmarked⟩
  · intro e d hadded
    rcases List.mem_append.1 hadded with hadded | hadded
    · rcases h.placed e d hadded with ⟨hd, hmarked⟩ | hdone
      · have hne : getNow + timer_time ≠ d := fun htime => hnew (htime ▸ timers_mem hd)
        exact Or.inl ⟨by simp [Block.addTimer, hget, hne, hd], hmarked⟩
      · exact Or.inr hdone
    · cases List.mem_singleton.1 hadded
      refine Or.inl ⟨by simp [Block.addTimer], fun hmarked => ?_⟩
      exact hnew (h.marked _ hmarked)
  · exact h.once
  · intro e now hposted
    obtain ⟨d, hd, hlt⟩ := h.past e now hposted
    exact ⟨d, List.mem_append_left _ hd, hlt⟩
  · intro e hdeleted
    obtain ⟨d, hd⟩ := h.known e hdeleted
    exact ⟨d, List.mem_append_left _ hd⟩
  · exact h.unposted

/-- The events that wait after a node is queued for delete. -/
theorem pending_marked (h : Accounted b) (hd : b.timers[d]? = some e) {b' : Block T}
    (htimers : b'.timers = b.timers) (hmarked : b'.toDelete = b.toDelete ++ [d]) (e' : Event)
    (d' : T) : b'.Pending e' d' ↔ b.Pending e' d' ∧ e' ≠ e := by
  simp only [Block.Pending, htimers, hmarked, List.mem_append, List.mem_singleton, not_or,
    and_assoc]
  constructor
  · rintro ⟨hd', hfree, hne⟩
    refine ⟨hd', hfree, ?_⟩
    rintro rfl
    exact hne (h.due_eq (h.held _ _ hd') (h.held _ _ hd))
  · rintro ⟨hd', hfree, hne⟩
    refine ⟨hd', hfree, ?_⟩
    rintro rfl
    exact hne (Option.some.inj (hd'.symm.trans hd))

/-- A node is queued for delete and its event closed: what is left to show is about the
record that took the event. -/
theorem Accounted.close (h : Accounted b) (hp : b.Pending e d) {b' : Block T}
    (htimers : b'.timers = b.timers) (hadded : b'.added = b.added)
    (hmarked : b'.toDelete = b.toDelete ++ [d])
    (hclosed : ∀ e', b'.Closed e' ↔ b.Closed e' ∨ e' = e)
    (once : (b'.posted.map Prod.fst).Nodup)
    (past : ∀ e now, (e, now) ∈ b'.posted → ∃ d, (e, d) ∈ b.added ∧ d < now)
    (known : ∀ e ∈ b'.deleted, ∃ d, (e, d) ∈ b.added)
    (unposted : ∀ e ∈ b'.deleted, ¬ b'.Posted e) : Accounted b' := by
  have hwait := pending_marked h hp.1 htimers hmarked
  constructor
  · rw [hadded]
    exact h.serial_lt
  · rw [hadded]
    exact h.serials
  · intro d' hd'
    rw [htimers]
    rw [hmarked] at hd'
    rcases List.mem_append.1 hd' with hd' | hd'
    · exact h.marked d' hd'
    · rw [List.mem_singleton.1 hd']
      exact timers_mem hp.1
  · rw [htimers, hadded]
    exact h.held
  · intro e' d' hp' hdone
    obtain ⟨hp', hne⟩ := (hwait e' d').1 hp'
    rcases (hclosed e').1 hdone with hdone | he
    · exact h.waits e' d' hp' hdone
    · exact hne he
  · intro e' d' he'
    rw [hadded] at he'
    rw [hwait, hclosed]
    by_cases he : e' = e
    · exact Or.inr (Or.inr he)
    · rcases h.placed e' d' he' with hp' | hdone
      · exact Or.inl ⟨hp', he⟩
      · exact Or.inr (Or.inl hdone)
  · exact once
  · rw [hadded]
    exact past
  · rw [hadded]
    exact known
  · exact unposted

/-- An event that waits and whose time has passed is posted. -/
theorem Accounted.post (h : Accounted b) (hp : b.Pending e d) {now : T} (hlt : d < now)
    (iter : Option (Option T)) :
    Accounted { b with
      toDelete := b.toDelete ++ [d], iter_t := iter, posted := b.posted ++ [(e, now)] } := by
  have hopen := h.waits e d hp
  refine h.close hp rfl rfl rfl ?_ ?_ ?_ h.known ?_
  · intro e'
    simp only [Block.Closed, Block.Posted, List.map_append, List.mem_append, List.map_singleton,
      List.mem_singleton]
    tauto
  · rw [List.map_append, List.nodup_append]
    refine ⟨h.once, List.nodup_singleton _, ?_⟩
    rintro e₁ he₁ e₂ he₂ rfl
    rw [List.mem_singleton.1 he₂] at he₁
    exact hopen (Or.inl he₁)
  · intro e' now' hmem
    rcases List.mem_append.1 hmem with hmem | hmem
    · exact h.past e' now' hmem
    · cases List.mem_singleton.1 hmem
      exact ⟨d, h.held d e hp.1, hlt⟩
  · intro e' hdeleted hposted
    simp only [Block.Posted, List.map_append, List.mem_append, List.map_singleton,
      List.mem_singleton] at hposted
    rcases hposted with hposted | rfl
    · exact h.unposted e' hdeleted hposted
    · exact hopen (Or.inr hdeleted)

/-- An event that waits is deleted. -/
theorem Accounted.delete (h : Accounted b) (hp : b.Pending e d) :
    Accounted { b with toDelete := b.toDelete ++ [d], deleted := b.deleted ++ [e] } := by
  have hopen := h.waits e d hp
  refine h.close hp rfl rfl rfl ?_ h.once h.past ?_ ?_
  · intro e'
    simp only [Block.Closed, Block.Posted, List.mem_append, List.mem_singleton]
    tauto
  · intro e' hdeleted
    rcases List.mem_append.1 hdeleted with hdeleted | hdeleted
    · exact h.known e' hdeleted
    · rw [List.mem_singleton.1 hdeleted]
      exact ⟨d, h.held d e hp.1⟩
  · intro e' hdeleted hposted
    rcases List.mem_append.1 hdeleted with hdeleted | hdeleted
    · exact h.unposted e' hdeleted hposted
    · rw [List.mem_singleton.1 hdeleted] at hposted
      exact hopen (Or.inl hposted)

/-- What waits at the end of the loop still waits when the nodes are erased. -/
theorem pending_endIdle : b.endIdle.Pending e d ↔ b.Pending e d := by
  simp [Block.Pending, Block.endIdle, foldl_erase, and_comm]

theorem Accounted.endIdle (h : Accounted b) : Accounted b.endIdle := by
  constructor
  · exact h.serial_lt
  · exact h.serials
  · intro d hd
    cases hd
  · intro d e hd
    simp only [Block.endIdle, foldl_erase] at hd
    split at hd
    · cases hd
    · exact h.held d e hd
  · intro e d hp
    exact h.waits e d (pending_endIdle.1 hp)
  · intro e d hadded
    rcases h.placed e d hadded with hp | hdone
    · exact Or.inl (pending_endIdle.2 hp)
    · exact Or.inr hdone
  · exact h.once
  · exact h.past
  · exact h.known
  · exact h.unposted

/-- Nothing but the record of deleted events and the queue of nodes changes. -/
theorem deleteTimer_timers (event_type : Int) (b : Block T) (iter : T × Event) :
    (b.deleteTimer event_type iter).timers = b.timers ∧
      (b.deleteTimer event_type iter).added = b.added ∧
      (b.deleteTimer event_type iter).iter_t = b.iter_t ∧
      (b.deleteTimer event_type iter).posted = b.posted := by
  unfold Block.deleteTimer Block.pushToDelete
  split_ifs <;> simp

theorem Accounted.deleteTimer (h : Accounted b) (hd : b.timers[d]? = some e)
    (event_type : Int) : Accounted (b.deleteTimer event_type (d, e)) := by
  unfold Block.deleteTimer Block.pushToDelete
  by_cases htype : e.type = event_type
  · by_cases hmarked : d ∈ b.toDelete
    · simpa [htype, hmarked] using h
    · simpa [htype, hmarked] using h.delete ⟨hd, hmarked⟩
  · simpa [htype] using h

/-- The loop of `deleteTimers`: what a turn keeps, for the nodes of the map, the loop
keeps. -/
theorem foldl_deleteTimer {I : Block T → Prop} (event_type : Int)
    (hturn : ∀ b d e, I b → b.timers[d]? = some e → I (b.deleteTimer event_type (d, e)))
    (nodes : List (T × Event)) (b : Block T) (hb : I b)
    (hnodes : ∀ n ∈ nodes, b.timers[n.1]? = some n.2) :
    I (nodes.foldl (Block.deleteTimer event_type) b) := by
  induction nodes generalizing b with
  | nil => exact hb
  | cons n nodes ih =>
    refine ih _ (hturn b n.1 n.2 hb (hnodes n (List.mem_cons_self ..))) ?_
    intro n' hn'
    rw [(deleteTimer_timers event_type b n).1]
    exact hnodes n' (List.mem_cons_of_mem _ hn')

theorem deleteTimers_keeps {I : Block T → Prop} (event_type : Int)
    (hturn : ∀ b d e, I b → b.timers[d]? = some e → I (b.deleteTimer event_type (d, e)))
    (hb : I b) : I (b.deleteTimers event_type) :=
  foldl_deleteTimer event_type hturn _ b hb fun n hn => mem_timers.1 (by exact hn)

theorem Accounted.timerTurn (h : Accounted b) (getNow : T) (iter : Option T) :
    Accounted (b.timerTurn getNow iter) := by
  unfold Block.timerTurn
  cases hnext : b.nextTimer iter with
  | none => exact h.endIdle
  | some node =>
    obtain ⟨time, sec⟩ := node
    obtain ⟨hd, _⟩ := nextTimer_some hnext
    by_cases hlt : time < getNow
    · by_cases hmarked : time ∈ b.toDelete
      · simpa [Block.pushToDelete, hlt, hmarked] using h.iter _
      · simpa [Block.pushToDelete, hlt, hmarked] using h.post ⟨hd, hmarked⟩ hlt _
    · simpa [hlt] using h.endIdle

/-- **Every step accounts** for the events, if a new timer has a time of its own. -/
theorem Accounted.step [Add T] (h : Accounted b) {input : Input T} (hnew : NewTime b input) :
    Accounted (step b input) := by
  cases input with
  | addTimer now time type arg => exact h.addTimer hnew type arg
  | deleteTimers type =>
    exact deleteTimers_keeps type (fun b d e hb hd => hb.deleteTimer hd type) h
  | idle =>
    unfold Timers.step
    cases b.iter_t with
    | none => exact h.iter _
    | some _ => exact h
  | turn now =>
    unfold Timers.step
    cases b.iter_t with
    | none => exact h
    | some iter => exact h.timerTurn now iter

/-! ## Passes of the loop -/

theorem deleteTimers_iter (event_type : Int) (b : Block T) :
    (b.deleteTimers event_type).iter_t = b.iter_t := by
  refine deleteTimers_keeps (I := fun b' => b'.iter_t = b.iter_t) event_type ?_ rfl
  intro b' d e hb' _
  rw [(deleteTimer_timers event_type b' (d, e)).2.2.1, hb']

theorem deleteTimers_added (event_type : Int) (b : Block T) :
    (b.deleteTimers event_type).added = b.added := by
  refine deleteTimers_keeps (I := fun b' => b'.added = b.added) event_type ?_ rfl
  intro b' d e hb' _
  rw [(deleteTimer_timers event_type b' (d, e)).2.1, hb']

theorem timerTurn_added (getNow : T) (iter : Option T) (b : Block T) :
    (b.timerTurn getNow iter).added = b.added := by
  unfold Block.timerTurn Block.pushToDelete
  cases b.nextTimer iter with
  | none => rfl
  | some node => dsimp only; split_ifs <;> rfl

/-- What was added is never forgotten. -/
theorem step_added [Add T] (b : Block T) (input : Input T) (hadded : (e, d) ∈ b.added) :
    (e, d) ∈ (step b input).added := by
  cases input with
  | addTimer => exact List.mem_append_left _ hadded
  | deleteTimers type => rw [step, deleteTimers_added]; exact hadded
  | idle => unfold step; cases b.iter_t <;> exact hadded
  | turn now =>
    unfold step
    cases b.iter_t with
    | none => exact hadded
    | some iter => dsimp only; rw [timerTurn_added]; exact hadded

theorem Block.Closed.timerTurn (h : b.Closed e) (getNow : T) (iter : Option T) :
    (b.timerTurn getNow iter).Closed e := by
  have hpost : ∀ p, e ∈ (b.posted ++ [p]).map Prod.fst ∨ e ∈ b.deleted := by
    intro p
    rcases h with h | h
    · exact Or.inl (by rw [List.map_append]; exact List.mem_append_left _ h)
    · exact Or.inr h
  unfold Block.timerTurn Block.pushToDelete
  cases b.nextTimer iter with
  | none => exact h
  | some node =>
    by_cases hlt : node.1 < getNow
    · by_cases hmarked : node.1 ∈ b.toDelete
      · simp only [hlt, hmarked, if_true]
        exact h
      · simp only [hlt, hmarked, if_true, if_false]
        exact hpost _
    · simp only [hlt, if_false]
      exact h

/-- A closed event stays closed. -/
theorem Block.Closed.step [Add T] (h : b.Closed e) (input : Input T) :
    (step b input).Closed e := by
  cases input with
  | addTimer => exact h
  | deleteTimers type =>
    refine deleteTimers_keeps (I := fun b' => b'.Closed e) type ?_ h
    intro b' d' e' hb' _
    unfold Block.deleteTimer Block.pushToDelete
    split_ifs
    · exact hb'
    · exact hb'.imp_right (List.mem_append_left _)
    · exact hb'
  | idle => unfold Timers.step; cases b.iter_t <;> exact h
  | turn now =>
    unfold Timers.step
    cases b.iter_t with
    | none => exact h
    | some iter => exact h.timerTurn now iter

/-- The loop of `idle` runs and has not yet come to the time. -/
def Block.Before (b : Block T) (d : T) : Prop :=
  ∃ iter, b.iter_t = some iter ∧ ∀ i, iter = some i → i < d

/-- A turn of a loop that has not come to the time of a waiting event either posts it
or stays before it, if the clock it reads is past that time. -/
theorem timerTurn_before (hp : b.Pending e d) {getNow : T} (hlt : d < getNow) {iter : Option T}
    (hiter : ∀ i, iter = some i → i < d) :
    (b.timerTurn getNow iter).Closed e ∨ (b.timerTurn getNow iter).Before d := by
  cases hnext : b.nextTimer iter with
  | none => exact absurd hiter (nextTimer_none hnext d e hp.1)
  | some node =>
    obtain ⟨time, sec⟩ := node
    obtain ⟨hsec, -, hfirst⟩ := nextTimer_some hnext
    have hle : time ≤ d := hfirst d e hp.1 hiter
    have hnow : time < getNow := lt_of_le_of_lt hle hlt
    unfold Block.timerTurn Block.pushToDelete
    rcases lt_or_eq_of_le hle with htime | rfl
    · right
      simp only [hnext, hnow, if_true]
      by_cases hmarked : time ∈ b.toDelete
      · exact ⟨some time, by simp [hmarked], by simpa using htime⟩
      · exact ⟨some time, by simp [hmarked], by simpa using htime⟩
    · left
      have he : sec = e := Option.some.inj (hsec.symm.trans hp.1)
      simp [hnext, hnow, hp.2, he, Block.Closed, Block.Posted]

/-- While a pass with every clock past its time goes on, an event is closed or the
loop is before it. -/
theorem step_before [Add T] (h : Accounted b) (hadded : (e, d) ∈ b.added) (hb : b.Before d)
    {input : Input T} (hlate : ∀ now, input = .turn now → d < now) :
    (step b input).Closed e ∨ (step b input).Before d := by
  obtain ⟨iter, hiter, hbefore⟩ := hb
  rcases h.placed e d hadded with hp | hclosed
  · cases input with
    | addTimer => exact Or.inr ⟨iter, hiter, hbefore⟩
    | deleteTimers type =>
      exact Or.inr ⟨iter, by rw [step, deleteTimers_iter, hiter], hbefore⟩
    | idle => exact Or.inr ⟨iter, by simp [step, hiter], hbefore⟩
    | turn now =>
      have hturn := timerTurn_before hp (hlate now rfl) hbefore
      simpa [step, hiter] using hturn
  · exact Or.inl (hclosed.step input)

/-- A pass whose clocks are all past the time of an event closes it. -/
theorem pass_closes [Add T] (h : Accounted b) (hadded : (e, d) ∈ b.added)
    (hout : b.iter_t = none) {during : List (Input T)}
    (hnew : Along step NewTime b (.idle :: during))
    (hlate : ∀ now, .turn now ∈ during → d < now)
    (hend : (run step b (.idle :: during)).iter_t = none) :
    (run step b (.idle :: during)).Closed e := by
  rw [run_cons] at hend ⊢
  have hstart : step b .idle = { b with iter_t := some none } := by simp [step, hout]
  have hkept : Accounted (run step (step b .idle) during) ∧
      (e, d) ∈ (run step (step b .idle) during).added ∧
      ((run step (step b .idle) during).Closed e ∨ (run step (step b .idle) during).Before d) := by
    have hok : Along step (fun b input => NewTime b input ∧ ∀ now, input = .turn now → d < now)
        (step b .idle) during := by
      refine hnew.2.and_mem ?_
      rintro input hinput now rfl
      exact hlate now hinput
    refine hok.invariant (I := fun b => Accounted b ∧ (e, d) ∈ b.added ∧ (b.Closed e ∨ b.Before d))
      ⟨h.step trivial, step_added b .idle hadded, ?_⟩ ?_
    · rw [hstart]
      exact Or.inr ⟨none, rfl, by simp⟩
    · rintro b' input ⟨hb', hadded', hplace⟩ ⟨hnew', hlate'⟩
      refine ⟨hb'.step hnew', step_added b' input hadded', ?_⟩
      rcases hplace with hclosed | hbefore
      · exact Or.inl (hclosed.step input)
      · exact step_before hb' hadded' hbefore hlate'
  rcases hkept.2.2 with hclosed | ⟨iter, hiter, _⟩
  · exact hclosed
  · rw [hend] at hiter
    cases hiter

end

/-- **Timers are delivered** if each is added at a time that has no node in the map. An
event that was added waits for its time, was deleted and is not posted, or is posted
once, with the clock past its time. None waits past a pass whose clocks are all past its
time. -/
theorem timers_delivered [Add T] {inputs : List (Input T)} (hnew : Along step NewTime {} inputs) :
    (∀ e d, (e, d) ∈ (run step {} inputs).added →
      (run step {} inputs).Pending e d ∧ ¬ (run step {} inputs).Posted e ∧
          e ∉ (run step {} inputs).deleted ∨
        e ∈ (run step {} inputs).deleted ∧ ¬ (run step {} inputs).Posted e ∨
        e ∉ (run step {} inputs).deleted ∧
          ((run step {} inputs).posted.map Prod.fst).count e = 1 ∧
          ∀ now, (e, now) ∈ (run step {} inputs).posted → d < now) ∧
    ∀ before during, inputs = before ++ .idle :: during →
      (run step {} before).iter_t = none → (run step {} inputs).iter_t = none →
      ∀ e d, (e, d) ∈ (run step {} before).added → (∀ now, .turn now ∈ during → d < now) →
        (run step {} inputs).Posted e ∨ e ∈ (run step {} inputs).deleted := by
  have hacc : Accounted (run step {} inputs) :=
    hnew.invariant accounted_start fun b input hb hok => hb.step hok
  refine ⟨?_, ?_⟩
  · intro e d hadded
    rcases hacc.placed e d hadded with hp | hposted | hdeleted
    · have hopen := hacc.waits e d hp
      exact Or.inl ⟨hp, fun h => hopen (Or.inl h), fun h => hopen (Or.inr h)⟩
    · refine Or.inr (Or.inr ⟨fun h => hacc.unposted e h hposted,
        List.count_eq_one_of_mem hacc.once hposted, ?_⟩)
      intro now hmem
      obtain ⟨d', hd', hlt⟩ := hacc.past e now hmem
      rwa [hacc.due_eq hadded hd']
    · exact Or.inr (Or.inl ⟨hdeleted, hacc.unposted e hdeleted⟩)
  · rintro before during rfl hout hend e d hadded hlate
    rw [along_append] at hnew
    rw [run_append] at hend ⊢
    have hstart : Accounted (run step {} before) :=
      hnew.1.invariant accounted_start fun b input hb hok => hb.step hok
    exact pass_closes hstart hadded hout hnew.2 hlate hend

/-- Two timers, the second deleted by the handler of the first. -/
theorem timers_delivered_two :
    (run step ({} : Block Int) [.addTimer 0 10 1 none, .addTimer 0 20 2 none, .idle, .turn 25,
        .deleteTimers 2, .turn 25, .turn 25]).Posted ⟨0, 1, none⟩ ∨
      ⟨0, 1, none⟩ ∈ (run step ({} : Block Int) [.addTimer 0 10 1 none, .addTimer 0 20 2 none,
        .idle, .turn 25, .deleteTimers 2, .turn 25, .turn 25]).deleted := by
  have hnew : Along step NewTime ({} : Block Int) [.addTimer 0 10 1 none, .addTimer 0 20 2 none,
      .idle, .turn 25, .deleteTimers 2, .turn 25, .turn 25] := by decide
  exact (timers_delivered hnew).2 [.addTimer 0 10 1 none, .addTimer 0 20 2 none]
    [.turn 25, .deleteTimers 2, .turn 25, .turn 25] rfl rfl (by decide) ⟨0, 1, none⟩ 10
    (by decide) (by simp)

/-- Two timers due at the same time share a node of the map: the second takes the place
of the first, which is never posted. -/
theorem same_time_lost :
    (⟨0, 1, none⟩, 10) ∈ (run step ({} : Block Int)
      [.addTimer 0 10 1 none, .addTimer 5 5 2 none, .idle, .turn 20, .turn 20]).added ∧
    (run step ({} : Block Int)
      [.addTimer 0 10 1 none, .addTimer 5 5 2 none, .idle, .turn 20, .turn 20]).iter_t = none ∧
    (run step ({} : Block Int)
      [.addTimer 0 10 1 none, .addTimer 5 5 2 none, .idle, .turn 20, .turn 20]).posted =
        [(⟨1, 2, none⟩, 20)] ∧
    (run step ({} : Block Int)
      [.addTimer 0 10 1 none, .addTimer 5 5 2 none, .idle, .turn 20, .turn 20]).deleted = [] ∧
    (run step ({} : Block Int)
      [.addTimer 0 10 1 none, .addTimer 5 5 2 none, .idle, .turn 20, .turn 20]).timers.isEmpty := by
  decide

end Rts2.Timers

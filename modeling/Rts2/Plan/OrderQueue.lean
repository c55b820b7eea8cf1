import Mathlib.Algebra.Field.Rat
import Mathlib.Algebra.Order.Ring.Rat
import Rts2.Lib.Nodes
import Rts2.Plan.TargetLife
import Rts2.Plan.TargetSort

/-! # Ordering a queue

`sortWestEastMeridian` and `sortOutOfLimits` choose target after target, with a date that moves on by the
durations, and then `orderByTargetList` puts the entries in that order: each is copied to its place and the
old one erased, with an iterator held in the list. -/
namespace Rts2.Plan.OrderQueue
open Lib (Nodes)
open TargetSort (sortByMeridianPriority sortByOutOfLimits)

/-! ## The order -/

/-- What is found outside; a date, a duration or an hour angle that is no number is none. `sort` is `std::list::sort`, of
which only is asked that it permutes. -/
structure Observer where
  sort : (Target → Target → Bool) → List Target → List Target
  sort_perm : ∀ comp l, (sort comp l).Perm l
  getHourAngle : Option ℚ → Target → Option ℚ
  /-- What a comparison asks of a target at a date. -/
  sight : Option ℚ → Target → TargetSort.Target ℚ
  sight_hourAngle : ∀ jd tar, ∀ hourAngle ∈ getHourAngle jd tar, (sight jd tar).hourAngle = hourAngle
  /-- The target is above the horizon, and its constraints are satisfied where they are tested. -/
  visible : Option ℚ → Target → Bool
  getMaximalDuration : Target → Option ℚ
  /-- `ln_get_julian_from_timet` -/
  julian : Int → ℚ

/-- `findTarget`, by the pointer. -/
def findTarget (q : Nodes QueuedTarget) (tar : Target) : Nodes.Iterator :=
  q.find fun qt => decide (qt.target.addr = tar.addr)

section
variable (o : Observer)

/-- `isAboveHorizon`, and the date it changes. -/
def isAboveHorizon (qt : QueuedTarget) (jd : Option ℚ) : Bool × Option ℚ :=
  let jd := qt.tStart.elim jd fun t => if jd.any (· < o.julian t) then some (o.julian t) else jd
  (o.visible jd qt.target, jd)

/-- The target passes the meridian before its observation ends. -/
def passes (jd : Option ℚ) (tar : Target) : Bool :=
  (o.getHourAngle jd tar).any fun hourAngle =>
    (o.getMaximalDuration tar).any fun duration => decide (0 < hourAngle / 15 + duration / 3600)

/-- The inner loop: the place of the target that is chosen, and the date then. Nothing when the entry of a
target is not found. -/
def firstWest (q : Nodes QueuedTarget) : List Target → Option ℚ → Option (Option ℕ × Option ℚ)
  | [], jd => some (none, jd)
  | tar :: rest, jd =>
    (q.get (findTarget q tar)).bind fun qi =>
      if (isAboveHorizon o qi jd).1 then
        if passes o (isAboveHorizon o qi jd).2 tar then some (some 0, (isAboveHorizon o qi jd).2)
        else (firstWest q rest (isAboveHorizon o qi jd).2).map fun r => (r.1.map (· + 1), r.2)
      else (firstWest q rest jd).map fun r => (r.1.map (· + 1), r.2)

/-- `jd += getMaximalDuration (tar) / 86400.0` -/
def after (jd : Option ℚ) (tar : Target) : Option ℚ :=
  jd.bind fun jd => (o.getMaximalDuration tar).map fun duration => jd + duration / 86400

/-- The outer loop, of at most so many rounds: `orderedTargets`. Nothing when it does not end. -/
def selectLoop (comp : Option ℚ → Target → Target → Bool) (q : Nodes QueuedTarget) :
    ℕ → List Target → Option ℚ → List Target → Option (List Target)
  | _, [], _, orderedTargets => some orderedTargets
  | 0, _ :: _, _, _ => none
  | fuel + 1, tar :: rest, jd, orderedTargets =>
    let preparedTargets := o.sort (comp jd) (tar :: rest)
    (firstWest o q preparedTargets jd).bind fun iter =>
      -- if there is no such target, the front is taken
      preparedTargets[iter.1.getD 0]?.bind fun chosen =>
        selectLoop comp q fuel (preparedTargets.eraseIdx (iter.1.getD 0)) (after o iter.2 chosen)
          (orderedTargets ++ [chosen])

end

/-! ## The list -/

/-- One target of `orderByTargetList`, with the iterator `fi`. -/
def orderTarget (q : Nodes QueuedTarget × Nodes.Iterator) (tar : Target) :
    Option (Nodes QueuedTarget × Nodes.Iterator) :=
  let qi := findTarget q.1 tar
  if qi = none then some q
  else do
    let qt ← q.1.get qi
    let (l, fi) ← q.1.insert q.2 qt
    let l ← l.erase qi
    let fi ← l.next fi
    return (l, fi)

/-- `orderByTargetList`; nothing when an iterator is used that stands nowhere. -/
def orderByTargetList (q : Nodes QueuedTarget) (tl : List Target) : Option (Nodes QueuedTarget) :=
  (tl.foldlM orderTarget (q, q.begin)).map Prod.fst

section
variable (o : Observer)

/-- The two functions, but for the comparison. -/
def sortTargets (comp : Option ℚ → Target → Target → Bool) (jd : Option ℚ) (fuel : ℕ)
    (q : Nodes QueuedTarget) : Option (Nodes QueuedTarget) :=
  (selectLoop o comp q fuel (targets q.values) jd []).bind (orderByTargetList q)

def byMeridianPriority (jd : Option ℚ) (tar1 tar2 : Target) : Bool :=
  sortByMeridianPriority (o.sight jd tar1) (o.sight jd tar2)

def byOutOfLimits (jd : Option ℚ) (tar1 tar2 : Target) : Bool :=
  sortByOutOfLimits (o.sight jd tar1) (o.sight jd tar2)

def sortWestEastMeridian : Option ℚ → ℕ → Nodes QueuedTarget → Option (Nodes QueuedTarget) :=
  sortTargets o (byMeridianPriority o)

def sortOutOfLimits : Option ℚ → ℕ → Nodes QueuedTarget → Option (Nodes QueuedTarget) :=
  sortTargets o (byOutOfLimits o)

end

/-- A queue: every entry has a target of its own. -/
structure Queue where
  list : Nodes QueuedTarget
  sound : list.Sound
  apart : ((targets list.values).map Target.addr).Nodup

/-! ## Choosing -/

section
variable (o : Observer) {q : Nodes QueuedTarget}

/-- The entries of these targets are found. -/
def Found (q : Nodes QueuedTarget) (tl : List Target) : Prop :=
  ∀ tar ∈ tl, ∃ qt, q.get (findTarget q tar) = some qt

theorem firstWest_some {tl : List Target} (h : Found q tl) (jd : Option ℚ) :
    ∃ iter jd', firstWest o q tl jd = some (iter, jd') ∧ ∀ i ∈ iter, i < tl.length := by
  induction tl generalizing jd with
  | nil => exact ⟨none, jd, rfl, fun i hi => by cases hi⟩
  | cons tar rest ih =>
    obtain ⟨qt, hqt⟩ := h tar List.mem_cons_self
    have hrest : Found q rest := fun t ht => h t (List.mem_cons_of_mem tar ht)
    have hnext (jd : Option ℚ) : ∃ iter jd', (firstWest o q rest jd).map (fun r => (r.1.map (· + 1), r.2)) =
        some (iter, jd') ∧ ∀ i ∈ iter, i < (tar :: rest).length := by
      obtain ⟨iter, jd', hiter, hlt⟩ := ih hrest jd
      refine ⟨iter.map (· + 1), jd', by rw [hiter]; rfl, fun i hi => ?_⟩
      obtain ⟨j, hj, rfl⟩ := Option.map_eq_some_iff.mp hi
      exact Nat.succ_lt_succ (hlt j hj)
    rw [firstWest, hqt, Option.bind_some]
    split_ifs
    · exact ⟨some 0, _, rfl, fun i hi => by cases hi; exact Nat.succ_pos _⟩
    · exact hnext _
    · exact hnext _

/-- The loop ends after as many rounds as there are targets, with all of them. -/
theorem selectLoop_perm (comp : Option ℚ → Target → Target → Bool) {n : ℕ} {tl : List Target}
    (hn : tl.length = n) (h : Found q tl) (jd : Option ℚ) (ordered : List Target) :
    ∃ out, (∀ fuel, n ≤ fuel → selectLoop o comp q fuel tl jd ordered = some (ordered ++ out)) ∧
      out.Perm tl := by
  induction n generalizing tl jd ordered with
  | zero =>
    rw [List.length_eq_zero_iff.mp hn]
    exact ⟨[], fun fuel _ => by cases fuel <;> exact congrArg some (List.append_nil ordered).symm,
      List.Perm.refl []⟩
  | succ n ih =>
    cases tl with
    | nil => cases hn
    | cons tar rest =>
      have hperm := o.sort_perm (comp jd) (tar :: rest)
      have hlength := hperm.length_eq.trans hn
      have hfound : Found q (o.sort (comp jd) (tar :: rest)) := fun t ht => h t (hperm.mem_iff.mp ht)
      obtain ⟨iter, jd', hiter, hplace⟩ := firstWest_some o hfound jd
      have hlt : iter.getD 0 < (o.sort (comp jd) (tar :: rest)).length := by
        cases iter with
        | none =>
          rw [hlength]
          exact Nat.succ_pos n
        | some i => exact hplace i rfl
      generalize hprepared : o.sort (comp jd) (tar :: rest) = prepared at hperm hlength hfound hiter hlt
      have hrest : (prepared.eraseIdx (iter.getD 0)).length = n := by
        rw [List.length_eraseIdx_of_lt hlt, hlength, Nat.add_sub_cancel]
      have hfound' : Found q (prepared.eraseIdx (iter.getD 0)) :=
        fun t ht => hfound t (List.mem_of_mem_eraseIdx ht)
      obtain ⟨out, hout, hpermOut⟩ := ih hrest hfound' (after o jd' prepared[iter.getD 0])
        (ordered ++ [prepared[iter.getD 0]])
      refine ⟨prepared[iter.getD 0] :: out, fun fuel hfuel => ?_, ?_⟩
      · cases fuel with
        | zero => exact absurd hfuel (Nat.not_succ_le_zero n)
        | succ fuel =>
          have hrun := hout fuel (Nat.le_of_succ_le_succ hfuel)
          rw [List.append_assoc, List.singleton_append] at hrun
          unfold selectLoop
          dsimp only
          rw [hprepared, hiter, Option.bind_some, List.getElem?_eq_getElem hlt, Option.bind_some]
          exact hrun
      · exact ((hpermOut.cons _).trans (List.getElem_cons_eraseIdx_perm hlt)).trans hperm

end

/-! ## Moving the entries -/

section
open Lib.Nodes (iteratorAt)
variable {a b b' : List (Lib.Node QueuedTarget)} {n : Lib.Node QueuedTarget} {fresh : ℕ}

/-- The addresses of the targets of these nodes. -/
def addrs (l : List (Lib.Node QueuedTarget)) : List ℕ := l.map fun n => n.value.target.addr

theorem addrs_nodup (h : ((targets (Nodes.values ⟨a, fresh⟩)).map Target.addr).Nodup) : (addrs a).Nodup := by
  unfold targets Nodes.values at h
  rw [List.map_map, List.map_map] at h
  exact h

/-- No entry before an entry has its target. -/
theorem other_target (hapart : (addrs (a ++ n :: b)).Nodup) {m : Lib.Node QueuedTarget} (hm : m ∈ a) :
    decide (m.value.target.addr = n.value.target.addr) = false := by
  refine decide_eq_false fun heq => ?_
  unfold addrs at hapart
  rw [List.map_append, List.map_cons] at hapart
  exact (List.nodup_append.mp hapart).2.2 _ (List.mem_map_of_mem hm) _ List.mem_cons_self heq

/-- The entry of a target is copied to the iterator and erased behind it. -/
theorem orderTarget_at (h : (⟨a ++ (b ++ n :: b'), fresh⟩ : Nodes QueuedTarget).Sound)
    (hapart : (addrs (a ++ (b ++ n :: b'))).Nodup) :
    orderTarget (⟨a ++ (b ++ n :: b'), fresh⟩, iteratorAt (b ++ n :: b')) n.value.target =
      some (⟨(a ++ [⟨fresh, n.value⟩]) ++ (b ++ b'), fresh + 1⟩, iteratorAt (b ++ b')) := by
  have hother : ∀ m ∈ a ++ b, decide (m.value.target.addr = n.value.target.addr) = false := by
    rw [← List.append_assoc] at hapart
    exact fun m hm => other_target hapart hm
  have hfind : findTarget ⟨a ++ (b ++ n :: b'), fresh⟩ n.value.target = some n.id := by
    rw [← List.append_assoc]
    exact Nodes.find_at hother (decide_eq_true rfl)
  have hget : (⟨a ++ (b ++ n :: b'), fresh⟩ : Nodes QueuedTarget).get (some n.id) = some n.value := by
    rw [← List.append_assoc] at h ⊢
    exact Nodes.get_at h
  have hinsert := Nodes.insert_at h n.value
  have hsound := h.insert n.value
  have herase : (⟨a ++ ⟨fresh, n.value⟩ :: (b ++ n :: b'), fresh + 1⟩ : Nodes QueuedTarget).erase
      (some n.id) = some ⟨a ++ ⟨fresh, n.value⟩ :: (b ++ b'), fresh + 1⟩ := by
    have hleft (l : List (Lib.Node QueuedTarget)) : a ++ ⟨fresh, n.value⟩ :: (b ++ l) =
        (a ++ ⟨fresh, n.value⟩ :: b) ++ l := by
      rw [List.append_assoc, List.cons_append]
    rw [hleft] at hsound ⊢
    rw [hleft, Nodes.erase_at hsound]
  have hsound' : (⟨a ++ ⟨fresh, n.value⟩ :: (b ++ b'), fresh + 1⟩ : Nodes QueuedTarget).Sound :=
    hsound.sublist (((List.sublist_cons_self n b').append_left b).cons_cons _ |>.append_left a)
  have hnext := Nodes.next_at hsound'
  unfold orderTarget
  rw [hfind, if_neg (Option.some_ne_none n.id), hget]
  dsimp only [Option.bind_eq_bind, Option.bind_some]
  rw [hinsert]
  dsimp only [Option.bind_some]
  rw [herase]
  dsimp only [Option.bind_some]
  rw [hnext, List.append_assoc]
  rfl

/-- The entries from the iterator on come to stand in the order of the targets. -/
theorem orderTargets_at {tl : List Target} (h : (⟨a ++ b, fresh⟩ : Nodes QueuedTarget).Sound)
    (hapart : (addrs (a ++ b)).Nodup) (htl : tl.Perm (b.map fun n => n.value.target)) :
    ∃ c fresh' fi, tl.foldlM orderTarget (⟨a ++ b, fresh⟩, iteratorAt b) = some (⟨a ++ c, fresh'⟩, fi) ∧
      (c.map Lib.Node.value).Perm (b.map Lib.Node.value) ∧ (c.map fun n => n.value.target) = tl := by
  induction tl generalizing a b fresh with
  | nil =>
    have hempty : b = [] := List.map_eq_nil_iff.mp htl.nil_eq.symm
    subst hempty
    exact ⟨[], fresh, _, rfl, List.Perm.refl [], rfl⟩
  | cons tar tl ih =>
    obtain ⟨n, hn, rfl⟩ := List.mem_map.mp (htl.mem_iff.mp List.mem_cons_self)
    obtain ⟨b1, b2, rfl⟩ := List.append_of_mem hn
    have hstep := orderTarget_at h hapart
    have hmiddle : (a ++ [(⟨fresh, n.value⟩ : Lib.Node QueuedTarget)] ++ (b1 ++ b2)).Perm
        (⟨fresh, n.value⟩ :: (a ++ (b1 ++ b2))) := by
      rw [List.append_assoc]
      exact List.perm_middle
    have hold : (a ++ (b1 ++ n :: b2)).Perm (n :: (a ++ (b1 ++ b2))) := by
      rw [← List.append_assoc, ← List.append_assoc]
      exact List.perm_middle
    have hsound : (⟨a ++ [⟨fresh, n.value⟩] ++ (b1 ++ b2), fresh + 1⟩ : Nodes QueuedTarget).Sound := by
      have hnew := h.insert n.value
      rw [List.append_assoc]
      exact hnew.sublist (((List.sublist_cons_self n b2).append_left b1).cons_cons _ |>.append_left a)
    have hapart' : (addrs (a ++ [⟨fresh, n.value⟩] ++ (b1 ++ b2))).Nodup := by
      have hnew : (addrs (a ++ [⟨fresh, n.value⟩] ++ (b1 ++ b2))).Perm
          (n.value.target.addr :: addrs (a ++ (b1 ++ b2))) := hmiddle.map _
      have hformer : (addrs (a ++ (b1 ++ n :: b2))).Perm
          (n.value.target.addr :: addrs (a ++ (b1 ++ b2))) := hold.map _
      exact (hnew.trans hformer.symm).nodup_iff.mpr hapart
    have htl' : tl.Perm ((b1 ++ b2).map fun n => n.value.target) := by
      have hperm : (n.value.target :: tl).Perm
          (n.value.target :: (b1 ++ b2).map fun n => n.value.target) :=
        htl.trans (List.perm_middle.map _)
      exact hperm.cons_inv
    obtain ⟨c, fresh', fi, hrun, hvalues, htargets⟩ := ih hsound hapart' htl'
    refine ⟨⟨fresh, n.value⟩ :: c, fresh', fi, ?_, ?_, congrArg (n.value.target :: ·) htargets⟩
    · rw [List.foldlM_cons, hstep]
      refine hrun.trans ?_
      rw [List.append_assoc]
      rfl
    · exact (hvalues.cons n.value).trans (List.perm_middle.map Lib.Node.value).symm

end

/-! ## The two functions -/

namespace Queue
variable (q : Queue)

theorem found {tl : List Target} (h : ∀ tar ∈ tl, tar ∈ targets q.list.values) : Found q.list tl := by
  intro tar htar
  obtain ⟨qt, hqt, rfl⟩ := List.mem_map.mp (h tar htar)
  obtain ⟨n, hn, rfl⟩ := List.mem_map.mp hqt
  obtain ⟨⟨nodes, fresh⟩, hsound, hapart⟩ := q
  obtain ⟨a, b, rfl⟩ := List.append_of_mem hn
  have hother : ∀ m ∈ a, decide (m.value.target.addr = n.value.target.addr) = false :=
    fun m hm => other_target (b := b) (addrs_nodup hapart) hm
  have hfind : findTarget ⟨a ++ n :: b, fresh⟩ n.value.target = some n.id :=
    Nodes.find_at hother (decide_eq_true rfl)
  exact ⟨n.value, (congrArg _ hfind).trans (Nodes.get_at hsound)⟩

/-- The queue that is left stands in the order that is computed, and its entries are the former ones with
all they hold. -/
def Ordered (o : Observer) (comp : Option ℚ → Target → Target → Bool)
    (sort : Option ℚ → ℕ → Nodes QueuedTarget → Option (Nodes QueuedTarget)) : Prop :=
  ∀ jd, ∃ orderedTargets q', (∀ fuel, q.list.values.length ≤ fuel →
      selectLoop o comp q.list fuel (targets q.list.values) jd [] = some orderedTargets ∧
        sort jd fuel q.list = some q') ∧
    orderByTargetList q.list orderedTargets = some q' ∧
    q'.values.Perm q.list.values ∧ targets q'.values = orderedTargets

theorem ordered (o : Observer) (comp : Option ℚ → Target → Target → Bool) :
    q.Ordered o comp (sortTargets o comp) := by
  intro jd
  have hlength : (targets q.list.values).length = q.list.values.length := List.length_map _
  obtain ⟨orderedTargets, hselect, hperm⟩ :=
    selectLoop_perm o comp hlength (q.found fun _ h => h) jd []
  obtain ⟨⟨nodes, fresh⟩, hsound, hapart⟩ := q
  have htargets : orderedTargets.Perm (nodes.map fun n => n.value.target) := by
    have hvalues : targets (Nodes.values ⟨nodes, fresh⟩) = nodes.map fun n => n.value.target :=
      List.map_map
    exact hvalues ▸ hperm
  obtain ⟨c, fresh', fi, hrun, hvalues, htl⟩ :=
    orderTargets_at (a := []) hsound (addrs_nodup hapart) htargets
  have horder : orderByTargetList ⟨nodes, fresh⟩ orderedTargets = some ⟨c, fresh'⟩ :=
    congrArg (Option.map Prod.fst) hrun
  refine ⟨orderedTargets, ⟨c, fresh'⟩, fun fuel hfuel => ⟨hselect fuel hfuel, ?_⟩, horder, hvalues,
    List.map_map.trans htl⟩
  exact (congrArg (Option.bind · _) (hselect fuel hfuel)).trans horder

/-- The entries of a queue in order have targets of their own. -/
def ofKept {c : Option Target} {held : List (ℕ × Bool)} {s : QueState} (h : Kept c held s)
    (hc : s.pool.Checked) : Queue where
  list := Nodes.ofList s.queue.entries
  sound := Nodes.sound_ofList s.queue.entries
  apart := by
    rw [Nodes.values_ofList]
    exact (List.nodup_append.mp (h hc).1.nodup).2.1

theorem ofKept_values {c : Option Target} {held : List (ℕ × Bool)} {s : QueState} (h : Kept c held s)
    (hc : s.pool.Checked) : (ofKept h hc).list.values = s.queue.entries :=
  Nodes.values_ofList s.queue.entries

end Queue

/-- Both functions end, and leave the former entries in the order of the targets they computed. -/
theorem sortQueue_ordered (o : Observer) (q : Queue) :
    q.Ordered o (byMeridianPriority o) (sortWestEastMeridian o) ∧
      q.Ordered o (byOutOfLimits o) (sortOutOfLimits o) :=
  ⟨q.ordered o (byMeridianPriority o), q.ordered o (byOutOfLimits o)⟩

end Rts2.Plan.OrderQueue

import Mathlib.Data.List.TakeWhile
import Rts2.Lib.Thinned
import Rts2.Plan.Filter

/-! # The entries a filter leaves

No filter loses an entry without a reason or has one twice, and at most the
first entry that can be observed overtakes others. -/
namespace Rts2.Plan
open Rts2.Lib

/-- The entry without the note that it was reported as unobservable. -/
def QueuedTarget.unreported (e : QueuedTarget) : QueuedTarget :=
  { e with unobservableReported := false }

/-- The same entries in the same order. -/
def SameEntries (l l' : List QueuedTarget) : Prop :=
  l.map QueuedTarget.unreported = l'.map QueuedTarget.unreported

section Entries
variable (sky : Sky) (v : QueueValues) (now : Int) (maxLength : Option Int) (removeObserved : Bool)

/-- The reasons to remove an entry with the entries `later` behind it: its end
has passed, a later one is due in a FIFO, it was started and is to be executed
once, it was observed and has time limits, or it cannot be observed and such
entries are not skipped. -/
def Removable (later : List QueuedTarget) (e : QueuedTarget) : Prop :=
  Que.past e.tEnd now = true ∨
    (v.queueType = .fifo ∧ ∃ x ∈ later, due now x = true) ∨
    (sky.observationStarted e.target = true ∧ v.removeAfterExecution = true) ∨
    (sky.observationStarted e.target = true ∧ (e.tStart.isSome = true ∨ e.tEnd.isSome = true)) ∨
    (v.skipBelowHorizon = false ∧ Que.observable sky v maxLength removeObserved e = false)

/-- The entries `l'` are those of `l`, the first one that can be observed perhaps
before those that cannot. -/
def Reordered (l l' : List QueuedTarget) : Prop :=
  SameEntries l l' ∨
    ∃ skipped front rest, l = skipped ++ front :: rest ∧
      SameEntries (front :: (skipped ++ rest)) l' ∧
      (∀ e ∈ skipped, ready sky v now maxLength removeObserved e = false) ∧
      ready sky v now maxLength removeObserved front = true

/-- The front entry is one of `l` that can be observed, and has started. -/
def FrontObservable (l l' : List QueuedTarget) : Prop :=
  ∃ front rest, l' = front :: rest ∧ front.tStart.all (· ≤ now) = true ∧
    ∃ e ∈ l, e.unreported = front.unreported ∧
      Que.observable sky v maxLength removeObserved e = true

variable {sky v now maxLength removeObserved}

theorem removable_mono {later later' : List QueuedTarget} {e : QueuedTarget}
    (hs : later'.Sublist later) (h : Removable sky v now maxLength removeObserved later' e) :
    Removable sky v now maxLength removeObserved later e := by
  rcases h with h | ⟨hfifo, x, hx, hdue⟩ | h
  · exact Or.inl h
  · exact Or.inr (Or.inl ⟨hfifo, x, hs.subset hx, hdue⟩)
  · exact Or.inr (Or.inr h)

theorem thinned_dueFrom (now : Int) (l : List QueuedTarget) :
    Thinned (fun later _ => ∃ x ∈ later, due now x = true) l (dueFrom now l) := by
  induction l with
  | nil => exact Thinned.nil
  | cons e rest ih =>
    unfold dueFrom
    split
    · rename_i hany
      exact Thinned.drop e (by simpa using hany) ih
    · exact Thinned.refl _ _

variable (sky v now maxLength removeObserved) in
theorem thinned_unexpired (l : List QueuedTarget) :
    Thinned (Removable sky v now maxLength removeObserved) l (unexpired sky v now l) := by
  have hfilter (l : List QueuedTarget) : Thinned (Removable sky v now maxLength removeObserved) l
      (l.filter (!expired sky v now ·)) := by
    refine Thinned.filter l fun later e _ he => ?_
    have hexp : expired sky v now e = true := by simpa using he
    rcases Bool.or_eq_true .. ▸ hexp with h | h
    · exact Or.inl h
    · exact Or.inr (Or.inr (Or.inl (by simpa using h)))
  unfold unexpired
  by_cases hfifo : v.queueType = .fifo
  · rw [if_pos hfifo]
    refine Thinned.trans ((thinned_dueFrom now l).mono fun later e hx => ?_) (hfilter _)
      fun later later' e hs h => removable_mono hs h
    exact Or.inr (Or.inl ⟨hfifo, hx⟩)
  · rw [if_neg hfifo]
    exact hfilter l

/-- An entry that leaves for good while it cannot be observed. -/
theorem removable_of_leaves {later : List QueuedTarget} {e : QueuedTarget}
    (hready : ready sky v now maxLength removeObserved e = false)
    (hleaves : Que.leaves sky v now e = true) :
    Removable sky v now maxLength removeObserved later e := by
  unfold Que.leaves at hleaves
  split at hleaves
  · simp only [Bool.and_eq_true, Bool.or_eq_true] at hleaves
    exact Or.inr (Or.inr (Or.inr (Or.inl ⟨hleaves.2, hleaves.1.2⟩)))
  · rename_i hskip
    simp only [Bool.or_eq_true, not_or, Bool.not_eq_true] at hskip
    refine Or.inr (Or.inr (Or.inr (Or.inr ⟨hskip.1, ?_⟩)))
    simpa [ready, hskip.2] using hready

/-- The entries that `filterUnobservable` keeps, in their order. -/
def keptEntries (sky : Sky) (v : QueueValues) (now : Int) (maxLength : Option Int)
    (removeObserved : Bool) (l : List QueuedTarget) : List QueuedTarget :=
  (passed sky v now maxLength removeObserved l).filter (!Que.leaves sky v now ·) ++
    l.dropWhile (!ready sky v now maxLength removeObserved ·)

theorem ready_of_mem_passed {l : List QueuedTarget} {e : QueuedTarget}
    (he : e ∈ passed sky v now maxLength removeObserved l) :
    ready sky v now maxLength removeObserved e = false := by
  simpa using List.mem_takeWhile_imp he

theorem thinned_keptEntries (l : List QueuedTarget) :
    Thinned (Removable sky v now maxLength removeObserved) l
      (keptEntries sky v now maxLength removeObserved l) := by
  have hpassed : Thinned (Removable sky v now maxLength removeObserved)
      (passed sky v now maxLength removeObserved l)
      ((passed sky v now maxLength removeObserved l).filter (!Que.leaves sky v now ·)) := by
    refine Thinned.filter _ fun later e he hleaves => ?_
    exact removable_of_leaves (ready_of_mem_passed he) (by simpa using hleaves)
  have hall := hpassed.append (Thinned.refl _ (l.dropWhile
    (!ready sky v now maxLength removeObserved ·))) fun later later' e hs h => removable_mono hs h
  have hsplit : passed sky v now maxLength removeObserved l ++
      l.dropWhile (!ready sky v now maxLength removeObserved ·) = l := List.takeWhile_append_dropWhile
  rw [hsplit] at hall
  exact hall

variable (sky v now maxLength removeObserved) in
theorem aside_unreported (l : List QueuedTarget) :
    SameEntries ((passed sky v now maxLength removeObserved l).filter (!Que.leaves sky v now ·))
      (aside sky v now maxLength removeObserved l) := by
  unfold SameEntries aside
  rw [List.map_map]
  rfl

theorem SameEntries.append {l l' k k' : List QueuedTarget} (h : SameEntries l l')
    (h' : SameEntries k k') : SameEntries (l ++ k) (l' ++ k') := by
  unfold SameEntries at *
  rw [List.map_append, List.map_append, h, h']

variable (sky v now maxLength removeObserved) in
/-- The first entry that can be observed, if there is one. -/
theorem readyFrom_cases (l : List QueuedTarget) :
    (l.dropWhile (!ready sky v now maxLength removeObserved ·) = [] ∧
      readyFrom sky v now maxLength removeObserved l = []) ∨
    ∃ front front' rest, l.dropWhile (!ready sky v now maxLength removeObserved ·) = front :: rest ∧
      readyFrom sky v now maxLength removeObserved l = front' :: rest ∧
      front'.unreported = front.unreported ∧ front'.tStart = front.tStart ∧
      ready sky v now maxLength removeObserved front = true := by
  cases hdrop : l.dropWhile (!ready sky v now maxLength removeObserved ·) with
  | nil =>
    refine Or.inl ⟨rfl, ?_⟩
    unfold readyFrom
    rw [hdrop]
    split <;> rfl
  | cons front rest =>
    have hready : ready sky v now maxLength removeObserved front = true := by
      have hhead := List.head?_dropWhile_not (!ready sky v now maxLength removeObserved ·) l
      rw [hdrop] at hhead
      simpa using hhead
    refine Or.inr ⟨front, ?_⟩
    unfold readyFrom
    rw [hdrop]
    split
    · exact ⟨_, rest, rfl, rfl, rfl, rfl, hready⟩
    · exact ⟨front, rest, rfl, rfl, rfl, rfl, hready⟩

theorem reordered_arranged (l : List QueuedTarget) :
    Reordered sky v now maxLength removeObserved
      (keptEntries sky v now maxLength removeObserved l)
      (arranged now (aside sky v now maxLength removeObserved l)
        (readyFrom sky v now maxLength removeObserved l)) := by
  have haside := aside_unreported sky v now maxLength removeObserved l
  unfold keptEntries
  rcases readyFrom_cases sky v now maxLength removeObserved l with
    ⟨hdrop, hfrom⟩ | ⟨front, front', rest, hdrop, hfrom, hsame, -, hready⟩
  · rw [hdrop, hfrom, List.append_nil]
    exact Or.inl haside
  · rw [hdrop, hfrom, arranged]
    split
    · refine Or.inr ⟨_, front, rest, rfl, ?_, fun e he => ?_, hready⟩
      · unfold SameEntries at haside ⊢
        rw [List.map_cons, List.map_cons, List.map_append, List.map_append, haside, hsame]
      · exact ready_of_mem_passed (List.mem_filter.mp he).1
    · refine Or.inl (haside.append ?_)
      unfold SameEntries
      rw [List.map_cons, List.map_cons, hsame]

theorem frontObservable_of_visible (l : List QueuedTarget) (hblock : v.blockUntilVisible = false)
    (hvisible : (verdict sky v now maxLength removeObserved l).1 = true) :
    FrontObservable sky v now maxLength removeObserved l
      (filtered sky v now maxLength removeObserved l) := by
  have hsub : ∀ e ∈ unexpired sky v now l, e ∈ l := fun e he =>
    (thinned_unexpired sky v now maxLength removeObserved l).sublist.subset he
  unfold verdict at hvisible
  unfold filtered
  dsimp only
  rw [hblock] at hvisible ⊢
  rcases readyFrom_cases sky v now maxLength removeObserved (unexpired sky v now l) with
    ⟨-, hfrom⟩ | ⟨front, front', rest, hdrop, hfrom, hsame, -, hready⟩
  · rw [hfrom] at hvisible
    cases hvisible
  · rw [hfrom] at hvisible ⊢
    have hstart : front'.tStart.all (· ≤ now) = true := hvisible
    have hmem : front ∈ unexpired sky v now l := by
      refine (List.dropWhile_sublist (!ready sky v now maxLength removeObserved ·)).subset ?_
      rw [hdrop]
      exact List.mem_cons_self ..
    rw [if_neg (by decide), arranged, if_pos hstart]
    refine ⟨front', _, rfl, hstart, front, hsub front hmem, hsame.symm, ?_⟩
    exact (Bool.and_eq_true .. ▸ hready).2

end Entries

/-- **No entry is lost or doubled** by a filter. What is left of the entries is in
its old order, but for the first that can be observed; and when the queue does
not block, a filter that returns true leaves that one at the front. Only the
database makes a filter throw. -/
theorem filter_keeps_entries (w : World) (s : QueState) (now : Int) (maxLength : Option Int)
    (removeObserved : Bool) :
    let sky := w.sky s.pool.asked
    let v := s.queue.values
    match Que.filter w now maxLength removeObserved s with
    | (.error e, _) => e = .error ∧ ∃ n, w.dbFails n = true
    | (.ok (visible, _), s') =>
      (∃ kept, Thinned (Removable sky v now maxLength removeObserved) s.queue.entries kept ∧
        Reordered sky v now maxLength removeObserved kept s'.queue.entries) ∧
      (v.blockUntilVisible = true ∨ visible = false ∨
        FrontObservable sky v now maxLength removeObserved s.queue.entries s'.queue.entries) := by
  intro sky v
  have hstart : At s.pool.asked s.queue.entries v s.queue.simul s := ⟨rfl, rfl, rfl, rfl⟩
  have hends := filter_ends (w := w) hstart now maxLength removeObserved
  rcases hres : Que.filter w now maxLength removeObserved s with ⟨e | ⟨visible, tStart⟩, s'⟩
  · obtain ⟨he, hfine⟩ := hends.of_error hres
    refine ⟨he, ?_⟩
    by_contra hnone
    exact hfine fun k _ => by simpa using fun h => hnone ⟨_, h⟩
  · obtain ⟨hverdict, hat, -⟩ := hends.of_ok hres
    dsimp only
    rw [hat.entries]
    have hthin := thinned_unexpired sky v now maxLength removeObserved s.queue.entries
    refine ⟨?_, ?_⟩
    · by_cases hblock : v.blockUntilVisible = true
      · refine ⟨_, hthin, Or.inl ?_⟩
        rw [filtered, if_pos hblock]
        rfl
      · refine ⟨_, hthin.trans (thinned_keptEntries _) fun later later' e hs h =>
          removable_mono hs h, ?_⟩
        rw [filtered, if_neg hblock]
        exact reordered_arranged _
    · by_cases hblock : v.blockUntilVisible = true
      · exact Or.inl hblock
      · cases visible with
        | false => exact Or.inr (Or.inl rfl)
        | true =>
          refine Or.inr (Or.inr (frontObservable_of_visible _ (by simpa using hblock) ?_))
          exact (congrArg Prod.fst hverdict).symm

end Rts2.Plan

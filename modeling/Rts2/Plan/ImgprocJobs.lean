import Mathlib.Data.List.Count
import Mathlib.Data.List.Nodup
import Mathlib.Data.List.Perm.Subperm
import Rts2.Plan.Imgproc

/-! # The jobs of the image processor

A process that does not start is deleted, which starts the next job in its slot; then
the slot is cleared. A reload of the configuration clears the slots, and does not
allocate them again. -/
namespace Rts2.Plan.Imgproc
open Rts2.Lib

/-! ## What is asked -/

/-- The job a call is about to run. -/
def Frame.held : Frame → Option ConnProcess
  | .changeRunning newImage _ => some newImage
  | _ => none

/-- The job a call is about to delete. -/
def Frame.dying : Frame → Option ConnProcess
  | .deleteConnection conn => some conn
  | _ => none

def tally (finished : List (ConnProcess × AstrometryStat)) : Counters :=
  finished.foldr (fun job c => c.inc job.2) ⟨0, 0, 0, 0, 0, 0⟩

/-- Every job waits, is in one slot, is finished, or is the one a call is about to run;
between the calls the jobs in the slots are the processes that run. Every finished job is
counted once, no more than `num_proc` processes run, and no slot outside the array was
used. -/
structure Consistent (s : ImageProc) : Prop where
  placed : ∀ job ∈ s.submitted,
    s.imagesQue.count job + s.slots.count (some job) + (s.finished.map Prod.fst).count job +
      (s.stack.filterMap Frame.held).count job = 1
  running : s.stack = [] → ∀ job, s.slots.count (some job) = s.processes.count job
  counted : s.counters = tally s.finished
  limit : s.processes.length ≤ s.numProc.toNat
  inside : s.outside = false

/-- What the program does not check. The configuration is reloaded when no process runs and
with no more slots than were allocated, an image is processed at once only with a slot to
put it in, and the slot of a process that did not start is still empty when it is cleared. -/
def Undisturbed (s : ImageProc) (a : Input) : Prop :=
  match s.stack, a.event with
  | [], .reloadConfig (some (_, np)) =>
    (∀ image ∈ s.slots, image = none) ∧ ∀ slots ∈ s.runningImage, np ≤ slots.length
  | [], .do_image _ => 0 < s.numProc
  | .notStarted slot :: _, _ => s.slotAt slot = none
  | _, _ => True

/-! ## The invariant -/

/-- The slots of the calls in progress are below `num_proc`. -/
def Frame.Valid (numProc : Int) : Frame → Prop
  | .changeRunning _ slot => 0 ≤ slot ∧ slot < numProc
  | .notStarted slot => 0 ≤ slot ∧ slot < numProc
  | .nextStarted slot => 0 ≤ slot ∧ slot < numProc
  | _ => True

/-- The invariant, with the jobs `hand` that are taken from the queue and the jobs `dying` in
a slot without a process. -/
structure Inv (hand dying : List ConnProcess) (s : ImageProc) : Prop where
  runs : s.sendStop = false
  bound : s.numProc ≤ s.slots.length
  above : ∀ i : Nat, s.numProc ≤ i → s.slotAt i = none
  jobs : ∀ job, s.submitted.count job =
    s.imagesQue.count job + s.slots.count (some job) + (s.finished.map Prod.fst).count job +
      (s.stack.filterMap Frame.held).count job + hand.count job
  fresh : ∀ job ∈ s.submitted, job.id < s.submitted.length
  nodup : s.submitted.Nodup
  running : ∀ job, s.slots.count (some job) =
    s.processes.count job + (s.stack.filterMap Frame.dying).count job + dying.count job
  frames : ∀ frame ∈ s.stack, frame.Valid s.numProc
  counted : s.counters = tally s.finished
  inside : s.outside = false

variable {hand dying : List ConnProcess} {s : ImageProc} {job : ConnProcess}

theorem Inv.start : Inv [] [] ImageProc.start where
  runs := rfl
  bound := Int.le_refl _
  above i _ := by simp [ImageProc.slotAt, ImageProc.slots, ImageProc.start]
  jobs job := by simp [ImageProc.slots, ImageProc.start]
  fresh job h := by simp [ImageProc.start] at h
  nodup := List.nodup_nil
  running job := by simp [ImageProc.slots, ImageProc.start]
  frames frame h := by simp [ImageProc.start] at h
  counted := rfl
  inside := rfl

/-! ## Slots -/

theorem slotAt_coe (i : Nat) : s.slotAt i = s.slots[i]?.join := by
  simp [ImageProc.slotAt]

theorem mem_slots_iff {image : ConnProcess} :
    some image ∈ s.slots ↔ ∃ i : Nat, s.slotAt i = some image := by
  simp only [slotAt_coe, List.mem_iff_getElem?, Option.join_eq_some_iff]

theorem touch_eq {slot : Int} (h : 0 ≤ slot ∧ slot < s.slots.length) : s.touch slot = s := by
  simp [ImageProc.touch, h.1, h.2]

theorem touchAll_eq (h : s.numProc ≤ s.slots.length) : s.touchAll = s := by
  simp [ImageProc.touchAll, Int.not_lt.mpr h]

theorem setSlot_eq {slot : Int} (h : 0 ≤ slot ∧ slot < s.slots.length)
    (image : Option ConnProcess) :
    s.setSlot slot image =
      { s with runningImage := s.runningImage.map fun slots => slots.set slot.toNat image } := by
  simp [ImageProc.setSlot, touch_eq h, h.1]

theorem Inv.slot_lt (h : Inv hand dying s) {slot : Int} (hslot : 0 ≤ slot ∧ slot < s.numProc) :
    0 ≤ slot ∧ slot < s.slots.length := by
  have hb := h.bound
  omega

theorem findSlot_some {image : Option ConnProcess} {i : Nat} (h : s.findSlot image = some i) :
    (i : Int) < s.numProc ∧ s.slotAt i = image := by
  have hmem := List.mem_of_find?_eq_some h
  have hp := List.find?_some h
  rw [List.mem_range] at hmem
  exact ⟨by omega, of_decide_eq_true hp⟩

theorem findSlot_none {image : Option ConnProcess} (h : s.findSlot image = none) (i : Nat)
    (hi : (i : Int) < s.numProc) : s.slotAt i ≠ image := by
  have hno := List.find?_eq_none.mp h i (List.mem_range.mpr (by omega))
  simpa using hno

/-- A free slot is one below `num_proc`, and empty. -/
theorem getFreeSlot_valid (h : 0 ≤ s.getFreeSlot) :
    (0 ≤ s.getFreeSlot ∧ s.getFreeSlot < s.numProc) ∧ s.slotAt s.getFreeSlot = none := by
  unfold ImageProc.getFreeSlot at *
  cases hfind : s.findSlot none with
  | none => simp [hfind] at h
  | some i =>
    obtain ⟨hlt, hfree⟩ := findSlot_some hfind
    exact ⟨⟨Int.natCast_nonneg i, hlt⟩, hfree⟩

theorem Inv.touchFree (h : Inv hand dying s) : s.touchFree = s := by
  unfold ImageProc.touchFree
  split
  · next hfree => exact touch_eq (h.slot_lt (getFreeSlot_valid hfree).1)
  · exact touchAll_eq h.bound

/-- `slot` of the array, below `num_proc`. -/
theorem Inv.getElem? (h : Inv hand dying s) {slot : Int} (hslot : 0 ≤ slot ∧ slot < s.numProc) :
    s.slots[slot.toNat]? = some (s.slotAt slot) := by
  have hb := h.bound
  have hlt : slot.toNat < s.slots.length := by omega
  simp [ImageProc.slotAt, hslot.1, List.getElem?_eq_getElem hlt]

/-- Clearing a slot that is empty changes nothing. -/
theorem Inv.clear (h : Inv hand dying s) {slot : Int} (hslot : 0 ≤ slot ∧ slot < s.numProc)
    (hfree : s.slotAt slot = none) : s.setSlot slot none = s := by
  have hget := h.getElem? hslot
  rw [hfree] at hget
  have hsame : s.runningImage.map (·.set slot.toNat none) = s.runningImage := by
    unfold ImageProc.slots at hget
    cases hr : s.runningImage with
    | none => rfl
    | some slots =>
      rw [hr, Option.getD_some] at hget
      obtain ⟨hlt, hnone⟩ := List.getElem?_eq_some_iff.mp hget
      rw [Option.map_some, ← hnone, List.set_getElem_self]
  rw [setSlot_eq (h.slot_lt hslot), hsame]

/-- The jobs in the slots, after a slot is written. -/
theorem Inv.count_set (h : Inv hand dying s) {slot : Int} (hslot : 0 ≤ slot ∧ slot < s.numProc)
    (image : Option ConnProcess) (job : ConnProcess) :
    (s.slots.set slot.toNat image).count (some job) +
        (if s.slotAt slot = some job then 1 else 0) =
      s.slots.count (some job) + if image = some job then 1 else 0 := by
  obtain ⟨hlt, hget⟩ := List.getElem?_eq_some_iff.mp (h.getElem? hslot)
  have hpos : s.slotAt slot = some job → 0 < s.slots.count (some job) := by
    intro hjob
    rw [List.count_pos_iff, ← hjob, ← hget]
    exact List.getElem_mem hlt
  rw [List.count_set hlt, hget]
  simp only [beq_iff_eq]
  split
  · next hjob =>
    have hp := hpos hjob
    omega
  · omega

/-! ## Jobs that change their place -/

/-- A call takes over the jobs its frames hold. -/
theorem Inv.call {frames : List Frame}
    (h : Inv (frames.filterMap Frame.held ++ hand) (frames.filterMap Frame.dying ++ dying) s)
    (hvalid : ∀ frame ∈ frames, frame.Valid s.numProc) : Inv hand dying (s.call frames) where
  runs := h.runs
  bound := h.bound
  above := h.above
  jobs job := by
    have hjobs := h.jobs job
    simp only [ImageProc.call, ImageProc.slots, List.filterMap_append, List.count_append] at hjobs ⊢
    exact hjobs.trans (by omega)
  fresh := h.fresh
  nodup := h.nodup
  running job := by
    have hrunning := h.running job
    simp only [ImageProc.call, ImageProc.slots, List.filterMap_append, List.count_append] at hrunning ⊢
    exact hrunning.trans (by omega)
  frames frame hmem := by
    rcases List.mem_append.mp hmem with hnew | hold
    · exact hvalid frame hnew
    · exact h.frames frame hold
  counted := h.counted
  inside := h.inside

/-- The call on the top of the stack goes on with its jobs. -/
theorem Inv.pop {frame : Frame} {rest : List Frame} (h : Inv hand dying s)
    (hstack : s.stack = frame :: rest) :
    Inv (frame.held.toList ++ hand) (frame.dying.toList ++ dying) { s with stack := rest } where
  runs := h.runs
  bound := h.bound
  above := h.above
  jobs job := by
    have hjobs := h.jobs job
    rw [hstack] at hjobs
    cases hf : frame.held <;>
      simp only [hf, ImageProc.slots, List.filterMap_cons, List.count_append, List.count_cons,
        Option.toList, List.count_nil] at hjobs ⊢ <;> exact hjobs.trans (by omega)
  fresh := h.fresh
  nodup := h.nodup
  running job := by
    have hrunning := h.running job
    rw [hstack] at hrunning
    cases hf : frame.dying <;>
      simp only [hf, ImageProc.slots, List.filterMap_cons, List.count_append, List.count_cons,
        Option.toList, List.count_nil] at hrunning ⊢ <;> exact hrunning.trans (by omega)
  frames f hmem := h.frames f (by rw [hstack]; exact List.mem_cons_of_mem _ hmem)
  counted := h.counted
  inside := h.inside

theorem newProcess_not_mem (h : Inv hand dying s) (path : String) :
    s.newProcess path ∉ s.submitted := by
  intro hmem
  have hless := h.fresh _ hmem
  simp [ImageProc.newProcess] at hless

theorem Inv.submit (h : Inv hand dying s) (path : String) :
    Inv (s.newProcess path :: hand) dying (s.submit path) where
  runs := h.runs
  bound := h.bound
  above := h.above
  jobs job := by
    have hjobs := h.jobs job
    simp only [ImageProc.submit, ImageProc.slots, List.count_cons] at hjobs ⊢
    omega
  fresh job hmem := by
    simp only [ImageProc.submit, List.length_cons]
    rcases List.mem_cons.mp hmem with rfl | hold
    · exact Nat.lt_succ_self _
    · have hless := h.fresh job hold
      omega
  nodup := List.nodup_cons.mpr ⟨newProcess_not_mem h path, h.nodup⟩
  running := h.running
  frames := h.frames
  counted := h.counted
  inside := h.inside

/-- Jobs go from the hand to the queue and back. -/
theorem Inv.moveQue (h : Inv hand dying s) (imagesQue hand' : List ConnProcess)
    (hmove : ∀ job, imagesQue.count job + hand'.count job =
      s.imagesQue.count job + hand.count job) :
    Inv hand' dying { s with imagesQue := imagesQue } where
  runs := h.runs
  bound := h.bound
  above := h.above
  jobs job := by
    have hjobs := h.jobs job
    have hm := hmove job
    simp only [ImageProc.slots] at hjobs ⊢
    omega
  fresh := h.fresh
  nodup := h.nodup
  running := h.running
  frames := h.frames
  counted := h.counted
  inside := h.inside

theorem slots_set {i : Nat} {image : Option ConnProcess} :
    ImageProc.slots { s with runningImage := s.runningImage.map fun slots => slots.set i image } =
      s.slots.set i image := by
  cases hr : s.runningImage with
  | none => simp [ImageProc.slots, hr]
  | some slots => simp [ImageProc.slots, hr]

/-- A free slot takes the job in hand; its process does not run yet. -/
theorem Inv.place {job : ConnProcess} {slot : Int} (h : Inv (job :: hand) dying s)
    (hslot : 0 ≤ slot ∧ slot < s.numProc) (hfree : s.slotAt slot = none) :
    Inv hand (job :: dying) (s.setSlot slot (some job)) := by
  have hset := h.count_set hslot (some job)
  simp only [hfree, reduceCtorEq, if_false, Option.some.injEq] at hset
  rw [setSlot_eq (h.slot_lt hslot)]
  exact
    { runs := h.runs
      bound := by
        rw [slots_set, List.length_set]
        exact h.bound
      above := fun i hi => by
        have hab := h.above i hi
        rw [slotAt_coe] at hab ⊢
        rw [slots_set, List.getElem?_set_ne (by
          have hle : s.numProc ≤ i := hi
          omega)]
        exact hab
      jobs := fun j => by
        have hjobs := h.jobs j
        have hcount := hset j
        rw [List.count_cons] at hjobs
        rw [slots_set]
        simp only [beq_iff_eq] at hjobs ⊢
        omega
      fresh := h.fresh
      nodup := h.nodup
      running := fun j => by
        have hrunning := h.running j
        have hcount := hset j
        rw [slots_set, List.count_cons]
        simp only [beq_iff_eq]
        omega
      frames := h.frames
      counted := h.counted
      inside := h.inside }

/-- The process of the job in a slot is forked. -/
theorem Inv.fork (h : Inv hand (job :: dying) s) :
    Inv hand dying { s with processes := job :: s.processes } where
  runs := h.runs
  bound := h.bound
  above := h.above
  jobs := h.jobs
  fresh := h.fresh
  nodup := h.nodup
  running j := by
    have hrunning := h.running j
    simp only [ImageProc.slots, List.count_cons] at hrunning ⊢
    omega
  frames := h.frames
  counted := h.counted
  inside := h.inside

/-- A process ends; its job is still in the slot. -/
theorem Inv.ended (h : Inv hand dying s) (hjob : job ∈ s.processes) :
    Inv hand (job :: dying) { s with processes := s.processes.erase job } where
  runs := h.runs
  bound := h.bound
  above := h.above
  jobs := h.jobs
  fresh := h.fresh
  nodup := h.nodup
  running j := by
    have hrunning := h.running j
    have herase : s.processes.count j =
        (s.processes.erase job).count j + if job = j then 1 else 0 := by
      rw [(List.perm_cons_erase hjob).count_eq, List.count_cons]
      simp only [beq_iff_eq]
    simp only [ImageProc.slots, List.count_cons, beq_iff_eq] at hrunning ⊢
    omega
  frames := h.frames
  counted := h.counted
  inside := h.inside

/-- The job of a slot is counted, and leaves it. -/
theorem Inv.finish {slot : Int} (h : Inv hand (job :: dying) s) (stat : AstrometryStat)
    (hslot : 0 ≤ slot ∧ slot < s.numProc) (hjob : s.slotAt slot = some job)
    (hque : job ∉ s.imagesQue) : Inv hand dying (s.finish slot job stat) := by
  have hset := h.count_set hslot none
  simp only [hjob, Option.some.injEq, reduceCtorEq, if_false, Nat.add_zero] at hset
  have hkeep : s.imagesQue.filter (· ≠ job) = s.imagesQue :=
    List.filter_eq_self.mpr fun j hj => by
      have hne : j ≠ job := fun he => hque (he ▸ hj)
      simpa using hne
  unfold ImageProc.finish
  rw [hkeep, touchAll_eq, setSlot_eq]
  · exact
      { runs := h.runs
        bound := by
          rw [slots_set, List.length_set]
          exact h.bound
        above := fun i hi => by
          have hab := h.above i hi
          rw [slotAt_coe] at hab ⊢
          rw [slots_set, List.getElem?_set_ne (by
            have hle : s.numProc ≤ i := hi
            omega)]
          exact hab
        jobs := fun j => by
          have hjobs := h.jobs j
          have hcount := hset j
          rw [slots_set, List.map_cons, List.count_cons]
          simp only [beq_iff_eq, ImageProc.slots] at hjobs hcount ⊢
          omega
        fresh := h.fresh
        nodup := h.nodup
        running := fun j => by
          have hrunning := h.running j
          have hcount := hset j
          rw [List.count_cons] at hrunning
          rw [slots_set]
          simp only [beq_iff_eq, ImageProc.slots] at hrunning hcount ⊢
          omega
        frames := h.frames
        counted := by
          show s.counters.inc stat = (tally s.finished).inc stat
          rw [h.counted]
        inside := h.inside }
  · exact h.slot_lt hslot
  · exact h.bound

/-- The first job that waits is taken to the slot. -/
theorem Inv.startNext {slot : Int} (h : Inv hand dying s)
    (hslot : 0 ≤ slot ∧ slot < s.numProc) : Inv hand dying (s.startNext slot) := by
  have hnext : Frame.Valid s.numProc (.nextStarted slot) := hslot
  unfold ImageProc.startNext
  split
  · exact Inv.call h (by simpa using hnext)
  · next cp rest hcons =>
    have hq := h.moveQue rest (cp :: hand) fun j => by
      rw [hcons, List.count_cons, List.count_cons]
      omega
    refine Inv.call hq ?_
    intro frame hmem
    rcases List.mem_pair.mp hmem with rfl | rfl
    · exact hslot
    · exact hslot

/-- A job in hand is nowhere else. -/
theorem Inv.alone (h : Inv (job :: hand) dying s) : job ∉ s.processes := by
  have hjobs := h.jobs job
  have hrunning := h.running job
  have hone := List.nodup_iff_count_le_one.mp h.nodup job
  rw [List.count_cons_self] at hjobs
  rw [← List.count_eq_zero]
  omega

/-- A job that is to be deleted is in a slot, and does not wait. -/
theorem Inv.dying_slot (h : Inv hand (job :: dying) s) :
    job ∉ s.imagesQue ∧ ∃ slot, s.findSlot (some job) = some slot := by
  have hjobs := h.jobs job
  have hrunning := h.running job
  have hone := List.nodup_iff_count_le_one.mp h.nodup job
  rw [List.count_cons_self] at hrunning
  refine ⟨by rw [← List.count_eq_zero]; omega, ?_⟩
  have hmem : some job ∈ s.slots := by
    rw [← List.count_pos_iff]
    omega
  obtain ⟨i, hi⟩ := mem_slots_iff.mp hmem
  cases hfind : s.findSlot (some job) with
  | some slot => exact ⟨slot, rfl⟩
  | none =>
    by_cases hlt : (i : Int) < s.numProc
    · exact absurd hi (findSlot_none hfind i hlt)
    · rw [h.above i (by omega)] at hi
      cases hi

/-! ## The calls -/

/-- The slot is taken: the image waits. -/
theorem changeRunning_taken {slot : Int} {starts : Bool} (htouch : s.touch slot = s)
    (hruns : s.sendStop = false) (htaken : (s.slotAt slot).isSome) :
    s.changeRunning job slot starts = { s with imagesQue := job :: s.imagesQue }.touchAll := by
  unfold ImageProc.changeRunning
  rw [htouch]
  exact if_pos ⟨htaken, hruns⟩

theorem changeRunning_free {slot : Int} {starts : Bool} (htouch : s.touch slot = s)
    (hfree : s.slotAt slot = none) :
    s.changeRunning job slot starts =
      if starts = false then
        (s.setSlot slot (some job)).call [.deleteConnection job, .notStarted slot]
      else if job ∈ (s.setSlot slot (some job)).processes then
        (s.setSlot slot (some job)).touchAll
      else
        { s.setSlot slot (some job) with
          processes := job :: (s.setSlot slot (some job)).processes }.touchAll := by
  unfold ImageProc.changeRunning
  rw [htouch]
  dsimp only
  rw [if_neg (by simp [hfree]), hfree]
  rfl

theorem Inv.changeRunning {slot : Int} (h : Inv (job :: hand) dying s)
    (hslot : 0 ≤ slot ∧ slot < s.numProc) (starts : Bool) :
    Inv hand dying (s.changeRunning job slot starts) := by
  have htouch := touch_eq (h.slot_lt hslot)
  cases hfree : s.slotAt slot with
  | some image =>
    have hq := h.moveQue (job :: s.imagesQue) hand
      fun j => by rw [List.count_cons, List.count_cons]; omega
    rw [changeRunning_taken htouch h.runs (by rw [hfree]; rfl), touchAll_eq hq.bound]
    exact hq
  | none =>
    have hp := h.place hslot hfree
    rw [changeRunning_free htouch hfree]
    split
    · -- the process does not start, and is deleted
      refine Inv.call hp ?_
      intro frame hmem
      rcases List.mem_pair.mp hmem with rfl | rfl
      · trivial
      · exact hslot
    · have hnew : job ∉ (s.setSlot slot (some job)).processes := by
        rw [setSlot_eq (h.slot_lt hslot)]
        exact h.alone
      rw [if_neg hnew, touchAll_eq hp.fork.bound]
      exact hp.fork

theorem Inv.notStarted {slot : Int} (h : Inv hand dying s) (hslot : 0 ≤ slot ∧ slot < s.numProc)
    (hfree : s.slotAt slot = none) : Inv hand dying (s.notStarted slot) := by
  unfold ImageProc.notStarted
  rw [h.clear hslot hfree, touchAll_eq h.bound]
  dsimp only
  split
  · exact Inv.call h (by simp [Frame.Valid])
  · exact h

theorem Inv.deleteConnection (h : Inv hand (job :: dying) s) (stat : AstrometryStat) :
    Inv hand dying (s.deleteConnection job stat) := by
  obtain ⟨hque, slot, hfind⟩ := h.dying_slot
  obtain ⟨hlt, hjob⟩ := findSlot_some hfind
  have hslot : 0 ≤ (slot : Int) ∧ (slot : Int) < s.numProc := ⟨Int.natCast_nonneg slot, hlt⟩
  unfold ImageProc.deleteConnection
  rw [hfind]
  exact (h.finish stat hslot hjob hque).startNext hslot

theorem Inv.nextStarted {slot : Int} (h : Inv hand dying s) (hslot : 0 ≤ slot ∧ slot < s.numProc) :
    Inv hand dying (s.nextStarted slot) := by
  unfold ImageProc.nextStarted
  rw [touch_eq (h.slot_lt hslot)]
  dsimp only
  rw [touchAll_eq h.bound]
  split
  · split
    · exact Inv.call h (by simp [Frame.Valid])
    · exact h
  · exact h

theorem Inv.que {frames : List Frame} (h : Inv (job :: hand) dying s)
    (hframes : ∀ frame ∈ frames, frame.held = none ∧ frame.dying = none ∧ frame.Valid s.numProc) :
    Inv hand dying (s.que job frames) := by
  have hheld : frames.filterMap Frame.held = [] :=
    List.filterMap_eq_nil_iff.mpr fun frame hf => (hframes frame hf).1
  have hdying : frames.filterMap Frame.dying = [] :=
    List.filterMap_eq_nil_iff.mpr fun frame hf => (hframes frame hf).2.1
  unfold ImageProc.que
  rw [h.touchFree, touchAll_eq h.bound]
  dsimp only
  split
  · have hq := h.moveQue (job :: s.imagesQue) hand
      fun j => by rw [List.count_cons, List.count_cons]; omega
    refine Inv.call ?_ fun frame hf => (hframes frame hf).2.2
    rw [hheld, hdying]
    exact hq
  · next hfree =>
    refine Inv.call ?_ ?_
    · simp only [List.filterMap_cons, Frame.held, Frame.dying, hheld, hdying]
      exact h
    · intro frame hmem
      rcases List.mem_cons.mp hmem with rfl | hold
      · exact (getFreeSlot_valid (Int.not_lt.mp hfree)).1
      · exact (hframes frame hold).2.2

theorem Inv.queImage {frames : List Frame} (h : Inv hand dying s) (path : String)
    (hframes : ∀ frame ∈ frames, frame.held = none ∧ frame.dying = none ∧ frame.Valid s.numProc) :
    Inv hand dying (s.queImage path frames) :=
  (h.submit path).que hframes

theorem Inv.doImage (h : Inv hand dying s) (path : String) (hslots : 0 < s.numProc) :
    Inv hand dying (s.doImage path) := by
  have hsub := h.submit path
  unfold ImageProc.doImage
  rw [hsub.touchFree, touchAll_eq hsub.bound]
  refine Inv.call hsub ?_
  intro frame hmem
  rw [List.mem_singleton.mp hmem]
  split
  · exact ⟨by omega, show s.numProc - 1 < s.numProc by omega⟩
  · next hfree => exact (getFreeSlot_valid (Int.not_lt.mp hfree)).1

/-- What a change of the list of files leaves. -/
theorem Inv.glob (h : Inv hand dying s) (imageGlob : List String) (globPos : Nat) (possible : Bool)
    (image_glob : String) :
    Inv hand dying { s with
      imageGlob := imageGlob, globPos := globPos, reprocessingPossible := possible,
      image_glob := image_glob } :=
  ⟨h.runs, h.bound, h.above, h.jobs, h.fresh, h.nodup, h.running, h.frames, h.counted, h.inside⟩

theorem Inv.globLoop (h : Inv hand dying s) : Inv hand dying s.globLoop := by
  unfold ImageProc.globLoop
  split
  · next path hpath =>
    rw [h.touchFree]
    dsimp only
    split
    · rw [touchAll_eq h.bound]
      split
      · exact Inv.call (h.glob s.imageGlob (s.globPos + 1) s.reprocessingPossible s.image_glob)
          (by simp [Frame.Valid])
      · exact h.queImage path (by simp [Frame.held, Frame.dying, Frame.Valid])
    · exact h
  · exact h.glob [] 0 s.reprocessingPossible s.image_glob

theorem Inv.checkNotProcessed (h : Inv hand dying s) (glob : Option (List String)) :
    Inv hand dying (s.checkNotProcessed glob) := by
  cases glob with
  | none => exact h.glob [] s.globPos s.reprocessingPossible s.image_glob
  | some paths =>
    exact Inv.call (h.glob paths 0 s.reprocessingPossible s.image_glob) (by simp [Frame.Valid])

theorem Inv.fillSlots (h : Inv hand dying s) (i : Nat) : Inv hand dying (s.fillSlots i) := by
  unfold ImageProc.fillSlots
  rw [h.touchFree]
  dsimp only
  split
  · split
    · exact Inv.call h (by simp [Frame.Valid])
    · exact h
  · exact h

theorem Inv.reprocess (h : Inv hand dying s) : Inv hand dying s.reprocess := by
  have hset := h.glob s.imageGlob s.globPos true s.image_glob
  unfold ImageProc.reprocess
  split
  · dsimp only
    rw [hset.touchFree]
    split
    · exact Inv.call hset (by simp [Frame.Valid])
    · exact hset
  · exact h

/-! ## Steps and runs -/

/-- The slots may be allocated again while they are empty. -/
theorem Inv.reslot (h : Inv [] [] s) (hstack : s.stack = []) (image_glob : String) (np : Int)
    (slots : List (Option ConnProcess)) (hold : ∀ image ∈ s.slots, image = none)
    (hnew : ∀ image ∈ slots, image = none) (hnp : np ≤ slots.length) :
    Inv [] [] { s with image_glob := image_glob, numProc := np, runningImage := some slots } := by
  have hcount (l : List (Option ConnProcess)) (hl : ∀ image ∈ l, image = none)
      (job : ConnProcess) : l.count (some job) = 0 :=
    List.count_eq_zero.mpr fun hmem => by
      have hno := hl _ hmem
      cases hno
  exact
    { runs := h.runs
      bound := hnp
      above := fun i _ => by
        rw [slotAt_coe]
        cases hi : slots[i]? with
        | none => simp [ImageProc.slots, hi]
        | some image =>
          have hnone := hnew image (List.mem_of_getElem? hi)
          simp [ImageProc.slots, hi, hnone]
      jobs := fun job => by
        have hjobs := h.jobs job
        rw [hcount s.slots hold job] at hjobs
        simp only [ImageProc.slots, Option.getD_some, hcount slots hnew job]
        exact hjobs
      fresh := h.fresh
      nodup := h.nodup
      running := fun job => by
        have hrunning := h.running job
        rw [hcount s.slots hold job] at hrunning
        simp only [ImageProc.slots, Option.getD_some, hcount slots hnew job]
        exact hrunning
      frames := fun frame hmem => by
        rw [show s.stack = [] from hstack] at hmem
        cases hmem
      counted := h.counted
      inside := h.inside }

/-- A reload of the configuration while no process runs. -/
theorem Inv.reloadConfig (h : Inv [] [] s) (image_glob : String) (np : Int)
    (hstack : s.stack = []) (hempty : ∀ image ∈ s.slots, image = none)
    (hnp : ∀ slots ∈ s.runningImage, np ≤ slots.length) :
    Inv [] [] (s.reloadConfig image_glob np) := by
  unfold ImageProc.reloadConfig
  cases hr : s.runningImage with
  | none =>
    dsimp only
    split
    · exact h
    · refine h.reslot hstack image_glob np _ hempty ?_ ?_
      · intro image hmem
        exact List.eq_of_mem_replicate hmem
      · simp only [List.length_replicate]
        omega
  | some slots =>
    have hle : np ≤ slots.length := hnp slots hr
    have hslots : s.slots = slots := by simp [ImageProc.slots, hr]
    rw [hslots] at hempty
    have hinside : (s.outside || decide ((slots.length : Int) < np)) = s.outside := by
      simp [Int.not_lt.mpr hle]
    dsimp only
    rw [hinside]
    refine h.reslot hstack image_glob np _ (by rwa [hslots]) ?_ ?_
    · intro image hmem
      rcases List.mem_append.mp hmem with hnew | hold
      · exact List.eq_of_mem_replicate hnew
      · exact hempty image (List.mem_of_mem_drop hold)
    · simp only [List.length_append, List.length_replicate, List.length_drop]
      omega

theorem Inv.event (h : Inv [] [] s) (hstack : s.stack = []) (a : Input) (hok : Undisturbed s a) :
    Inv [] [] (s.event a.event) := by
  unfold Undisturbed at hok
  rw [hstack] at hok
  cases he : a.event with
  | que_image path => exact h.queImage path (by simp)
  | only_process path => exact h.queImage path (by simp)
  | do_image path =>
    rw [he] at hok
    exact h.doImage path hok
  | que_obs executable target =>
    simp only [ImageProc.event]
    split
    · exact h.queImage target (by simp)
    · exact h
  | reprocess => exact h.reprocess
  | stop_reprocess => exact h.glob [] 0 s.reprocessingPossible s.image_glob
  | setImageGlob glob => exact h.glob s.imageGlob s.globPos s.reprocessingPossible glob
  | ended conn =>
    simp only [ImageProc.event]
    split
    · next hmem => exact Inv.call (h.ended hmem) (by simp [Frame.Valid])
    · exact h
  | idle =>
    simp only [ImageProc.event]
    split
    · exact h
    · next newImage rest hcons =>
      rw [h.touchFree]
      split
      · next hfree =>
        have hq := h.moveQue rest [newImage] fun j => by
          rw [hcons, List.count_cons, List.count_cons]
          simp only [List.count_nil]
          omega
        exact Inv.call hq (by simpa [Frame.Valid] using (getFreeSlot_valid hfree).1)
      · exact h
  | changeMasterState night =>
    cases night with
    | true =>
      simp only [ImageProc.event]
      split
      · exact h.glob [] 0 false s.image_glob
      · exact h.glob s.imageGlob s.globPos false s.image_glob
    | false => exact h.reprocess
  | reloadConfig config =>
    cases config with
    | none => exact h
    | some config =>
      rw [he] at hok
      exact h.reloadConfig config.1 config.2 hstack hok.1 hok.2

theorem Inv.resume {frame : Frame} {rest : List Frame} (h : Inv [] [] s)
    (hstack : s.stack = frame :: rest) (a : Input) (hok : Undisturbed s a) :
    Inv [] [] ({ s with stack := rest }.resume a frame) := by
  have hpop := h.pop hstack
  have hvalid := h.frames frame (by rw [hstack]; exact List.mem_cons_self)
  cases frame with
  | changeRunning newImage slot => exact hpop.changeRunning hvalid a.starts
  | notStarted slot =>
    unfold Undisturbed at hok
    rw [hstack] at hok
    exact hpop.notStarted hvalid hok
  | deleteConnection conn => exact hpop.deleteConnection a.astrometryStat
  | nextStarted slot => exact hpop.nextStarted hvalid
  | queNextFromGlob =>
    simp only [ImageProc.resume]
    split
    · exact hpop
    · exact Inv.call hpop (by simp [Frame.Valid])
  | globLoop => exact hpop.globLoop
  | globQueued =>
    exact Inv.call (hpop.glob s.imageGlob (s.globPos + 1) s.reprocessingPossible s.image_glob)
      (by simp [Frame.Valid])
  | checkNotProcessed => exact hpop.checkNotProcessed a.glob
  | fillSlots i => exact hpop.fillSlots i

/-- One step keeps the invariant. -/
theorem Inv.step (h : Inv [] [] s) (a : Input) (hok : Undisturbed s a) : Inv [] [] (s.step a) := by
  unfold ImageProc.step
  split
  · next hstack => exact h.event hstack a hok
  · next frame rest hstack => exact h.resume hstack a hok

/-- No more processes run than there are slots below `num_proc`. -/
theorem Inv.limit (h : Inv [] [] s) : s.processes.length ≤ s.numProc.toNat := by
  have hdrop : ∀ job, (s.slots.drop s.numProc.toNat).count (some job) = 0 := by
    intro job
    rw [List.count_eq_zero]
    intro hmem
    obtain ⟨i, hi⟩ := List.mem_iff_getElem?.mp hmem
    have hnone := h.above (s.numProc.toNat + i) (by omega)
    rw [slotAt_coe, ← List.getElem?_drop, hi] at hnone
    cases hnone
  have hsub : (s.processes.map some).Subperm (s.slots.take s.numProc.toNat) := by
    rw [List.subperm_ext_iff]
    intro image hmem
    obtain ⟨job, -, rfl⟩ := List.mem_map.mp hmem
    have hrunning := h.running job
    have hsplit : s.slots.count (some job) = (s.slots.take s.numProc.toNat).count (some job) := by
      conv => lhs; rw [← List.take_append_drop s.numProc.toNat s.slots]
      rw [List.count_append, hdrop job, Nat.add_zero]
    rw [List.count_map_of_injective _ _ (fun _ _ => Option.some.inj)]
    omega
  have hlen := hsub.length_le
  rw [List.length_map, List.length_take] at hlen
  omega

theorem Inv.consistent (h : Inv [] [] s) : Consistent s where
  placed job hjob := by
    have hjobs := h.jobs job
    have hone := List.count_eq_one_of_mem h.nodup hjob
    rw [List.count_nil] at hjobs
    omega
  running hstack job := by
    have hrunning := h.running job
    rw [hstack] at hrunning
    exact hrunning
  counted := h.counted
  limit := h.limit
  inside := h.inside

/-- **Jobs.** In every run whose steps are undisturbed, every job is in one place, every
finished job is counted once, and the slots are enough for the processes. -/
theorem jobs_consistent (inputs : List Input)
    (h : Along ImageProc.step Undisturbed ImageProc.start inputs) :
    Consistent (run ImageProc.step ImageProc.start inputs) :=
  (h.invariant Inv.start fun _ a hi hok => hi.step a hok).consistent

instance (s : ImageProc) (a : Input) : Decidable (Undisturbed s a) := by
  unfold Undisturbed
  split <;> infer_instance

/-- An event, or the answer that a process starts. -/
def on (event : Event) : Input := ⟨event, true, .GET, none⟩

/-- The answer that a process does not start; its job counts as one without astrometry. -/
def noStart : Input := ⟨.idle, false, .NOT_ASTROMETRY, none⟩

/-- One slot; two images wait while the first is processed. -/
def threeImages : List Input :=
  [on (.reloadConfig (some ("", 1))), on (.que_image "a.fits"), on .idle,
    on (.que_image "b.fits"), on (.que_image "c.fits"), on (.ended ⟨0, "a.fits"⟩), on .idle]

/-- The next image starts, and the processor goes on. -/
theorem jobs_consistent_threeImages :
    Consistent (run ImageProc.step ImageProc.start (threeImages ++ [on .idle, on .idle])) :=
  jobs_consistent _ (by decide)

/-- The next image does not start; the one after it does, and the slot is cleared. -/
theorem started_and_forgotten :
    let s := run ImageProc.step ImageProc.start
      (threeImages ++ [noStart, noStart, on .idle, on .idle, on .idle, on .idle])
    s.stack = [] ∧ s.processes = [⟨1, "b.fits"⟩] ∧ s.slots = [none] ∧ ¬ Consistent s := by
  refine ⟨by decide, by decide, by decide, fun h => ?_⟩
  have hrunning := h.running (by decide) ⟨1, "b.fits"⟩
  exact absurd hrunning (by decide)

end Rts2.Plan.Imgproc

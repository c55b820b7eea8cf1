import Rts2.Lib.Endless
import Rts2.Plan.ImgprocJobs

/-! # Reprocessing a directory

`queNextFromGlob` moves on in the list of files after it queued one. A process that does not start is
deleted before that, and `deleteConnection` calls `queNextFromGlob` again, which finds the same file. -/
namespace Rts2.Plan.Imgproc
open Rts2.Lib

/-! ## A pass -/

/-- The place in the list of the file that a step tries to process. -/
def ImageProc.tries (s : ImageProc) : Option Nat :=
  match s.stack, s.imageGlob[s.globPos]? with
  | .globLoop :: _, some path =>
    if 0 ≤ s.getFreeSlot ∧ s.alreadyProcessing path = false then some s.globPos else none
  | _, _ => none

/-- The directory is read, a new pass begins. -/
def ImageProc.opens (s : ImageProc) : Prop := s.stack.head? = some .checkNotProcessed

/-- The calls that process the files of a directory. -/
def Frame.Reprocesses (frame : Frame) : Prop := frame = .checkNotProcessed ∨ frame = .queNextFromGlob

section
variable (s : ImageProc) (rest : List Frame) (inputs : ℕ → Input)

/-- The call above `rest` is in progress in the first `n` states. -/
def Within (n : ℕ) : Prop :=
  ∀ k, k < n → rest.length < (after ImageProc.step s inputs k).stack.length

/-- Every process the call starts does start. -/
def AllStart : Prop :=
  ∀ n, Within s rest inputs (n + 1) → ∀ image slot tail,
    (after ImageProc.step s inputs n).stack = .changeRunning image slot :: tail →
      (inputs n).starts = true

/-- The call is back after `n` steps. -/
structure Returns (n : ℕ) : Prop where
  within : Within s rest inputs n
  back : (after ImageProc.step s inputs n).stack = rest

/-- No file is tried twice in a pass. -/
def Once (n : ℕ) : Prop :=
  ∀ j k i, j < k → k < n → (after ImageProc.step s inputs j).tries = some i →
    (after ImageProc.step s inputs k).tries = some i →
      ∃ l, j < l ∧ l < k ∧ (after ImageProc.step s inputs l).opens

/-- The call returns with every file tried once at most. It goes on where the pass stands and leaves
it behind the files it tried, and the calls are not nested any deeper with more files. -/
structure Pass (n : ℕ) : Prop extends Returns s rest inputs n where
  once : Once s inputs n
  resumes : s.stack.head? = some .queNextFromGlob → ∀ k i, k < n →
    (after ImageProc.step s inputs k).tries = some i → s.globPos ≤ i
  onward : ∀ k i, k < n → (after ImageProc.step s inputs k).tries = some i →
    (after ImageProc.step s inputs n).imageGlob = [] ∨ i < (after ImageProc.step s inputs n).globPos
  depth : ∀ k, k ≤ n → (after ImageProc.step s inputs k).stack.length ≤ rest.length + 3

end

/-- A state of a run from the start. -/
def Reached (s : ImageProc) : Prop :=
  ∃ before, Along ImageProc.step Undisturbed ImageProc.start before ∧
    run ImageProc.step ImageProc.start before = s

/-! ## One step of a call -/

/-- What is below the loop over the list: nothing of the call, or the loop over the slots. -/
def Outer (frames : List Frame) : Prop := frames = [] ∨ ∃ i, frames = [.fillSlots i]

/-- The frames of a call in progress whose processes start. -/
inductive Call : List Frame → Prop where
  | fill (i : Nat) : Call [.fillSlots i]
  | que {outer : List Frame} (h : Outer outer) : Call (.queNextFromGlob :: outer)
  | loop {outer : List Frame} (h : Outer outer) : Call (.globLoop :: outer)
  | start {outer : List Frame} (image : ConnProcess) (slot : Int) (h : Outer outer) :
    Call (.changeRunning image slot :: .globQueued :: outer)
  | queued {outer : List Frame} (h : Outer outer) : Call (.globQueued :: outer)

/-- What is left to do with a list of so many files. -/
def weight (files : Nat) : Nat → List Frame → Nat
  | pos, [] => 4 * (files - pos)
  | pos, .fillSlots i :: frames => 3 * (files - i) + 1 + weight files pos frames
  | pos, .queNextFromGlob :: frames => 2 + weight files pos frames
  | pos, .globQueued :: frames => 2 + weight files (pos + 1) frames
  | pos, _ :: frames => 1 + weight files pos frames

/-- The files of the list that are behind the call; one that is being queued is. -/
def passed (pos : Nat) (frames : List Frame) : Nat :=
  if .globQueued ∈ frames then pos + 1 else pos

/-- The slot of a process that is about to start is free. -/
def Free (s : ImageProc) (frames : List Frame) : Prop :=
  ∀ image slot tail, frames = .changeRunning image slot :: tail → s.slotAt slot = none

/-- One step of a call. -/
structure Goes (s s' : ImageProc) (frames frames' rest : List Frame) : Prop where
  stack : s'.stack = frames' ++ rest
  call : frames' = [] ∨ Call frames'
  less : weight s'.imageGlob.length s'.globPos frames' < weight s.imageGlob.length s.globPos frames
  onward : s'.imageGlob = [] ∨
    s'.imageGlob = s.imageGlob ∧ passed s.globPos frames ≤ passed s'.globPos frames'
  tried : ∀ i, s.tries = some i →
    s.imageGlob ≠ [] ∧ passed s.globPos frames = i ∧ i < passed s'.globPos frames'
  starting : ∀ image slot tail, frames' = .changeRunning image slot :: tail →
    s'.slotAt slot = none ∧ ∃ i, s.tries = some i
  que : Free s frames → s'.imagesQue = s.imagesQue
  possible : s'.reprocessingPossible = s.reprocessingPossible

variable {s : ImageProc} {rest outer frames : List Frame} {frame : Frame} {inputs : ℕ → Input}

theorem step_cons (h : s.stack = frame :: rest) (a : Input) :
    s.step a = { s with stack := rest }.resume a frame := by
  unfold ImageProc.step
  rw [h]

theorem touchFree_exists (s : ImageProc) : ∃ b, s.touchFree = { s with outside := b } := by
  unfold ImageProc.touchFree
  split
  · exact ⟨_, rfl⟩
  · exact ⟨_, rfl⟩

/-- A step that is not one of the loop over the list tries no file. -/
theorem tries_none (h : s.stack = frame :: rest) (hframe : frame ≠ .globLoop) : s.tries = none := by
  unfold ImageProc.tries
  split
  · next hstack _ =>
    rw [h] at hstack
    exact absurd (List.cons.inj hstack).1 hframe
  · rfl

theorem Outer.nil : Outer [] := .inl rfl

theorem Outer.notMem (h : Outer outer) : .globQueued ∉ outer := by
  obtain rfl | ⟨i, rfl⟩ := h
  · simp
  · simp

/-- A file less in front of the call. -/
theorem Outer.weight_next (h : Outer outer) {files pos : Nat} (hpos : pos < files) :
    weight files pos outer = weight files (pos + 1) outer + 4 := by
  obtain rfl | ⟨i, rfl⟩ := h
  · simp only [weight]
    omega
  · simp only [weight]
    omega

theorem Outer.weight_ended (h : Outer outer) (files pos : Nat) :
    weight 0 0 outer ≤ weight files pos outer := by
  obtain rfl | ⟨i, rfl⟩ := h
  · simp [weight]
  · simp only [weight]
    omega

theorem Outer.done_or_call (h : Outer outer) : outer = [] ∨ Call outer := by
  obtain rfl | ⟨i, rfl⟩ := h
  · exact .inl rfl
  · exact .inr (.fill i)

/-- A process that starts takes a slot or waits, and the call goes on. -/
theorem changeRunning_starts (s : ImageProc) (image : ConnProcess) (slot : Int) :
    (s.changeRunning image slot true).stack = s.stack ∧
      (s.changeRunning image slot true).imageGlob = s.imageGlob ∧
      (s.changeRunning image slot true).globPos = s.globPos ∧
      (s.changeRunning image slot true).reprocessingPossible = s.reprocessingPossible ∧
      (s.slotAt slot = none → (s.changeRunning image slot true).imagesQue = s.imagesQue) := by
  unfold ImageProc.changeRunning
  dsimp only
  split
  · next htaken =>
    have htaken : (s.slotAt slot).isSome = true := htaken.1
    refine ⟨rfl, rfl, rfl, rfl, fun hfree => ?_⟩
    rw [hfree] at htaken
    cases htaken
  · have hque : s.slotAt slot = none →
        ((s.touch slot).slotAt slot).toList ++ s.imagesQue = s.imagesQue := by
      intro hfree
      rw [show (s.touch slot).slotAt slot = none from hfree]
      rfl
    rw [if_neg (by simp)]
    split
    · exact ⟨rfl, rfl, rfl, rfl, hque⟩
    · exact ⟨rfl, rfl, rfl, rfl, hque⟩

section
variable {path : String}

/-- An image is queued in a free slot. -/
theorem queImage_free (hfree : 0 ≤ s.getFreeSlot) (path : String) (frames : List Frame) :
    ∃ b, s.queImage path frames = { s with
      outside := b
      submitted := s.newProcess path :: s.submitted
      stack := .changeRunning (s.newProcess path) s.getFreeSlot :: (frames ++ s.stack) } := by
  obtain ⟨b, hb⟩ := touchFree_exists (s.submit path)
  unfold ImageProc.queImage ImageProc.que
  rw [hb]
  exact ⟨_, if_neg (Int.not_lt.mpr hfree)⟩

theorem globLoop_over (h : s.imageGlob[s.globPos]? = none) :
    s.globLoop = { s with imageGlob := [], globPos := 0 } := by
  unfold ImageProc.globLoop
  rw [h]

theorem globLoop_full (h : s.imageGlob[s.globPos]? = some path) (hfull : ¬ 0 ≤ s.getFreeSlot) :
    ∃ b, s.globLoop = { s with outside := b } := by
  obtain ⟨b, hb⟩ := touchFree_exists s
  unfold ImageProc.globLoop
  rw [h]
  dsimp only
  rw [hb]
  exact ⟨b, if_neg hfull⟩

theorem globLoop_already (h : s.imageGlob[s.globPos]? = some path) (hfree : 0 ≤ s.getFreeSlot)
    (halready : s.alreadyProcessing path = true) :
    ∃ b, s.globLoop =
      { s with outside := b, globPos := s.globPos + 1, stack := .globLoop :: s.stack } := by
  obtain ⟨b, hb⟩ := touchFree_exists s
  unfold ImageProc.globLoop
  rw [h]
  dsimp only
  rw [hb]
  exact ⟨_, (if_pos hfree).trans (if_pos halready)⟩

theorem globLoop_queued (h : s.imageGlob[s.globPos]? = some path) (hfree : 0 ≤ s.getFreeSlot)
    (halready : s.alreadyProcessing path = false) :
    ∃ b, s.globLoop = { s with
      outside := b
      submitted := s.newProcess path :: s.submitted
      stack := .changeRunning (s.newProcess path) s.getFreeSlot :: .globQueued :: s.stack } := by
  obtain ⟨b, hb⟩ := touchFree_exists s
  unfold ImageProc.globLoop
  rw [h]
  dsimp only
  rw [hb]
  have hnot : ¬ s.alreadyProcessing path = true := by simp [halready]
  obtain ⟨c, hc⟩ := queImage_free (s := { s with outside := b }.touchAll) hfree path [.globQueued]
  exact ⟨c, (if_pos hfree).trans ((if_neg hnot).trans hc)⟩

end

theorem Outer.passed_eq (h : Outer outer) (pos : Nat) : passed pos outer = pos :=
  if_neg h.notMem

theorem Outer.passed_cons (h : Outer outer) (pos : Nat) (hframe : frame ≠ .globQueued) :
    passed pos (frame :: outer) = pos :=
  if_neg fun hmem => (List.mem_cons.mp hmem).elim (fun heq => hframe heq.symm) h.notMem

/-- No process is about to start. -/
def Still (frames : List Frame) : Prop :=
  ∀ image slot tail, frames ≠ .changeRunning image slot :: tail

theorem Outer.still (h : Outer outer) : Still outer := by
  intro image slot tail heq
  obtain rfl | ⟨i, rfl⟩ := h
  · cases heq
  · cases heq

theorem still_cons (frames : List Frame) (h : ∀ image slot, frame ≠ .changeRunning image slot) :
    Still (frame :: frames) :=
  fun image slot _ heq => absurd (List.cons.inj heq).1 (h image slot)

/-- A step that tries no file, and leaves the list alone. -/
theorem Goes.silent {s' : ImageProc} {frames' : List Frame} (htry : s.tries = none)
    (hstack : s'.stack = frames' ++ rest) (hcall : frames' = [] ∨ Call frames')
    (hstill : Still frames') (hque : Free s frames → s'.imagesQue = s.imagesQue)
    (hpossible : s'.reprocessingPossible = s.reprocessingPossible)
    (hglob : s'.imageGlob = s.imageGlob)
    (hless : weight s.imageGlob.length s'.globPos frames' < weight s.imageGlob.length s.globPos frames)
    (hpassed : passed s.globPos frames ≤ passed s'.globPos frames') :
    Goes s s' frames frames' rest where
  stack := hstack
  call := hcall
  less := by rw [hglob]; exact hless
  onward := .inr ⟨hglob, hpassed⟩
  tried i hi := by rw [htry] at hi; cases hi
  starting image slot tail heq := absurd heq (hstill image slot tail)
  que := hque
  possible := hpossible

theorem Call.fill_step (i : Nat) (a : Input) (hstack : s.stack = .fillSlots i :: rest) :
    ∃ frames', Goes s (s.step a) [.fillSlots i] frames' rest := by
  have htry := tries_none hstack (by simp)
  obtain ⟨b, hb⟩ := touchFree_exists { s with stack := rest }
  rw [step_cons hstack]
  show ∃ frames', Goes s (ImageProc.fillSlots { s with stack := rest } i) [.fillSlots i] frames' rest
  unfold ImageProc.fillSlots
  by_cases hi : i < s.imageGlob.length
  · rw [if_pos hi, hb]
    dsimp only
    split
    · refine ⟨[.queNextFromGlob, .fillSlots (i + 1)], Goes.silent htry rfl
        (.inr (.que (.inr ⟨i + 1, rfl⟩))) (still_cons _ (by simp)) (fun _ => rfl) rfl rfl ?_
        (Nat.le_refl _)⟩
      show 2 + (3 * (s.imageGlob.length - (i + 1)) + 1 + 4 * (s.imageGlob.length - s.globPos)) <
        3 * (s.imageGlob.length - i) + 1 + 4 * (s.imageGlob.length - s.globPos)
      omega
    · refine ⟨[], Goes.silent htry rfl (.inl rfl) Outer.nil.still (fun _ => rfl)
        rfl rfl ?_ (Nat.le_refl _)⟩
      simp only [weight]
      omega
  · rw [if_neg hi]
    refine ⟨[], Goes.silent htry rfl (.inl rfl) Outer.nil.still (fun _ => rfl)
        rfl rfl ?_ (Nat.le_refl _)⟩
    simp only [weight]
    omega

theorem Call.loop_step (houter : Outer outer) (a : Input)
    (hstack : s.stack = .globLoop :: (outer ++ rest)) :
    ∃ frames', Goes s (s.step a) (.globLoop :: outer) frames' rest := by
  rw [step_cons hstack]
  show ∃ frames', Goes s (ImageProc.globLoop { s with stack := outer ++ rest }) _ frames' rest
  have hpassed : passed s.globPos (.globLoop :: outer) = s.globPos :=
    houter.passed_cons _ (by simp)
  cases hpath : s.imageGlob[s.globPos]? with
  | none =>
    have htry : s.tries = none := by simp [ImageProc.tries, hstack, hpath]
    rw [globLoop_over (s := { s with stack := outer ++ rest }) hpath]
    have hless := houter.weight_ended s.imageGlob.length s.globPos
    refine ⟨outer, rfl, houter.done_or_call, ?_, .inl rfl, ?_,
      fun image slot tail heq => absurd heq (houter.still image slot tail), fun _ => rfl, rfl⟩
    · show weight 0 0 outer < 1 + weight s.imageGlob.length s.globPos outer
      omega
    · intro i hi
      rw [htry] at hi
      cases hi
  | some path =>
    have hpos : s.globPos < s.imageGlob.length := (List.getElem?_eq_some_iff.mp hpath).1
    have hnext := houter.weight_next hpos
    by_cases hfree : 0 ≤ s.getFreeSlot
    · by_cases halready : s.alreadyProcessing path = true
      · have htry : s.tries = none := by simp [ImageProc.tries, hstack, hpath, halready]
        obtain ⟨b, hb⟩ :=
          globLoop_already (s := { s with stack := outer ++ rest }) hpath hfree halready
        rw [hb]
        refine ⟨.globLoop :: outer, Goes.silent htry rfl (.inr (.loop houter))
          (still_cons _ (by simp)) (fun _ => rfl) rfl rfl ?_ ?_⟩
        · show 1 + weight s.imageGlob.length (s.globPos + 1) outer <
            1 + weight s.imageGlob.length s.globPos outer
          omega
        · rw [hpassed]
          rw [houter.passed_cons _ (by simp)]
          exact Nat.le_succ _
      · rw [Bool.not_eq_true] at halready
        have htry : s.tries = some s.globPos := by
          simp [ImageProc.tries, hstack, hpath, halready, hfree]
        obtain ⟨b, hb⟩ :=
          globLoop_queued (s := { s with stack := outer ++ rest }) hpath hfree halready
        rw [hb]
        have hmoved : ∀ image slot, passed s.globPos
            (.changeRunning image slot :: .globQueued :: outer) = s.globPos + 1 := by
          intro image slot
          exact if_pos (List.mem_cons_of_mem _ List.mem_cons_self)
        refine ⟨.changeRunning (s.newProcess path) s.getFreeSlot :: .globQueued :: outer, rfl,
          .inr (.start _ _ houter), ?_, .inr ⟨rfl, ?_⟩, ?_, ?_, fun _ => rfl, rfl⟩
        · show 1 + (2 + weight s.imageGlob.length (s.globPos + 1) outer) <
            1 + weight s.imageGlob.length s.globPos outer
          omega
        · rw [hpassed]
          rw [hmoved]
          exact Nat.le_succ _
        · intro i hi
          rw [htry] at hi
          obtain rfl := Option.some.inj hi
          refine ⟨List.ne_nil_of_length_pos (Nat.zero_lt_of_lt hpos), hpassed, ?_⟩
          exact Nat.lt_of_lt_of_eq (Nat.lt_succ_self _) (hmoved _ _).symm
        · intro image slot tail heq
          have hslot : s.getFreeSlot = slot := (Frame.changeRunning.inj (List.cons.inj heq).1).2
          rw [← hslot]
          exact ⟨(getFreeSlot_valid hfree).2, s.globPos, htry⟩
    · have htry : s.tries = none := by simp [ImageProc.tries, hstack, hpath, hfree]
      obtain ⟨b, hb⟩ := globLoop_full (s := { s with stack := outer ++ rest }) hpath hfree
      rw [hb]
      refine ⟨outer, Goes.silent htry rfl houter.done_or_call houter.still (fun _ => rfl) rfl rfl
        ?_ ?_⟩
      · show weight s.imageGlob.length s.globPos outer < 1 + weight s.imageGlob.length s.globPos outer
        omega
      · rw [hpassed]
        exact Nat.le_of_eq (houter.passed_eq _).symm

/-- One step of a call, when the process that it starts does start. -/
theorem Call.step {a : Input} (h : Call frames) (hstack : s.stack = frames ++ rest)
    (hstarts : ∀ image slot tail, s.stack = .changeRunning image slot :: tail → a.starts = true) :
    ∃ frames', Goes s (s.step a) frames frames' rest := by
  cases h with
  | fill i => exact Call.fill_step i a hstack
  | @que outer houter =>
    have htry := tries_none hstack (by simp)
    rw [step_cons hstack]
    by_cases hglob : s.imageGlob = []
    · have hback : ImageProc.resume { s with stack := outer ++ rest } a .queNextFromGlob =
          { s with stack := outer ++ rest } := if_pos hglob
      rw [List.append_eq, hback]
      refine ⟨outer, Goes.silent htry rfl houter.done_or_call houter.still (fun _ => rfl) rfl rfl
        ?_ ?_⟩
      · show weight s.imageGlob.length s.globPos outer < 2 + weight s.imageGlob.length s.globPos outer
        omega
      · rw [houter.passed_cons _ (by simp)]
        exact Nat.le_of_eq (houter.passed_eq _).symm
    · have hback : ImageProc.resume { s with stack := outer ++ rest } a .queNextFromGlob =
          { s with stack := .globLoop :: (outer ++ rest) } := if_neg hglob
      rw [List.append_eq, hback]
      refine ⟨.globLoop :: outer, Goes.silent htry rfl (.inr (.loop houter))
          (still_cons _ (by simp)) (fun _ => rfl) rfl rfl ?_ ?_⟩
      · show 1 + weight s.imageGlob.length s.globPos outer <
          2 + weight s.imageGlob.length s.globPos outer
        omega
      · rw [houter.passed_cons _ (by simp)]
        exact Nat.le_of_eq (houter.passed_cons _ (by simp)).symm
  | @loop outer houter => exact Call.loop_step houter a hstack
  | @start outer image slot houter =>
    have htry := tries_none hstack (by simp)
    obtain ⟨hsame, hglob, hpos, hpossible, hque⟩ :=
      changeRunning_starts { s with stack := .globQueued :: (outer ++ rest) } image slot
    rw [step_cons hstack]
    show ∃ frames', Goes s (ImageProc.changeRunning
      { s with stack := .globQueued :: (outer ++ rest) } image slot a.starts) _ frames' rest
    rw [hstarts _ _ _ hstack]
    refine ⟨.globQueued :: outer, Goes.silent htry hsame (.inr (.queued houter))
      (still_cons _ (by simp)) (fun hfree => hque (hfree _ _ _ rfl)) hpossible hglob ?_ ?_⟩
    · rw [hpos]
      exact Nat.lt_add_of_pos_left Nat.one_pos
    · rw [hpos]
      simp [passed]
  | @queued outer houter =>
    have htry := tries_none hstack (by simp)
    rw [step_cons hstack]
    refine ⟨.globLoop :: outer, Goes.silent htry rfl (.inr (.loop houter))
          (still_cons _ (by simp)) (fun _ => rfl) rfl rfl ?_ ?_⟩
    · show 1 + weight s.imageGlob.length (s.globPos + 1) outer <
        2 + weight s.imageGlob.length (s.globPos + 1) outer
      omega
    · have hloop : passed (s.globPos + 1) (.globLoop :: outer) = s.globPos + 1 :=
        houter.passed_cons _ (by simp)
      show passed s.globPos (.globQueued :: outer) ≤ passed (s.globPos + 1) (.globLoop :: outer)
      rw [hloop]
      simp [passed]

/-! ## A call whose processes start -/

/-- The rest of a call. Files are tried one after the other, none before `passed`. -/
structure Rest (s : ImageProc) (rest : List Frame) (inputs : ℕ → Input) (frames : List Frame)
    (n : ℕ) : Prop extends Returns s rest inputs n where
  ascends : ∀ j k i i', j < k → k < n → (after ImageProc.step s inputs j).tries = some i →
    (after ImageProc.step s inputs k).tries = some i' → i < i'
  ahead : ∀ b, s.imageGlob = [] ∨ b ≤ passed s.globPos frames →
    (∀ k i, k < n → (after ImageProc.step s inputs k).tries = some i → b ≤ i) ∧
      ((after ImageProc.step s inputs n).imageGlob = [] ∨
        b ≤ (after ImageProc.step s inputs n).globPos)
  onward : ∀ k i, k < n → (after ImageProc.step s inputs k).tries = some i →
    (after ImageProc.step s inputs n).imageGlob = [] ∨ i < (after ImageProc.step s inputs n).globPos
  closed : ∀ k, k < n → ¬ (after ImageProc.step s inputs k).opens
  depth : ∀ k, k ≤ n → (after ImageProc.step s inputs k).stack.length ≤ rest.length + 3

theorem Within.next {n : ℕ} (hs : rest.length < s.stack.length)
    (h : Within (s.step (inputs 0)) rest (fun i => inputs (i + 1)) n) :
    Within s rest inputs (n + 1) := by
  intro k hk
  cases k with
  | zero => exact hs
  | succ k =>
    rw [after_next]
    exact h k (Nat.lt_of_succ_lt_succ hk)

theorem AllStart.next (hs : rest.length < s.stack.length) (h : AllStart s rest inputs) :
    AllStart (s.step (inputs 0)) rest fun i => inputs (i + 1) := by
  intro n hn image slot tail hstack
  refine h (n + 1) (Within.next hs hn) image slot tail ?_
  rw [after_next]
  exact hstack

theorem Rest.done (hstack : s.stack = rest) (inputs : ℕ → Input) : Rest s rest inputs [] 0 where
  within k hk := absurd hk (Nat.not_lt_zero k)
  back := hstack
  ascends j k i i' hjk hk := absurd hk (Nat.not_lt_zero k)
  ahead b hb := ⟨fun k i hk => absurd hk (Nat.not_lt_zero k), hb⟩
  onward k i hk := absurd hk (Nat.not_lt_zero k)
  closed k hk := absurd hk (Nat.not_lt_zero k)
  depth k hk := by
    obtain rfl := Nat.le_zero.mp hk
    exact Nat.le_add_right_of_le (Nat.le_of_eq (congrArg List.length hstack))

theorem Outer.length_le (h : Outer outer) : outer.length ≤ 1 := by
  obtain rfl | ⟨i, rfl⟩ := h
  · exact Nat.zero_le _
  · exact Nat.le_refl _

theorem Call.length (h : Call frames) : 0 < frames.length ∧ frames.length ≤ 3 := by
  cases h with
  | fill i => simp
  | que h =>
    have hlen := h.length_le
    simp only [List.length_cons]
    omega
  | loop h =>
    have hlen := h.length_le
    simp only [List.length_cons]
    omega
  | start image slot h =>
    have hlen := h.length_le
    simp only [List.length_cons]
    omega
  | queued h =>
    have hlen := h.length_le
    simp only [List.length_cons]
    omega

theorem Call.closed (h : Call frames) (hstack : s.stack = frames ++ rest) : ¬ s.opens := by
  unfold ImageProc.opens
  rw [hstack]
  cases h with
  | fill i => simp
  | que h => simp
  | loop h => simp
  | start image slot h => simp
  | queued h => simp

/-- One step in front of the rest of a call. -/
theorem Rest.cons {frames' : List Frame} {n : ℕ} (hcall : Call frames)
    (hstack : s.stack = frames ++ rest) (hgoes : Goes s (s.step (inputs 0)) frames frames' rest)
    (h : Rest (s.step (inputs 0)) rest (fun i => inputs (i + 1)) frames' n) :
    Rest s rest inputs frames (n + 1) where
  within := by
    refine Within.next ?_ h.within
    have hlen := hcall.length.1
    rw [hstack, List.length_append]
    omega
  back := by
    rw [after_next]
    exact h.back
  ascends j k i i' hjk hk hj hk' := by
    cases k with
    | zero => exact absurd hjk (Nat.not_lt_zero j)
    | succ k =>
      rw [after_next] at hk'
      cases j with
      | zero =>
        obtain ⟨-, -, hless⟩ := hgoes.tried i hj
        exact (h.ahead (i + 1) (.inr hless)).1 k i' (Nat.lt_of_succ_lt_succ hk) hk'
      | succ j =>
        rw [after_next] at hj
        exact h.ascends j k i i' (Nat.lt_of_succ_lt_succ hjk) (Nat.lt_of_succ_lt_succ hk) hj hk'
  ahead b hb := by
    have hnext : (s.step (inputs 0)).imageGlob = [] ∨
        b ≤ passed (s.step (inputs 0)).globPos frames' := by
      rcases hgoes.onward with hnil | ⟨hglob, hmore⟩
      · exact .inl hnil
      · rcases hb with hnil | hb
        · exact .inl (hglob.trans hnil)
        · exact .inr (Nat.le_trans hb hmore)
    refine ⟨?_, ?_⟩
    · intro k i hk hi
      cases k with
      | zero =>
        obtain ⟨hne, heq, -⟩ := hgoes.tried i hi
        rcases hb with hnil | hb
        · exact absurd hnil hne
        · exact Nat.le_trans hb (Nat.le_of_eq heq)
      | succ k =>
        rw [after_next] at hi
        exact (h.ahead b hnext).1 k i (Nat.lt_of_succ_lt_succ hk) hi
    · rw [after_next]
      exact (h.ahead b hnext).2
  onward k i hk hi := by
    rw [after_next]
    cases k with
    | zero =>
      obtain ⟨-, -, hless⟩ := hgoes.tried i hi
      exact (h.ahead (i + 1) (.inr hless)).2
    | succ k =>
      rw [after_next] at hi
      exact h.onward k i (Nat.lt_of_succ_lt_succ hk) hi
  closed k hk := by
    cases k with
    | zero => exact hcall.closed hstack
    | succ k =>
      rw [after_next]
      exact h.closed k (Nat.lt_of_succ_lt_succ hk)
  depth k hk := by
    cases k with
    | zero =>
      have hlen := hcall.length.2
      show s.stack.length ≤ rest.length + 3
      rw [hstack, List.length_append]
      omega
    | succ k =>
      rw [after_next]
      exact h.depth k (Nat.le_of_succ_le_succ hk)

/-- A call returns: every step takes off the weight. -/
theorem Call.returns (hcall : Call frames) (hstack : s.stack = frames ++ rest)
    (hstart : AllStart s rest inputs) : ∃ n, Rest s rest inputs frames n := by
  induction hw : weight s.imageGlob.length s.globPos frames using Nat.strong_induction_on
    generalizing s inputs frames with
  | _ w ih =>
    have hlen : rest.length < s.stack.length := by
      have hpos := hcall.length.1
      rw [hstack, List.length_append]
      omega
    have hfirst : Within s rest inputs 1 := by
      intro k hk
      obtain rfl := Nat.lt_one_iff.mp hk
      exact hlen
    obtain ⟨frames', hgoes⟩ := hcall.step hstack (hstart 0 hfirst)
    rcases hgoes.call with rfl | hnext
    · exact ⟨1, (Rest.done hgoes.stack _).cons hcall hstack hgoes⟩
    · obtain ⟨n, hn⟩ := ih _ (hw ▸ hgoes.less) hnext hgoes.stack (hstart.next hlen) rfl
      exact ⟨n + 1, hn.cons hcall hstack hgoes⟩

/-! ## A process that does not start -/

section
variable {job : ConnProcess} {slot : Int}

/-- A process that does not start is deleted, and its slot cleared after that. -/
theorem changeRunning_fails (hslot : 0 ≤ slot) (hfree : s.slotAt slot = none) :
    ∃ b, s.changeRunning job slot false = { s with
      outside := b
      runningImage := s.runningImage.map (·.set slot.toNat (some job))
      stack := .deleteConnection job :: .notStarted slot :: s.stack } := by
  have hfree' : (s.touch slot).slotAt slot = none := hfree
  unfold ImageProc.changeRunning
  dsimp only
  rw [hfree', if_neg (by simp), if_pos rfl]
  unfold ImageProc.setSlot
  rw [if_pos hslot]
  exact ⟨_, rfl⟩

/-- Deleting the only job leaves its slot empty. -/
theorem deleteConnection_only {i : Nat} (hfind : s.findSlot (some job) = some i)
    (hque : s.imagesQue = []) (stat : AstrometryStat) :
    ∃ b, s.deleteConnection job stat = { s with
      outside := b
      counters := s.counters.inc stat
      finished := (job, stat) :: s.finished
      runningImage := s.runningImage.map (·.set i none)
      stack := .nextStarted i :: s.stack } := by
  unfold ImageProc.deleteConnection
  rw [hfind]
  dsimp only
  unfold ImageProc.finish ImageProc.setSlot ImageProc.startNext
  rw [hque, if_pos (Int.natCast_nonneg i), Int.toNat_natCast]
  exact ⟨_, rfl⟩

theorem nextStarted_empty (hfree : s.slotAt slot = none) (hpossible : s.reprocessingPossible = true) :
    ∃ b, s.nextStarted slot = { s with outside := b, stack := .queNextFromGlob :: s.stack } := by
  have hfree' : (s.touch slot).slotAt slot = none := hfree
  have hpossible' : (s.touch slot).reprocessingPossible = true := hpossible
  unfold ImageProc.nextStarted
  dsimp only
  rw [if_pos hfree', if_pos hpossible']
  exact ⟨_, rfl⟩

end

theorem tries_some {i : Nat} (h : s.tries = some i) :
    ∃ path tail, s.stack = .globLoop :: tail ∧ s.imageGlob[s.globPos]? = some path ∧
      0 ≤ s.getFreeSlot ∧ s.alreadyProcessing path = false ∧ s.globPos = i := by
  unfold ImageProc.tries at h
  split at h
  · next tail path hstack hpath =>
    split at h
    · next hcan => exact ⟨path, tail, hstack, hpath, hcan.1, hcan.2, Option.some.inj h⟩
    · cases h
  · cases h

theorem findSlot_eq {image : Option ConnProcess} {i : Nat} (hlt : (i : Int) < s.numProc)
    (hi : s.slotAt i = image) (honly : ∀ j : Nat, s.slotAt j = image → j = i) :
    s.findSlot image = some i := by
  cases hfind : s.findSlot image with
  | none => exact absurd hi (findSlot_none hfind i hlt)
  | some j => rw [honly j (findSlot_some hfind).2]

/-- A new process object is in no slot. -/
theorem Inv.newProcess_notMem_slots (h : Inv [] [] s) (path : String) :
    some (s.newProcess path) ∉ s.slots := by
  intro hmem
  have hcount := List.count_pos_iff.mpr hmem
  have hjobs := h.jobs (s.newProcess path)
  have hsub : 0 < s.submitted.count (s.newProcess path) := by omega
  exact newProcess_not_mem h path (List.count_pos_iff.mp hsub)

/-- A slot that is taken and cleared is as it was. -/
theorem Inv.restored (h : Inv [] [] s) {slot : Int} (hslot : 0 ≤ slot ∧ slot < s.numProc)
    (hfree : s.slotAt slot = none) (image : Option ConnProcess) :
    (s.runningImage.map (·.set slot.toNat image)).map (·.set slot.toNat none) = s.runningImage := by
  have hclear := congrArg ImageProc.runningImage (h.clear hslot hfree)
  rw [setSlot_eq (h.slot_lt hslot)] at hclear
  rw [Option.map_map]
  refine Eq.trans ?_ hclear
  cases s.runningImage with
  | none => rfl
  | some slots => simp

/-- The slot a process object was put in is found. -/
theorem Inv.findSlot_set (h : Inv [] [] s) {slot : Int} (hslot : 0 ≤ slot ∧ slot < s.numProc)
    (path : String) :
    ImageProc.findSlot { s with
      runningImage := s.runningImage.map (·.set slot.toNat (some (s.newProcess path))) }
      (some (s.newProcess path)) = some slot.toNat := by
  have hnew := h.newProcess_notMem_slots path
  have hlen := h.slot_lt hslot
  have hset : ImageProc.slots { s with
      runningImage := s.runningImage.map (·.set slot.toNat (some (s.newProcess path))) } =
        s.slots.set slot.toNat (some (s.newProcess path)) := slots_set
  refine findSlot_eq ?_ ?_ ?_
  · show (slot.toNat : Int) < s.numProc
    omega
  · rw [slotAt_coe, hset, List.getElem?_set_self (by omega)]
    rfl
  · intro j hj
    by_contra hne
    rw [slotAt_coe, hset, List.getElem?_set_ne fun heq => hne heq.symm] at hj
    exact hnew (List.mem_of_getElem? (Option.join_eq_some_iff.mp hj))

theorem tries_eq {path : String} {tail : List Frame} (hstack : s.stack = .globLoop :: tail)
    (hpath : s.imageGlob[s.globPos]? = some path) (hfree : 0 ≤ s.getFreeSlot)
    (halready : s.alreadyProcessing path = false) : s.tries = some s.globPos := by
  simp [ImageProc.tries, hstack, hpath, hfree, halready]

/-- A state in the middle of a call. -/
theorem stands_above {tail : List Frame} (frames : List Frame) (hstack : s.stack = frames ++ tail)
    (hframes : frames ≠ [] ∧ frames.head? ≠ some .checkNotProcessed) :
    tail.length < s.stack.length ∧ ¬ s.opens := by
  obtain ⟨hne, hhead⟩ := hframes
  have hpos := List.length_pos_iff.mpr hne
  unfold ImageProc.opens
  rw [hstack, List.head?_append_of_ne_nil _ hne, List.length_append]
  exact ⟨by omega, hhead⟩

/-- A file that does not start is found again, in a deeper call. -/
structure Again (s s' : ImageProc) (tail : List Frame) : Prop where
  inv : Inv [] [] s'
  tries : s'.tries = s.tries
  stack : ∃ slot, s'.stack = .globLoop :: .notStarted slot :: .globQueued :: tail
  que : s'.imagesQue = []
  possible : s'.reprocessingPossible = true

theorem undisturbed_cons (hstack : s.stack = frame :: rest) (h : ∀ slot, frame ≠ .notStarted slot)
    (a : Input) : Undisturbed s a := by
  unfold Undisturbed
  rw [hstack]
  cases frame with
  | notStarted slot => exact absurd rfl (h slot)
  | changeRunning image slot => trivial
  | deleteConnection conn => trivial
  | nextStarted slot => trivial
  | queNextFromGlob => trivial
  | globLoop => trivial
  | globQueued => trivial
  | checkNotProcessed => trivial
  | fillSlots i => trivial

theorem Inv.again (inputs : ℕ → Input) (h : Inv [] [] s) (hque : s.imagesQue = [])
    (hpossible : s.reprocessingPossible = true) {i : Nat} {tail : List Frame}
    (hstack : s.stack = .globLoop :: tail) (htry : s.tries = some i)
    (hfails : (inputs 1).starts = false) :
    Again s (after ImageProc.step s inputs 5) tail ∧
      ∀ k, k ≤ 5 → tail.length < (after ImageProc.step s inputs k).stack.length ∧
        ¬ (after ImageProc.step s inputs k).opens := by
  obtain ⟨path, tail', -, hpath, hslot, halready, hpos⟩ := tries_some htry
  obtain ⟨⟨-, hlt⟩, hfree⟩ := getFreeSlot_valid hslot
  have hrestored := h.restored ⟨hslot, hlt⟩ hfree (some (s.newProcess path))
  have hcoe : (s.getFreeSlot.toNat : Int) = s.getFreeSlot := Int.toNat_of_nonneg hslot
  let job := s.newProcess path
  let i := s.getFreeSlot.toNat
  -- the file is queued, and its process does not start
  obtain ⟨b₁, hb₁⟩ := globLoop_queued (s := { s with stack := tail }) hpath hslot halready
  have h₁ : after ImageProc.step s inputs 1 = { s with
      outside := b₁
      submitted := job :: s.submitted
      stack := .changeRunning job s.getFreeSlot :: .globQueued :: tail } :=
    (step_cons hstack (inputs 0)).trans hb₁
  obtain ⟨b₂, h₂⟩ : ∃ b, after ImageProc.step s inputs 2 = { s with
      outside := b
      submitted := job :: s.submitted
      runningImage := s.runningImage.map (·.set i (some job))
      stack := .deleteConnection job :: .notStarted s.getFreeSlot :: .globQueued :: tail } := by
    show ∃ b, ImageProc.step (after ImageProc.step s inputs 1) (inputs 1) = _
    rw [h₁, step_cons rfl]
    show ∃ b, ImageProc.changeRunning _ _ _ (inputs 1).starts = _
    rw [hfails]
    exact changeRunning_fails hslot hfree
  -- it is deleted, and no other job waits
  have hfind := h.findSlot_set ⟨hslot, hlt⟩ path
  obtain ⟨b₃, h₃⟩ : ∃ b, after ImageProc.step s inputs 3 = { s with
      outside := b
      submitted := job :: s.submitted
      counters := s.counters.inc (inputs 2).astrometryStat
      finished := (job, (inputs 2).astrometryStat) :: s.finished
      stack := .nextStarted i :: .notStarted s.getFreeSlot :: .globQueued :: tail } := by
    show ∃ b, ImageProc.step (after ImageProc.step s inputs 2) (inputs 2) = _
    rw [h₂, step_cons rfl]
    obtain ⟨b, hb⟩ := deleteConnection_only (s := { s with
      outside := b₂
      submitted := job :: s.submitted
      runningImage := s.runningImage.map (·.set i (some job))
      stack := .notStarted s.getFreeSlot :: .globQueued :: tail }) hfind hque (inputs 2).astrometryStat
    refine ⟨b, hb.trans ?_⟩
    dsimp only
    rw [hrestored]
  -- the slot is empty, and the list is gone on with
  obtain ⟨b₄, h₄⟩ : ∃ b, after ImageProc.step s inputs 4 = { s with
      outside := b
      submitted := job :: s.submitted
      counters := s.counters.inc (inputs 2).astrometryStat
      finished := (job, (inputs 2).astrometryStat) :: s.finished
      stack := .queNextFromGlob :: .notStarted s.getFreeSlot :: .globQueued :: tail } := by
    show ∃ b, ImageProc.step (after ImageProc.step s inputs 3) (inputs 3) = _
    rw [h₃, step_cons rfl]
    exact nextStarted_empty (hcoe.symm ▸ hfree) hpossible
  have hne : s.imageGlob ≠ [] :=
    List.ne_nil_of_length_pos (Nat.zero_lt_of_lt (List.getElem?_eq_some_iff.mp hpath).1)
  have h₅ : after ImageProc.step s inputs 5 = { s with
      outside := b₄
      submitted := job :: s.submitted
      counters := s.counters.inc (inputs 2).astrometryStat
      finished := (job, (inputs 2).astrometryStat) :: s.finished
      stack := .globLoop :: .notStarted s.getFreeSlot :: .globQueued :: tail } := by
    show ImageProc.step (after ImageProc.step s inputs 4) (inputs 4) = _
    rw [h₄, step_cons rfl]
    exact if_neg hne
  have hinv₁ := h.step (inputs 0) (undisturbed_cons hstack (by simp) _)
  have hinv₂ := hinv₁.step (inputs 1) (undisturbed_cons (congrArg ImageProc.stack h₁) (by simp) _)
  have hinv₃ := hinv₂.step (inputs 2) (undisturbed_cons (congrArg ImageProc.stack h₂) (by simp) _)
  have hinv₄ := hinv₃.step (inputs 3) (undisturbed_cons (congrArg ImageProc.stack h₃) (by simp) _)
  have hinv₅ := hinv₄.step (inputs 4) (undisturbed_cons (congrArg ImageProc.stack h₄) (by simp) _)
  refine ⟨⟨hinv₅, ?_, ⟨s.getFreeSlot, ?_⟩, ?_, ?_⟩, ?_⟩
  · rw [h₅, tries_eq hstack hpath hslot halready]
    exact tries_eq rfl hpath hslot halready
  · rw [h₅]
  · rw [h₅]
    exact hque
  · rw [h₅]
    exact hpossible
  · intro k hk
    have hcases : k = 0 ∨ k = 1 ∨ k = 2 ∨ k = 3 ∨ k = 4 ∨ k = 5 := by omega
    rcases hcases with rfl | rfl | rfl | rfl | rfl | rfl
    · exact stands_above [.globLoop] hstack (by simp)
    · exact stands_above [.changeRunning job _, .globQueued] (by rw [h₁]; rfl) (by simp)
    · exact stands_above [.deleteConnection job, .notStarted _, .globQueued] (by rw [h₂]; rfl) (by simp)
    · exact stands_above [.nextStarted i, .notStarted _, .globQueued] (by rw [h₃]; rfl) (by simp)
    · exact stands_above [.queNextFromGlob, .notStarted _, .globQueued] (by rw [h₄]; rfl) (by simp)
    · exact stands_above [.globLoop, .notStarted _, .globQueued] (by rw [h₅]; rfl) (by simp)

/-! ## Calls up to the first failure -/

/-- A call in which every process so far did start. -/
structure Live (s : ImageProc) (rest : List Frame) : Prop where
  inv : Inv [] [] s
  que : s.imagesQue = []
  possible : s.reprocessingPossible = true
  frames : s.stack = .checkNotProcessed :: rest ∨
    ∃ frames, Call frames ∧ s.stack = frames ++ rest ∧ Free s frames

/-- A directory is read into a new list. -/
theorem checkNotProcessed_step (hstack : s.stack = .checkNotProcessed :: rest) (a : Input) :
    (s.step a).imagesQue = s.imagesQue ∧
      (s.step a).reprocessingPossible = s.reprocessingPossible ∧
      ((s.step a).stack = rest ∨ (s.step a).stack = .fillSlots 0 :: rest) := by
  have hstep : s.step a = ImageProc.checkNotProcessed { s with stack := rest } a.glob :=
    step_cons hstack a
  rw [hstep]
  cases a.glob with
  | none => exact ⟨rfl, rfl, .inl rfl⟩
  | some paths => exact ⟨rfl, rfl, .inr rfl⟩

theorem Live.undisturbed (h : Live s rest) (a : Input) : Undisturbed s a := by
  rcases h.frames with hstack | ⟨frames, hcall, hstack, -⟩
  · exact undisturbed_cons hstack (by simp) a
  · cases hcall with
    | fill i => exact undisturbed_cons hstack (by simp) a
    | que h => exact undisturbed_cons hstack (by simp) a
    | loop h => exact undisturbed_cons hstack (by simp) a
    | start image slot h => exact undisturbed_cons hstack (by simp) a
    | queued h => exact undisturbed_cons hstack (by simp) a

theorem Live.length_lt (h : Live s rest) : rest.length < s.stack.length := by
  rcases h.frames with hstack | ⟨frames, hcall, hstack, -⟩
  · rw [hstack]
    exact Nat.lt_succ_self _
  · have hpos := hcall.length.1
    rw [hstack, List.length_append]
    omega

/-- A step of a call whose process starts: the call is over, or goes on; and a file was tried before
a process is about to start. -/
theorem Live.step {a : Input} (h : Live s rest)
    (hstarts : ∀ image slot tail, s.stack = .changeRunning image slot :: tail → a.starts = true) :
    (s.step a).stack = rest ∨ Live (s.step a) rest ∧
      ∀ image slot tail, (s.step a).stack = .changeRunning image slot :: tail →
        ∃ i, s.tries = some i := by
  have hinv := h.inv.step a (h.undisturbed a)
  rcases h.frames with hstack | ⟨frames, hcall, hstack, hfree⟩
  · obtain ⟨hque, hpossible, hback | hfill⟩ := checkNotProcessed_step hstack a
    · exact .inl hback
    · refine .inr ⟨⟨hinv, hque.trans h.que, hpossible.trans h.possible,
        .inr ⟨_, .fill 0, hfill, fun image slot tail heq => ?_⟩⟩, fun image slot tail heq => ?_⟩
      · cases heq
      · rw [hfill] at heq
        cases heq
  · obtain ⟨frames', hgoes⟩ := hcall.step hstack hstarts
    rcases hgoes.call with rfl | hcall'
    · exact .inl hgoes.stack
    · refine .inr ⟨⟨hinv, (hgoes.que hfree).trans h.que, hgoes.possible.trans h.possible,
        .inr ⟨frames', hcall', hgoes.stack, fun image slot tail heq =>
          (hgoes.starting image slot tail heq).1⟩⟩, fun image slot tail heq => ?_⟩
      obtain ⟨frame, more, rfl⟩ := List.exists_cons_of_length_pos hcall'.length.1
      rw [hgoes.stack] at heq
      exact (hgoes.starting image slot more (by rw [(List.cons.inj heq).1])).2

/-- A call that tries no file twice in a pass has no process that does not start. -/
theorem Live.all_start (h : Live s rest) (hentry : Still s.stack) {n : ℕ}
    (hreturns : Returns s rest inputs n) (honce : Once s inputs n) : AllStart s rest inputs := by
  have hlive : ∀ m, Within s rest inputs (m + 1) →
      Live (after ImageProc.step s inputs m) rest ∧ ∀ image slot tail,
        (after ImageProc.step s inputs m).stack = .changeRunning image slot :: tail →
          (inputs m).starts = true := by
    intro m
    induction m with
    | zero => exact fun _ => ⟨h, fun image slot tail hstack => absurd hstack (hentry image slot tail)⟩
    | succ m ih =>
      intro hwithin
      obtain ⟨hm, hstarts⟩ := ih fun k hk => hwithin k (Nat.lt_succ_of_lt hk)
      rcases hm.step hstarts with hback | ⟨hlive, htried⟩
      · have hlong := hwithin (m + 1) (Nat.lt_succ_self _)
        exact absurd (congrArg List.length hback) (Nat.ne_of_gt hlong)
      refine ⟨hlive, fun image slot tail hstack => ?_⟩
      obtain ⟨i, hi⟩ := htried image slot tail hstack
      obtain ⟨-, below, hbelow, -⟩ := tries_some hi
      by_contra hnot
      rw [Bool.not_eq_true] at hnot
      -- the file is tried again five steps later
      have hagain := hm.inv.again (fun k => inputs (m + k)) hm.que hm.possible hbelow hi hnot
      simp only [← after_add] at hagain
      obtain ⟨hsame, hdeep⟩ := hagain
      have hlen : rest.length ≤ below.length := by
        have hlt := hm.length_lt
        rw [hbelow] at hlt
        exact Nat.le_of_lt_succ hlt
      have hlate : m + 5 < n := by
        by_contra hearly
        have hlong : rest.length < (after ImageProc.step s inputs n).stack.length := by
          rcases Nat.lt_or_ge n m with hlt | hge
          · exact hwithin n (by omega)
          · have hk := (hdeep (n - m) (by omega)).1
            rw [Nat.add_sub_cancel' hge] at hk
            exact Nat.lt_of_le_of_lt hlen hk
        rw [hreturns.back] at hlong
        exact Nat.lt_irrefl _ hlong
      obtain ⟨l, hml, hl, hopens⟩ := honce m (m + 5) i (by omega) hlate hi (hsame.tries.trans hi)
      have hclosed := (hdeep (l - m) (by omega)).2
      rw [Nat.add_sub_cancel' (Nat.le_of_lt hml)] at hclosed
      exact hclosed hopens
  intro m hm
  exact (hlive m hm).2

/-! ## Passes -/

theorem Rest.pass {n : ℕ} (h : Rest s rest inputs [.queNextFromGlob] n) : Pass s rest inputs n where
  toReturns := h.toReturns
  once j k i hjk hk hj hk' := absurd (h.ascends j k i i hjk hk hj hk') (Nat.lt_irrefl i)
  resumes _ := by
    have hpassed : passed s.globPos [.queNextFromGlob] = s.globPos := Outer.nil.passed_cons _ (by simp)
    exact (h.ahead s.globPos (.inr (Nat.le_of_eq hpassed.symm))).1
  onward := h.onward
  depth := h.depth

/-- The directory is read, and the rest is a call over the new list. -/
theorem Rest.pass_next {n : ℕ} (hstack : s.stack = .checkNotProcessed :: rest)
    (h : Rest (s.step (inputs 0)) rest (fun i => inputs (i + 1)) frames n) :
    Pass s rest inputs (n + 1) where
  within := by
    refine Within.next ?_ h.within
    rw [hstack]
    exact Nat.lt_succ_self _
  back := by
    rw [after_next]
    exact h.back
  once j k i hjk hk hj hk' := by
    cases k with
    | zero => exact absurd hjk (Nat.not_lt_zero j)
    | succ k =>
      cases j with
      | zero =>
        have hnone : s.tries = some i := hj
        rw [tries_none hstack (by simp)] at hnone
        cases hnone
      | succ j =>
        rw [after_next] at hj hk'
        have hless := h.ascends j k i i (Nat.lt_of_succ_lt_succ hjk) (Nat.lt_of_succ_lt_succ hk) hj hk'
        exact absurd hless (Nat.lt_irrefl i)
  resumes hhead := by
    rw [hstack] at hhead
    cases hhead
  onward k i hk hi := by
    rw [after_next]
    cases k with
    | zero =>
      have hnone : s.tries = some i := hi
      rw [tries_none hstack (by simp)] at hnone
      cases hnone
    | succ k =>
      rw [after_next] at hi
      exact h.onward k i (Nat.lt_of_succ_lt_succ hk) hi
  depth k hk := by
    cases k with
    | zero =>
      show s.stack.length ≤ rest.length + 3
      rw [hstack, List.length_cons]
      omega
    | succ k =>
      rw [after_next]
      exact h.depth k (Nat.le_of_succ_le_succ hk)

theorem AllStart.pass (h : AllStart s rest inputs) (hframe : frame.Reprocesses)
    (hstack : s.stack = frame :: rest) : ∃ n, Pass s rest inputs n := by
  rcases hframe with rfl | rfl
  · obtain ⟨-, -, hback | hfill⟩ := checkNotProcessed_step hstack (inputs 0)
    · exact ⟨1, (Rest.done hback _).pass_next hstack⟩
    · have hlen : rest.length < s.stack.length := by
        rw [hstack]
        exact Nat.lt_succ_self _
      obtain ⟨n, hn⟩ := (Call.fill 0).returns hfill (h.next hlen)
      exact ⟨n + 1, hn.pass_next hstack⟩
  · obtain ⟨n, hn⟩ := (Call.que Outer.nil).returns hstack h
    exact ⟨n, hn.pass⟩

/-- **Reprocessing.** A call whose processes all start returns after a pass over the list. A call that
is made while no job waits tries no file twice only if they do. -/
theorem pass_iff_allStart (s : ImageProc) (frame : Frame) (rest : List Frame)
    (hframe : frame.Reprocesses) (hstack : s.stack = frame :: rest) (inputs : ℕ → Input) :
    (AllStart s rest inputs → ∃ n, Pass s rest inputs n) ∧
      (Reached s → s.imagesQue = [] → s.reprocessingPossible = true →
        (∃ n, Returns s rest inputs n ∧ Once s inputs n) → AllStart s rest inputs) := by
  refine ⟨fun h => h.pass hframe hstack, ?_⟩
  rintro ⟨before, hbefore, rfl⟩ hque hpossible ⟨n, hreturns, honce⟩
  have hinv := hbefore.invariant Inv.start fun _ a hi hok => hi.step a hok
  have hlive : Live (run ImageProc.step ImageProc.start before) rest := by
    refine ⟨hinv, hque, hpossible, ?_⟩
    rcases hframe with rfl | rfl
    · exact .inl hstack
    · exact .inr ⟨[.queNextFromGlob], .que Outer.nil, hstack, fun image slot tail heq => by cases heq⟩
  refine hlive.all_start ?_ hreturns honce
  rw [hstack]
  rcases hframe with rfl | rfl
  · exact still_cons _ (by simp)
  · exact still_cons _ (by simp)

/-- One slot; the reprocessing is asked for. -/
def reprocessing : ImageProc :=
  run ImageProc.step ImageProc.start [on (.reloadConfig (some ("*.fits", 1))), on .reprocess]

/-- The answers of a directory with these files, whose processes all start or all fail. -/
def directory (starts : Bool) (files : List String) : ℕ → Input :=
  fun _ => ⟨.idle, starts, .BAD, some files⟩

theorem pass_two_files : ∃ n, Pass reprocessing [] (directory true ["a.fits", "b.fits"]) n :=
  (pass_iff_allStart reprocessing .checkNotProcessed [] (.inl rfl) (by decide)
    (directory true ["a.fits", "b.fits"])).1 fun _ _ _ _ _ _ => rfl

/-- One file whose process does not start is tried again before the list goes on. -/
theorem no_pass_one_file : ¬ ∃ n, Pass reprocessing [] (directory false ["a.fits"]) n := by
  rintro ⟨n, h⟩
  have hdeep : ∀ k ≤ 8,
      (after ImageProc.step reprocessing (directory false ["a.fits"]) k).stack ≠ [] := by decide
  have hn : 8 < n := Nat.lt_of_not_le fun hle => hdeep n hle h.back
  obtain ⟨l, h3, h8, hopens⟩ := h.once 3 8 0 (by omega) hn (by decide) (by decide)
  have hclosed : ∀ k ≤ 8, 3 < k → (after ImageProc.step reprocessing
      (directory false ["a.fits"]) k).stack.head? ≠ some .checkNotProcessed := by decide
  exact hclosed l (Nat.le_of_lt h8) h3 hopens

end Rts2.Plan.Imgproc

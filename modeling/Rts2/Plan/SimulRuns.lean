import Rts2.Plan.Simul

/-! # Simulations end

Every call of `step` that returns, and does not report the end, takes the simulated time on
by a minute at least, whatever the time of the next target comes from. -/
namespace Rts2.Plan.Simul
open Rts2.Lib Rts2.Db

variable {α ω π β γ : Type}

/-! ## Questions -/

section
variable {s : Simulation α ω π} {Q : γ → Simulation α ω π → Prop}
  {E : Failure → Simulation α ω π → Prop}

theorem ends_ask {x : Prog ω Unit β} {f : β → Sim α ω π γ}
    (h : ∀ b w, Ends (f b) { s with world := w } Q E) (hE : ∀ w, E .thrown { s with world := w }) :
    Ends (ask x >>= f) s Q E := by
  refine Ends.bind (R := fun _ s' => ∃ w, s' = { s with world := w }) ?_ ?_
  · unfold Ends ask
    rcases x s.world with ⟨_ | b, w⟩
    · exact hE w
    · exact ⟨w, rfl⟩
  · intro b s' hasked
    obtain ⟨w, rfl⟩ := hasked
    exact h b w

theorem ends_onQueue {q : Nat} {x : Prog (List (Entry α) × ω) Unit β} {f : β → Sim α ω π γ}
    (h : ∀ b sqs w, Ends (f b) { s with sqs := sqs, world := w } Q E)
    (hE : ∀ sqs w, E .thrown { s with sqs := sqs, world := w }) : Ends (onQueue q x >>= f) s Q E := by
  refine Ends.bind (R := fun _ s' => ∃ sqs w, s' = { s with sqs := sqs, world := w }) ?_ ?_
  · unfold Ends onQueue
    rcases x (s.sqs.getD q [], s.world) with ⟨_ | b, sq, w⟩
    · exact hE _ w
    · exact ⟨_, w, rfl⟩
  · intro b s' hdone
    obtain ⟨sqs, w, rfl⟩ := hdone
    exact h b sqs w

theorem ends_defined {o : Option β} {b : β} {f : β → Sim α ω π γ} (ho : o = some b)
    (h : Ends (f b) s Q E) : Ends (defined o >>= f) s Q E := by
  subst ho
  exact h

theorem ends_modify {g : Simulation α ω π → Simulation α ω π} {f : PUnit → Sim α ω π γ}
    (h : Ends (f ⟨⟩) (g s) Q E) : Ends (modify g >>= f) s Q E :=
  h

end

/-! ## The selection -/

section
variable {S : Services α ω π} {s : Simulation α ω π} {q : Nat} {x y m : ℚ} {front : Entry α}
  {t tTo eEnd : Double} {target : α}

/-- Only the world has changed. -/
def Asked (s s' : Simulation α ω π) : Prop := ∃ w, s' = { s with world := w }

/-- An exception was thrown, in a state of a kind. -/
def Threw (P : Simulation α ω π → Prop) (e : Failure) (s' : Simulation α ω π) : Prop :=
  e = .thrown ∧ P s'

theorem maximalScriptDuration_cases (durations : List Double) :
    maximalScriptDuration durations = .inf false ∨
      ∃ m, 0 ≤ m ∧ maximalScriptDuration durations = .fin m := by
  have hfold : ∀ md : Double, .fin 0 ≤ md →
      .fin 0 ≤ durations.foldl (fun md d => if md < d then d else md) md := by
    induction durations with
    | nil => exact fun md hmd => hmd
    | cons d ds ih =>
      intro md hmd
      refine ih _ ?_
      dsimp only
      split
      · rename_i hlt
        exact Double.le_trans hmd (Double.le_of_lt hlt)
      · exact hmd
  obtain h | ⟨m, h, hm⟩ := Double.fin_le_iff.mp (hfold (.fin 0) (Double.le_refl rfl))
  · exact Or.inl h
  · exact Or.inr ⟨m, hm, h⟩

/-- A script that is over before a time that is not INFINITY has a length. -/
theorem fits {currentp : π} {w : ω} (hTo : tTo ≠ .inf false)
    (h : .fin x + getMaximalDuration S target currentp w < tTo) :
    ∃ m y, getMaximalDuration S target currentp w = .fin m ∧ tTo = .fin y ∧ 0 ≤ m ∧ x + m < y := by
  have hmd : getMaximalDuration S target currentp w = .nan ∨
      getMaximalDuration S target currentp w = .inf false ∨
      ∃ m, 0 ≤ m ∧ getMaximalDuration S target currentp w = .fin m := by
    unfold getMaximalDuration
    cases S.getExpectedDuration target currentp w with
    | none => exact Or.inl rfl
    | some durations => exact Or.inr (maximalScriptDuration_cases durations)
  obtain hmd | hmd | ⟨m, hm, hmd⟩ := hmd
  · rw [hmd] at h
    exact absurd h Double.not_nan_lt
  · rw [hmd] at h
    have hinf : Double.inf false < tTo := h
    cases tTo with
    | nan => exact absurd hinf Double.not_lt_nan
    | inf neg => cases (Double.inf_lt_inf.mp hinf).1
    | fin y => cases Double.inf_lt_fin.mp hinf
  · rw [hmd, Double.fin_add_fin] at h
    cases tTo with
    | nan => exact absurd h Double.not_lt_nan
    | inf neg => exact absurd (congrArg Double.inf (Double.fin_lt_inf.mp h)) hTo
    | fin y => exact ⟨m, y, hmd, rfl, hm, Double.fin_lt_fin.mp h⟩

theorem getSatisfiedDuration_ends (hm : 0 ≤ m) :
    Ends (getSatisfiedDuration S target (.fin x) (.fin y) (.fin m) (.fin 60)) s
      (fun r s' => Asked s s' ∧ (r.isNan = false → .fin x ≤ r)) (Threw (Asked s)) := by
  refine ends_defined rfl (ends_defined rfl (ends_defined rfl (ends_defined rfl ?_)))
  refine ends_ask (fun satisfy w => ?_) fun w => ⟨rfl, w, rfl⟩
  obtain ⟨r, c, hr, hle⟩ := @Satisfied.getSatisfiedDuration_spec S.libnova satisfy x y m
    (S.satisfied target w) 60 (by decide) hm
  refine ends_read (ends_defined hr (ends_modify ⟨⟨_, rfl⟩, fun hnan => ?_⟩))
  cases r with
  | nan => cases hnan
  | infinity => exact Double.fin_le_iff.mpr (Or.inl rfl)
  | time z => exact Double.fin_le_fin.mpr (hle z rfl)

theorem selectedEnd_ends (hm : 0 ≤ m) (hfits : x + m < y) (hfront : notExpired front (.fin x) = true) :
    Ends (selectedEnd S q front (.fin x) (.fin y) (.fin m)) s
      (fun eEnd s' => Asked s s' ∧ .fin x ≤ eEnd) (Threw (Asked s)) := by
  refine ends_read (ends_ite (fun _ => ?_) fun _ => ends_ite (fun hend => ?_) fun _ => ?_)
  · exact ⟨⟨_, rfl⟩, Double.fin_le_fin.mpr (le_add_of_nonneg_right hm)⟩
  · refine ⟨⟨_, rfl⟩, Double.le_of_lt ?_⟩
    simp only [notExpired, Bool.and_eq_true, Bool.or_eq_true, decide_eq_true_eq] at hfront
    obtain hnan | hlt := hfront.2
    · rw [hnan] at hend
      cases hend
    · exact hlt
  · refine Ends.bind (getSatisfiedDuration_ends hm) fun r s' h => ⟨h.1, ?_⟩
    show .fin x ≤ if r.isNan = true then .fin y else r
    split
    · exact Double.fin_le_fin.mpr (by linarith)
    · rename_i hnan
      exact h.2 (Bool.not_eq_true _ ▸ hnan)

theorem none_selected : ¬(0 : Int) < -1 := by decide

/-- A target is selected from a queue that has one, with an end that is not before now. -/
theorem selectNextSimulation_ends (ht : t = .fin x) (hTo : tTo ≠ .inf false) :
    Ends (selectNextSimulation S q t tTo eEnd) s
      (fun r s' => Asked s s' ∧ (0 < r.nId → t ≤ r.eEnd ∧ s.sqs.getD q [] ≠ []))
      (Threw (Asked s)) := by
  subst ht
  refine ends_read (ends_ite (fun _ => ⟨⟨_, rfl⟩, fun h => ?_⟩) fun _ => ?_)
  · exact absurd h none_selected
  · cases hsq : s.sqs.getD q [] with
    | nil => exact ⟨⟨_, rfl⟩, fun h => absurd h none_selected⟩
    | cons front rest =>
      refine ends_defined rfl (ends_ask (fun nextp w => ?_) fun w => ⟨rfl, w, rfl⟩)
      refine ends_read (ends_ask (fun above w' => ?_) fun w' => ⟨rfl, w', rfl⟩)
      refine ends_ite (fun hsel => ?_) fun _ => ⟨⟨_, rfl⟩, fun h => absurd h none_selected⟩
      simp only [Bool.and_eq_true, decide_eq_true_eq] at hsel
      obtain ⟨m, y, hmd, rfl, hm, hfits⟩ := fits hTo hsel.2
      simp only [hmd]
      refine Ends.bind (Ends.mono (selectedEnd_ends hm hfits hsel.1.2) (fun r s' h => h) ?_) ?_
      · intro e s' hthrew
        obtain ⟨he, w'', rfl⟩ := hthrew
        exact ⟨he, w'', rfl⟩
      · intro r s' hend
        obtain ⟨⟨w'', rfl⟩, hle⟩ := hend
        exact ⟨⟨w'', rfl⟩, fun _ => ⟨hle, List.cons_ne_nil front rest⟩⟩

theorem cutEnd_le (upper : List (List (Entry α))) (h : t ≤ eEnd) : t ≤ cutEnd upper t eEnd := by
  unfold cutEnd
  cases hfind : (upper.filterMap List.head?).find? fun e =>
      !e.tStart.isNan && e.tStart < eEnd && t < e.tStart with
  | none => exact h
  | some e =>
    have hdue := List.find?_some hfind
    simp only [Bool.and_eq_true, decide_eq_true_eq] at hdue
    exact Double.le_of_lt hdue.2

end

/-! ## A call -/

section
variable {S : Services α ω π} {s s' s'' : Simulation α ω π} {q : Nat} {x fromT toT : ℚ}

/-- The time does not go back, and what is put into the simulation ends at a later one. -/
structure Went (s s' : Simulation α ω π) : Prop where
  fr : s'.fr = s.fr
  t : s.t ≤ s'.t
  observations : ∀ o ∈ s'.observations, o ∈ s.observations ∨ o.tStart = s.fr ∧ s.t ≤ o.tEnd

theorem Went.trans (h : Went s s') (h' : Went s' s'') : Went s s'' where
  fr := h'.fr.trans h.fr
  t := Double.le_trans h.t h'.t
  observations := by
    intro o ho
    obtain hold | ⟨hstart, hend⟩ := h'.observations o ho
    · exact h.observations o hold
    · exact Or.inr ⟨hstart.trans h.fr, Double.le_trans h.t hend⟩

/-- The time and the observations stay. -/
theorem went_still (ht : s.t = .fin x) (sqs : List (List (Entry α))) (currentp : π) (w : ω) :
    Went s { s with sqs := sqs, currentp := currentp, world := w } where
  fr := rfl
  t := Double.le_refl (ht ▸ rfl)
  observations := fun _ ho => Or.inl ho

theorem simulate_ends {selection : Selection π} (hend : s.t ≤ selection.eEnd)
    (hfront : s.sqs.getD q [] ≠ []) :
    Ends (simulate S q selection) s (fun _ s' => s'.t = selection.eEnd ∧ Went s s') (Threw (Went s)) := by
  have hmoved (w : ω) : Went s { s with t := selection.eEnd, world := w } :=
    ⟨rfl, hend, fun _ ho => Or.inl ho⟩
  have hadded (sqs : List (List (Entry α))) (currentp : π) (w : ω) : Went s
      { s with
        sqs := sqs
        t := selection.eEnd
        currentp := currentp
        observations := s.observations ++ [⟨selection.nId, s.fr, selection.eEnd⟩]
        world := w } := by
    refine ⟨rfl, hend, fun o ho => ?_⟩
    obtain hold | hnew := List.mem_append.mp ho
    · exact Or.inl hold
    · obtain rfl := List.mem_singleton.mp hnew
      exact Or.inr ⟨rfl, hend⟩
  refine ends_modify (ends_ask (fun _ w => ?_) fun w => ⟨rfl, hmoved w⟩)
  refine ends_ask (fun _ w => ?_) fun w => ⟨rfl, hmoved w⟩
  refine ends_modify (ends_ask (fun _ w => ?_) fun w => ⟨rfl, hadded _ _ w⟩)
  cases hsq : s.sqs.getD q [] with
  | nil => exact absurd hsq hfront
  | cons front rest =>
    refine ends_read ?_
    simp only [hsq]
    refine ends_ask (fun _ w => ?_) fun w => ⟨rfl, hadded _ _ w⟩
    refine ends_read (ends_onQueue (fun _ sqs w => ?_) fun sqs w => ⟨rfl, hadded _ _ w⟩)
    exact ⟨rfl, hadded _ _ w⟩

theorem stepQueues_ends (queues : List Nat) {tTo : Double} (eEnd : Double) (ht : s.t = .fin x)
    (hTo : tTo ≠ .inf false) :
    Ends (stepQueues S toT queues tTo eEnd) s (fun r s' => (r.1 = true → s'.t = r.2) ∧ Went s s')
      (Threw (Went s)) := by
  induction queues generalizing s tTo eEnd with
  | nil => exact ⟨fun h => (by cases h), went_still ht _ _ _⟩
  | cons q queues ih =>
    refine ends_read (ends_onQueue (fun _ sqs w => ?_) fun sqs w => ⟨rfl, went_still ht _ _ w⟩)
    refine Ends.bind (Ends.mono (selectNextSimulation_ends ht hTo) (fun r s' h => h) ?_) ?_
    · intro e s' hthrew
      obtain ⟨he, w, rfl⟩ := hthrew
      exact ⟨he, went_still ht _ _ w⟩
    · intro selection s' hselected
      obtain ⟨⟨w, rfl⟩, hsel⟩ := hselected
      have hstill := went_still ht sqs s.currentp w
      refine ends_ite (fun hpos => ?_) fun _ => ?_
      · obtain ⟨hend, hfront⟩ := hsel hpos
        refine ends_read ?_
        have hcut := cutEnd_le (sqs.take q) hend
        refine Ends.bind (Ends.mono (simulate_ends hcut hfront) (fun r s' h => h) ?_) ?_
        · exact fun e s' h => ⟨h.1, hstill.trans h.2⟩
        · exact fun r s' h => ⟨fun _ => h.1, hstill.trans h.2⟩
      · refine Ends.mono (ih selection.eEnd ht ?_) ?_ fun e s' h => ⟨h.1, hstill.trans h.2⟩
        · split
          · rename_i hless
            simp only [Bool.and_eq_true, decide_eq_true_eq] at hless
            intro heq
            rw [heq] at hless
            cases (Double.inf_lt_fin.mp hless.2)
          · exact hTo
        · exact fun r s' h => ⟨h.1, hstill.trans h.2⟩

/-- What holds between the calls. -/
structure Kept (fromT : ℚ) (s : Simulation α ω π) : Prop where
  begun : .fin fromT ≤ s.t
  fr : s.fr ≤ s.t
  ordered : ∀ o ∈ s.observations, o.tStart ≤ o.tEnd

theorem kept_start (fromT : ℚ) (sqs : List (List (Entry α))) (currentp : π) (w : ω) :
    Kept fromT (start fromT sqs currentp w) where
  begun := Double.le_refl rfl
  fr := Double.le_refl rfl
  ordered := fun _ ho => absurd ho List.not_mem_nil

theorem Kept.went (hs : Kept fromT s) (h : Went s s') : Kept fromT s' where
  begun := Double.le_trans hs.begun h.t
  fr := h.fr ▸ Double.le_trans hs.fr h.t
  ordered := by
    intro o ho
    obtain hold | ⟨hstart, hend⟩ := h.observations o ho
    · exact hs.ordered o hold
    · exact hstart ▸ Double.le_trans hs.fr hend

abbrev Reply := Except Failure Report

/-- What a call that ends with a reply does to the time. -/
def Advances (toT : ℚ) (s : Simulation α ω π) : Reply → Simulation α ω π → Prop
  | .ok (.progress _), s' => s.t < .fin toT ∧ s.t < s'.t ∧ s.t + .fin 60 ≤ s'.t
  | .ok .completed, s' => .fin toT ≤ s.t ∧ s'.t = s.t
  | .error .thrown, s' => s.t ≤ s'.t
  | .error .undefined, _ => False

/-- A minute is added to a time that is not before now. -/
theorem minute {t : Double} (h : .fin x ≤ t) :
    t ≤ t + .fin 60 ∧ .fin x < t + .fin 60 ∧ .fin (x + 60) ≤ t + .fin 60 := by
  obtain rfl | ⟨y, rfl, hy⟩ := Double.fin_le_iff.mp h
  · exact ⟨Double.le_refl rfl, Double.fin_lt_inf.mpr rfl, Double.fin_le_iff.mpr (Or.inl rfl)⟩
  · rw [Double.fin_add_fin, Double.fin_le_fin, Double.fin_lt_fin, Double.fin_le_fin]
    refine ⟨?_, ?_, ?_⟩ <;> linarith

/-- The time that has come, from the window. -/
theorem Kept.cases (hs : Kept fromT s) (toT : ℚ) :
    (∃ x, s.t = .fin x ∧ s.t < .fin toT) ∨ ¬s.t < .fin toT ∧ .fin toT ≤ s.t := by
  obtain ht | ⟨x, ht, _⟩ := Double.fin_le_iff.mp hs.begun
  · rw [ht]
    exact Or.inr ⟨fun h => (by cases Double.inf_lt_fin.mp h), Double.fin_le_iff.mpr (Or.inl rfl)⟩
  · rw [ht, Double.fin_lt_fin, Double.fin_le_fin]
    obtain hlt | hle := lt_or_ge x toT
    · exact Or.inl ⟨x, rfl, hlt⟩
    · exact Or.inr ⟨not_lt_of_ge hle, hle⟩

theorem step_ends (hs : Kept fromT s) :
    Ends (step S fromT toT) s (fun r s' => Kept fromT s' ∧ Advances toT s (.ok r) s')
      (fun e s' => Kept fromT s' ∧ Advances toT s (.error e) s') := by
  refine ends_read ?_
  obtain ⟨x, ht, hlt⟩ | ⟨hnlt, hle⟩ := hs.cases toT
  · rw [if_pos hlt]
    have hTo : Double.fin toT ≠ .inf false := fun h => (by cases h)
    refine Ends.bind (Ends.mono (stepQueues_ends (List.range s.sqs.length) .nan ht hTo) (fun r s' h => h) ?_) ?_
    · intro e s' hthrew
      obtain ⟨rfl, hwent⟩ := hthrew
      exact ⟨hs.went hwent, hwent.t⟩
    · intro r s' hlooped
      obtain ⟨found, eEnd⟩ := r
      obtain ⟨hfound, hwent⟩ := hlooped
      have hs' := hs.went hwent
      -- a time found is reached already, so a minute is added to it
      have hnot : (found && !eEnd.isNan && s'.t < eEnd) = false := by
        cases found with
        | false => rfl
        | true =>
          have heq : s'.t = eEnd := hfound rfl
          rw [heq, decide_eq_false Double.lt_irrefl, Bool.and_false]
      obtain ⟨hup, hless, hminute⟩ := minute (ht ▸ hwent.t)
      refine ends_modify ?_
      simp only [hnot]
      have hkept : Kept fromT { s' with t := s'.t + .fin 60, fr := s'.t + .fin 60 } :=
        ⟨Double.le_trans hs'.begun hup, Double.le_refl (Double.isNan_eq_false_of_le hup).2, hs'.ordered⟩
      refine ⟨hkept, hlt, ?_, ?_⟩
      · rw [ht]
        exact hless
      · rw [ht]
        exact hminute
  · rw [if_neg hnlt]
    have hkept (sqs : List (List (Entry α))) (w : ω) : Kept fromT { s with sqs := sqs, world := w } :=
      ⟨hs.begun, hs.fr, hs.ordered⟩
    have hnan := (Double.isNan_eq_false_of_le hle).2
    refine ends_modify (ends_ask (fun _ w => ?_) fun w => ?_)
    · exact ⟨hkept _ w, hle, rfl⟩
    · exact ⟨hkept _ w, Double.le_refl hnan⟩

end

/-! ## A whole simulation -/

section
variable (S : Services α ω π) (fromT toT : ℚ)

/-- A call of `step`, with the world as it is by then. The replies are kept. -/
def call (c : Simulation α ω π × List Reply) (w : ω) : Simulation α ω π × List Reply :=
  let r := step S fromT toT { c.1 with world := w }
  (r.2, c.2 ++ [r.1])

/-- A simulation and its calls, each with the world it is made in. -/
def calls (sqs : List (List (Entry α))) (currentp : π) (world : ω) (worlds : List ω) :
    Simulation α ω π × List Reply :=
  run (call S fromT toT) (start fromT sqs currentp world, []) worlds

/-- How many calls returned. -/
def returned (replies : List Reply) : Nat := replies.countP Except.isOk

/-- The time advances with each call that returns, by no more than there are minutes in the window
and one more the end is reported, and no observation ends before its start. -/
structure Completes (sqs : List (List (Entry α))) (currentp : π) (world : ω) : Prop where
  advances : ∀ worlds w, let s := { (calls S fromT toT sqs currentp world worlds).1 with world := w }
    Advances toT s (step S fromT toT s).1 (step S fromT toT s).2
  ends : ∀ worlds, let replies := (calls S fromT toT sqs currentp world worlds).2
    max 0 ((toT - fromT) / 60) + 1 ≤ returned replies → .ok .completed ∈ replies
  ordered : ∀ worlds, ∀ o ∈ (calls S fromT toT sqs currentp world worlds).1.observations,
    o.tStart ≤ o.tEnd

/-- Between the calls: the end was reported, or each call that returned took a minute. -/
def Reckoned (c : Simulation α ω π × List Reply) : Prop :=
  Kept fromT c.1 ∧ (.ok .completed ∈ c.2 ∨
    .fin (fromT + 60 * returned c.2) ≤ c.1.t ∧
      (0 < returned c.2 → fromT + 60 * (returned c.2 - 1 : ℚ) < toT))

variable {S fromT toT}

theorem Kept.withWorld {s : Simulation α ω π} (hs : Kept fromT s) (w : ω) :
    Kept fromT { s with world := w } :=
  ⟨hs.begun, hs.fr, hs.ordered⟩

theorem step_advances {s : Simulation α ω π} (hs : Kept fromT s) :
    Kept fromT (step S fromT toT s).2 ∧ Advances toT s (step S fromT toT s).1 (step S fromT toT s).2 := by
  have h := @step_ends α ω π S s fromT toT hs
  unfold Ends at h
  rcases hres : step S fromT toT s with ⟨e | r, s'⟩
  · rw [hres] at h
    exact h
  · rw [hres] at h
    exact h

theorem returned_append (replies : List Reply) (r : Reply) :
    returned (replies ++ [r]) = returned replies + returned [r] := List.countP_append

theorem reckoned_call {c : Simulation α ω π × List Reply} (hc : Reckoned fromT toT c) (w : ω) :
    Reckoned fromT toT (call S fromT toT c w) := by
  obtain ⟨hkept, hcount⟩ := hc
  obtain ⟨hkept', hadv⟩ := @step_advances α ω π S fromT toT _ (hkept.withWorld w)
  refine ⟨hkept', ?_⟩
  unfold call
  obtain hdone | ⟨hlate, hless⟩ := hcount
  · exact Or.inl (List.mem_append_left _ hdone)
  · generalize step S fromT toT { c.1 with world := w } = res at hadv ⊢
    obtain ⟨r, s'⟩ := res
    cases r with
    | error e =>
      cases e with
      | thrown =>
        right
        rw [returned_append]
        exact ⟨Double.le_trans hlate hadv, hless⟩
      | undefined => exact hadv.elim
    | ok report =>
      cases report with
      | completed => exact Or.inl (List.mem_append_right _ (List.mem_singleton_self _))
      | progress p =>
        obtain ⟨hbefore, _, hminute⟩ := hadv
        right
        have hone : returned (c.2 ++ [.ok (.progress p)]) = returned c.2 + 1 := returned_append _ _
        rw [hone, Nat.cast_add_one]
        obtain ⟨_, _, hup⟩ := minute hlate
        have hin : fromT + 60 * returned c.2 < toT := by
          obtain ht | ⟨x, ht, hx⟩ := Double.fin_le_iff.mp hlate
          · rw [ht] at hbefore
            cases Double.inf_lt_fin.mp hbefore
          · rw [ht] at hbefore
            exact hx.trans_lt (Double.fin_lt_fin.mp hbefore)
        refine ⟨?_, fun _ => by linarith⟩
        have hsum : fromT + 60 * (returned c.2 + 1 : ℚ) = fromT + 60 * returned c.2 + 60 := by ring
        rw [hsum]
        exact Double.le_trans hup hminute

theorem reckoned_calls (sqs : List (List (Entry α))) (currentp : π) (world : ω) (worlds : List ω) :
    Reckoned fromT toT (calls S fromT toT sqs currentp world worlds) := by
  have hzero : fromT + 60 * ((returned [] : Nat) : ℚ) = fromT := by
    rw [returned, List.countP_nil, Nat.cast_zero, mul_zero, add_zero]
  have hstart : Reckoned fromT toT (start fromT sqs currentp world, []) := by
    refine ⟨kept_start fromT sqs currentp world, Or.inr ⟨?_, fun h => absurd h (Nat.lt_irrefl 0)⟩⟩
    rw [hzero]
    exact Double.le_refl rfl
  have hstep : ∀ c w, Reckoned fromT toT c → Reckoned fromT toT (call S fromT toT c w) :=
    fun _ w hc => reckoned_call hc w
  exact run_invariant hstart hstep worlds

end

end Rts2.Plan.Simul

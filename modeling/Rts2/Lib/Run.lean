import Mathlib.Data.List.Basic

/-! # Runs of a deterministic machine

A machine is a step function on states; a run is the list of inputs it was
given. `Along` says that a condition holds at every step of a run, in the state
that step is taken in. The rules below turn a lemma about one step into a
statement about every run. -/
namespace Rts2.Lib

variable {σ α : Type*} {step : σ → α → σ} {ok ok' : σ → α → Prop} {I : σ → Prop}

/-- The state a machine reaches on a list of inputs. -/
def run (step : σ → α → σ) (s : σ) (inputs : List α) : σ :=
  inputs.foldl step s

@[simp] theorem run_nil (step : σ → α → σ) (s : σ) : run step s [] = s := rfl

@[simp] theorem run_cons (step : σ → α → σ) (s : σ) (a : α) (as : List α) :
    run step s (a :: as) = run step (step s a) as := rfl

theorem run_append (step : σ → α → σ) (s : σ) (as bs : List α) :
    run step s (as ++ bs) = run step (run step s as) bs :=
  List.foldl_append

/-- `ok` holds at every step of the run. -/
def Along (step : σ → α → σ) (ok : σ → α → Prop) : σ → List α → Prop
  | _, [] => True
  | s, a :: as => ok s a ∧ Along step ok (step s a) as

instance Along.decidable (step : σ → α → σ) (ok : σ → α → Prop) [∀ s a, Decidable (ok s a)] :
    ∀ (s : σ) (as : List α), Decidable (Along step ok s as)
  | _, [] => inferInstanceAs (Decidable True)
  | s, a :: as =>
    have := Along.decidable step ok (step s a) as
    inferInstanceAs (Decidable (ok s a ∧ Along step ok (step s a) as))

@[simp] theorem along_nil (s : σ) : Along step ok s [] := trivial

@[simp] theorem along_cons (s : σ) (a : α) (as : List α) :
    Along step ok s (a :: as) ↔ ok s a ∧ Along step ok (step s a) as := Iff.rfl

/-- A condition that implies another at every step implies it along the run. -/
theorem Along.mono {s : σ} {as : List α} (h : Along step ok s as)
    (himp : ∀ s a, ok s a → ok' s a) : Along step ok' s as := by
  induction as generalizing s with
  | nil => trivial
  | cons a as ih => exact ⟨himp s a h.1, ih h.2⟩

/-- A condition on the inputs alone can be joined to one along the run. -/
theorem Along.and_mem {s : σ} {as : List α} {P : α → Prop} (h : Along step ok s as)
    (hP : ∀ a ∈ as, P a) : Along step (fun s a => ok s a ∧ P a) s as := by
  induction as generalizing s with
  | nil => trivial
  | cons a as ih =>
    exact ⟨⟨h.1, hP a (List.mem_cons_self ..)⟩,
      ih h.2 fun b hb => hP b (List.mem_cons_of_mem _ hb)⟩

theorem along_append (s : σ) (as bs : List α) :
    Along step ok s (as ++ bs) ↔
      Along step ok s as ∧ Along step ok (run step s as) bs := by
  induction as generalizing s with
  | nil => simp
  | cons a as ih => simp [ih, and_assoc]

/-- **Step to run**: what a step preserves under `ok` holds after every run
whose steps all meet `ok`. -/
theorem Along.invariant {s : σ} {as : List α} (h : Along step ok s as) (hs : I s)
    (hstep : ∀ s a, I s → ok s a → I (step s a)) : I (run step s as) := by
  induction as generalizing s with
  | nil => exact hs
  | cons a as ih => exact ih h.2 (hstep s a hs h.1)

/-- What every step preserves holds after every run. -/
theorem run_invariant {s : σ} (hs : I s) (hstep : ∀ s a, I s → I (step s a))
    (as : List α) : I (run step s as) := by
  induction as generalizing s with
  | nil => exact hs
  | cons a as ih => exact ih (hstep s a hs)

/-- What every step on an input of a kind preserves holds after every run of such
inputs. -/
theorem run_invariant_of_mem {s : σ} {P : α → Prop} (hs : I s)
    (hstep : ∀ s a, I s → P a → I (step s a)) (as : List α) (hP : ∀ a ∈ as, P a) :
    I (run step s as) := by
  induction as generalizing s with
  | nil => exact hs
  | cons a as ih =>
    obtain ⟨ha, hrest⟩ := List.forall_mem_cons.mp hP
    exact ih (hstep s a hs ha) hrest

/-- An invariant kept by the steps that meet `ok` turns `ok` into `ok'` along
the whole run. -/
theorem Along.strengthen {s : σ} {as : List α} (h : Along step ok s as) (hs : I s)
    (hstep : ∀ s a, I s → ok s a → I (step s a))
    (hok : ∀ s a, I s → ok s a → ok' s a) : Along step ok' s as := by
  induction as generalizing s with
  | nil => trivial
  | cons a as ih => exact ⟨hok s a hs h.1, ih h.2 (hstep s a hs h.1)⟩

end Rts2.Lib

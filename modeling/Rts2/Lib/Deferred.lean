import Mathlib.Data.List.Basic
import Mathlib.Logic.Function.Basic

/-! # Deferred operations

A store holds a value for every key. An operation on a key is carried out at
once or put off; the ones put off wait in a list. The settled store is what the
store becomes when all that waits is carried out in order. Putting an operation
off, carrying it out at once when nothing waits for its key, and releasing the
keys that are not blocked all leave the settled store as if every operation had
been carried out on arrival. -/
namespace Rts2.Lib

/-- An operation on the value of one key. -/
structure Operation (K V : Type*) where
  key : K
  apply : V → V

variable {K V : Type*} [DecidableEq K]

/-- The store after an operation. -/
def carryOut (store : K → V) (o : Operation K V) : K → V :=
  Function.update store o.key (o.apply (store o.key))

/-- The store after the waiting operations. -/
def settled (store : K → V) (waiting : List (Operation K V)) : K → V :=
  waiting.foldl carryOut store

/-- Carries out the operations whose key is not blocked, in their order, and
keeps the others, in theirs. -/
def release (blocked : K → Prop) [DecidablePred blocked] :
    (K → V) → List (Operation K V) → (K → V) × List (Operation K V)
  | store, [] => (store, [])
  | store, o :: waiting =>
    if blocked o.key then
      ((release blocked store waiting).1, o :: (release blocked store waiting).2)
    else release blocked (carryOut store o) waiting

section Settled
variable {store : K → V} {waiting : List (Operation K V)} {o p : Operation K V}

@[simp] theorem carryOut_self (store : K → V) (o : Operation K V) :
    carryOut store o o.key = o.apply (store o.key) :=
  Function.update_self ..

theorem carryOut_of_ne {k : K} (h : k ≠ o.key) : carryOut store o k = store k :=
  Function.update_of_ne h ..

/-- Operations on different keys commute. -/
theorem carryOut_comm (h : o.key ≠ p.key) :
    carryOut (carryOut store o) p = carryOut (carryOut store p) o := by
  simp only [carryOut, Function.update_of_ne h, Function.update_of_ne h.symm]
  exact Function.update_comm h _ _ _

@[simp] theorem settled_nil (store : K → V) : settled store [] = store := rfl

@[simp] theorem settled_cons (store : K → V) (o : Operation K V) (waiting) :
    settled store (o :: waiting) = settled (carryOut store o) waiting := rfl

/-- Putting an operation off carries it out in the settled store. -/
theorem settled_concat (store : K → V) (waiting) (o : Operation K V) :
    settled store (waiting ++ [o]) = carryOut (settled store waiting) o := by
  simp [settled]

/-- Carrying an operation out at once, past waiting operations on other keys,
carries it out in the settled store. -/
theorem settled_carryOut (h : ∀ p ∈ waiting, p.key ≠ o.key) :
    settled (carryOut store o) waiting = carryOut (settled store waiting) o := by
  induction waiting generalizing store with
  | nil => rfl
  | cons p waiting ih =>
    have hp : p.key ≠ o.key := h p (List.mem_cons_self ..)
    rw [settled_cons, carryOut_comm hp.symm, ih fun q hq => h q (List.mem_cons_of_mem _ hq),
      settled_cons]

/-- A key nothing waits for is settled. -/
theorem settled_of_idle {k : K} (h : ∀ p ∈ waiting, p.key ≠ k) :
    settled store waiting k = store k := by
  induction waiting generalizing store with
  | nil => rfl
  | cons p waiting ih =>
    have hp : p.key ≠ k := h p (List.mem_cons_self ..)
    rw [settled_cons, ih fun q hq => h q (List.mem_cons_of_mem _ hq), carryOut_of_ne hp.symm]

/-- Of the settled store, a key sees the operations on it alone. -/
theorem settled_apply (store : K → V) (waiting : List (Operation K V)) (k : K) :
    settled store waiting k =
      (waiting.filter (·.key = k)).foldl (fun v o => o.apply v) (store k) := by
  induction waiting generalizing store with
  | nil => rfl
  | cons o waiting ih =>
    rw [settled_cons, ih]
    by_cases hk : o.key = k
    · subst hk
      simp
    · rw [carryOut_of_ne (Ne.symm hk)]
      simp [hk]

end Settled

section Release
variable {blocked : K → Prop} [DecidablePred blocked] {o : Operation K V}

theorem release_of_blocked (ho : blocked o.key) (store : K → V) (waiting) :
    release blocked store (o :: waiting) =
      ((release blocked store waiting).1, o :: (release blocked store waiting).2) :=
  if_pos ho

theorem release_of_not_blocked (ho : ¬ blocked o.key) (store : K → V) (waiting) :
    release blocked store (o :: waiting) = release blocked (carryOut store o) waiting :=
  if_neg ho

/-- A release passes an operation on a blocked key by. -/
theorem release_carryOut (ho : blocked o.key) (store : K → V) (waiting) :
    release blocked (carryOut store o) waiting =
      (carryOut (release blocked store waiting).1 o, (release blocked store waiting).2) := by
  induction waiting generalizing store with
  | nil => rfl
  | cons p waiting ih =>
    by_cases hp : blocked p.key
    · simp only [release_of_blocked hp, ih]
    · have hne : o.key ≠ p.key := fun he => hp (he ▸ ho)
      simp only [release_of_not_blocked hp, carryOut_comm hne, ih]

/-- A release leaves the settled store. -/
theorem settled_release (blocked : K → Prop) [DecidablePred blocked] (store : K → V) (waiting) :
    settled (release blocked store waiting).1 (release blocked store waiting).2 =
      settled store waiting := by
  induction waiting generalizing store with
  | nil => rfl
  | cons o waiting ih =>
    by_cases ho : blocked o.key
    · have h := ih (carryOut store o)
      rw [release_carryOut ho] at h
      rw [release_of_blocked ho, settled_cons, settled_cons]
      exact h
    · rw [release_of_not_blocked ho, settled_cons]
      exact ih (carryOut store o)

end Release

end Rts2.Lib

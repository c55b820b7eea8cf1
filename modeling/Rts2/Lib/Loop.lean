import Mathlib.Data.Nat.Basic

/-! # Loops

`while (cond (s)) s = body (s);` with a bound on the rounds: a measure that every
round makes smaller is enough of a bound, the loop then ends because its
condition fails. And a counted loop whose rounds can return. -/
namespace Rts2.Lib

/-! ## While -/

section
variable {σ : Type*} (cond : σ → Bool) (body : σ → σ)

/-- `while (cond (s)) s = body (s);`, of at most so many rounds. -/
def loop : Nat → σ → σ
  | 0, s => s
  | fuel + 1, s => if cond s then loop fuel (body s) else s

variable {cond body}

/-- A measure that bounds the rounds makes the loop end by its condition. -/
theorem loop_exit {m : σ → Nat} (hpos : ∀ s, cond s → 0 < m s)
    (hround : ∀ s, cond s → m (body s) < m s) {fuel : Nat} {s : σ} (hfuel : m s ≤ fuel) :
    cond (loop cond body fuel s) = false := by
  induction fuel generalizing s with
  | zero =>
    by_contra hc
    have hp := hpos s (by simpa [loop] using hc)
    omega
  | succ fuel ih =>
    simp only [loop]
    split
    · next hc =>
      have hless := hround s hc
      exact ih (by omega)
    · next hc => simpa using hc

/-- What a round keeps the loop keeps. -/
theorem loop_invariant {I : σ → Prop} (hround : ∀ s, cond s → I s → I (body s)) {fuel : Nat}
    {s : σ} (hs : I s) : I (loop cond body fuel s) := by
  induction fuel generalizing s with
  | zero => exact hs
  | succ fuel ih =>
    simp only [loop]
    split
    · next hc => exact ih (hround s hc hs)
    · exact hs

end

/-! ## For, with a return -/

section
variable {σ ρ : Type*} (round : Nat → σ → Except ρ σ)

/-- The state before round `n` of `for (c = 0; ; c++)`, or what an earlier round returned. -/
def rounds (s : σ) : Nat → Except ρ σ
  | 0 => .ok s
  | n + 1 => rounds s n >>= round n

variable {round} {s : σ} {n : Nat}

theorem rounds_succ_ok {s' : σ} :
    rounds round s (n + 1) = .ok s' ↔
      ∃ t, rounds round s n = .ok t ∧ round n t = .ok s' := by
  cases h : rounds round s n with
  | error r => simp [rounds, h, bind, Except.bind]
  | ok t => simp [rounds, h, bind, Except.bind]

/-- A loop that returned did so in one of its rounds. -/
theorem rounds_error {r : ρ} (h : rounds round s n = .error r) :
    ∃ c < n, ∃ t, rounds round s c = .ok t ∧ round c t = .error r := by
  induction n with
  | zero => cases h
  | succ n ih =>
    cases hn : rounds round s n with
    | error r' =>
      have hr : r' = r := by simpa [rounds, hn, bind, Except.bind] using h
      subst hr
      obtain ⟨c, hc, hround⟩ := ih hn
      exact ⟨c, by omega, hround⟩
    | ok t => exact ⟨n, Nat.lt_succ_self n, t, hn, by simpa [rounds, hn, bind, Except.bind] using h⟩

/-- A round that is reached has all rounds before it. -/
theorem rounds_ok_of_le {t : σ} {c : Nat} (h : rounds round s n = .ok t) (hc : c ≤ n) :
    ∃ u, rounds round s c = .ok u := by
  induction n generalizing t with
  | zero => exact ⟨t, by rwa [Nat.le_zero.mp hc]⟩
  | succ n ih =>
    rcases Nat.lt_or_ge n c with hlt | hle
    · exact ⟨t, by rwa [show c = n + 1 by omega]⟩
    · obtain ⟨u, hu, -⟩ := rounds_succ_ok.mp h
      exact ih hu hle

/-- What a round returns ends the loop. -/
theorem rounds_of_error {t : σ} {r : ρ} {c : Nat} (h : rounds round s c = .ok t)
    (hr : round c t = .error r) (hc : c < n) : rounds round s n = .error r := by
  induction n with
  | zero => omega
  | succ n ih =>
    rcases Nat.lt_or_ge c n with hlt | hge
    · simp [rounds, ih hlt, bind, Except.bind]
    · have heq : c = n := by omega
      subst heq
      simp [rounds, h, hr, bind, Except.bind]

/-- **Round to loop**: what every round keeps is true before every round. -/
theorem rounds_invariant {I : Nat → σ → Prop} (hs : I 0 s)
    (hround : ∀ c t u, I c t → round c t = .ok u → I (c + 1) u) {t : σ}
    (h : rounds round s n = .ok t) : I n t := by
  induction n generalizing t with
  | zero =>
    cases h
    exact hs
  | succ n ih =>
    obtain ⟨u, hu, hr⟩ := rounds_succ_ok.mp h
    exact hround n u t (ih hu) hr

end

end Rts2.Lib

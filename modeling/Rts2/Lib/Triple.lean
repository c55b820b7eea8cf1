import Mathlib.Data.List.Basic

/-! # Programs with a state and exceptions

A program reads and writes a state and may throw; what it had written when it
threw stays written. A triple names what holds before, what holds after a normal
end, and what holds where an exception comes out. -/
namespace Rts2.Lib

/-- Programs over a state `σ` that may throw an `ε`. -/
abbrev Prog (σ ε : Type) := ExceptT ε (StateM σ)

variable {σ τ ε α β : Type} {P P' : σ → Prop} {Q Q' : α → σ → Prop} {R : β → σ → Prop}
  {E E' : σ → Prop}

/-- From a state with `P`, the program ends in one with `Q`, or throws in one
with `E`. -/
def Triple (P : σ → Prop) (x : Prog σ ε α) (Q : α → σ → Prop) (E : σ → Prop) : Prop :=
  ∀ s, P s →
    match x s with
    | (.ok a, s') => Q a s'
    | (.error _, s') => E s'

theorem Triple.mono {x : Prog σ ε α} (h : Triple P x Q E) (hP : ∀ s, P' s → P s)
    (hQ : ∀ a s, Q a s → Q' a s) (hE : ∀ s, E s → E' s) : Triple P' x Q' E' := by
  intro s hs
  have hx := h s (hP s hs)
  rcases hres : x s with ⟨e | a, s'⟩
  · rw [hres] at hx
    exact hE s' hx
  · rw [hres] at hx
    exact hQ a s' hx

theorem Triple.pre {x : Prog σ ε α} (h : Triple P x Q E) (hP : ∀ s, P' s → P s) :
    Triple P' x Q E :=
  h.mono hP (fun _ _ hq => hq) (fun _ he => he)

theorem Triple.post {x : Prog σ ε α} (h : Triple P x Q E) (hQ : ∀ a s, Q a s → Q' a s) :
    Triple P x Q' E :=
  h.mono (fun _ hp => hp) hQ (fun _ he => he)

/-- A precondition that picks a witness is used one witness at a time. -/
theorem triple_exists {ι : Type} {P : ι → σ → Prop} {x : Prog σ ε α}
    (h : ∀ i, Triple (P i) x Q E) : Triple (fun s => ∃ i, P i s) x Q E := by
  intro s hs
  obtain ⟨i, hi⟩ := hs
  exact h i s hi

/-- The state a program starts from may be named. -/
theorem triple_from {x : Prog σ ε α} (h : ∀ r, Triple (fun s => r = s ∧ P s) x Q E) :
    Triple P x Q E :=
  fun s hs => h s s ⟨rfl, hs⟩

theorem triple_pure (a : α) (h : ∀ s, P s → Q a s) : Triple P (pure a : Prog σ ε α) Q E :=
  fun s hs => h s hs

theorem triple_throw (e : ε) (h : ∀ s, P s → E s) : Triple P (throw e : Prog σ ε α) Q E :=
  fun s hs => h s hs

/-- What is read is the state the program is in. -/
theorem triple_get {Q : σ → σ → Prop} (h : ∀ s, P s → Q s s) :
    Triple P (get : Prog σ ε σ) Q E :=
  fun s hs => h s hs

/-- Reading changes nothing. -/
theorem triple_read : Triple P (get : Prog σ ε σ) (fun _ => P) E :=
  fun _ hs => hs

theorem triple_modify (f : σ → σ) {Q : Unit → σ → Prop} (h : ∀ s, P s → Q () (f s)) :
    Triple P (modify f : Prog σ ε Unit) Q E :=
  fun s hs => h s hs

theorem triple_bind {x : Prog σ ε β} {f : β → Prog σ ε α} (hx : Triple P x R E)
    (hf : ∀ b, Triple (R b) (f b) Q E) : Triple P (x >>= f) Q E := by
  intro s hs
  have h := hx s hs
  show match ExceptT.bindCont f (x s).1 (x s).2 with
    | (.ok a, s') => Q a s'
    | (.error _, s') => E s'
  rcases hres : x s with ⟨e | b, s'⟩
  · rw [hres] at h
    exact h
  · rw [hres] at h
    exact hf b s' h

/-- A result nobody looks at. -/
theorem triple_discard {x : Prog σ ε α} {Q : σ → Prop} (hx : Triple P x (fun _ => Q) E) :
    Triple P (discard x) (fun _ => Q) E :=
  triple_bind hx fun _ => triple_pure _ fun _ hs => hs

/-- A caught exception goes on from the state it was thrown in. -/
theorem triple_tryCatch {x : Prog σ ε α} {handler : ε → Prog σ ε α} (hx : Triple P x Q E')
    (hh : ∀ e, Triple E' (handler e) Q E) : Triple P (tryCatch x handler) Q E := by
  intro s hs
  have h := hx s hs
  rcases hres : x s with ⟨e | a, s'⟩
  · rw [hres] at h
    have := hh e s' h
    have heq : (tryCatch x handler : Prog σ ε α) s = handler e s' := by
      show (match (x s).1 with
        | .ok a => (pure (Except.ok a) : StateM σ (Except ε α))
        | .error e => handler e) (x s).2 = _
      rw [hres]
    rw [heq]
    exact this
  · rw [hres] at h
    have heq : (tryCatch x handler : Prog σ ε α) s = (.ok a, s') := by
      show (match (x s).1 with
        | .ok a => (pure (Except.ok a) : StateM σ (Except ε α))
        | .error e => handler e) (x s).2 = _
      rw [hres]
      rfl
    rw [heq]
    exact h

theorem triple_ite {c : Prop} [Decidable c] {x y : Prog σ ε α}
    (hx : c → Triple P x Q E) (hy : ¬c → Triple P y Q E) :
    Triple P (if c then x else y) Q E := by
  split
  · exact hx ‹_›
  · exact hy ‹_›

/-! ## What a program keeps -/

/-- `P` survives the program, however it ends. -/
def Keeps (P : σ → Prop) (x : Prog σ ε α) : Prop :=
  Triple P x (fun _ => P) P

theorem keeps_pure (a : α) : Keeps P (pure a : Prog σ ε α) :=
  triple_pure a fun _ hs => hs

theorem keeps_throw (e : ε) : Keeps P (throw e : Prog σ ε α) :=
  triple_throw e fun _ hs => hs

theorem keeps_modify (f : σ → σ) (h : ∀ s, P s → P (f s)) :
    Keeps P (modify f : Prog σ ε Unit) :=
  triple_modify f h

theorem keeps_get : Keeps P (get : Prog σ ε σ) :=
  triple_get fun _ hs => hs

theorem keeps_bind {x : Prog σ ε β} {f : β → Prog σ ε α} (hx : Keeps P x)
    (hf : ∀ b, Keeps P (f b)) : Keeps P (x >>= f) :=
  triple_bind hx hf

theorem keeps_ite {c : Prop} [Decidable c] {x y : Prog σ ε α} (hx : Keeps P x)
    (hy : Keeps P y) : Keeps P (if c then x else y) :=
  triple_ite (fun _ => hx) (fun _ => hy)

theorem keeps_tryCatch {x : Prog σ ε α} {handler : ε → Prog σ ε α} (hx : Keeps P x)
    (hh : ∀ e, Keeps P (handler e)) : Keeps P (tryCatch x handler) :=
  triple_tryCatch hx hh

/-- A loop keeps what each of its rounds keeps. -/
theorem keeps_forM {l : List β} {f : β → Prog σ ε PUnit} (h : ∀ b ∈ l, Keeps P (f b)) :
    Keeps P (l.forM f) := by
  induction l with
  | nil => exact keeps_pure _
  | cons b l ih =>
    exact keeps_bind (h b (List.mem_cons_self ..)) fun _ =>
      ih fun c hc => h c (List.mem_cons_of_mem _ hc)

/-! ## One run -/

/-- What holds where the program ends when it starts in the state `s`, `E` with
the exception it throws. -/
def Ends (x : Prog σ ε α) (s : σ) (Q : α → σ → Prop) (E : ε → σ → Prop) : Prop :=
  match x s with
  | (.ok a, s') => Q a s'
  | (.error e, s') => E e s'

theorem Ends.mono {x : Prog σ ε α} {s : σ} {E E' : ε → σ → Prop} (h : Ends x s Q E)
    (hQ : ∀ a s', Q a s' → Q' a s') (hE : ∀ e s', E e s' → E' e s') : Ends x s Q' E' := by
  unfold Ends at h ⊢
  rcases hres : x s with ⟨e | a, s'⟩
  · rw [hres] at h
    exact hE e s' h
  · rw [hres] at h
    exact hQ a s' h

theorem Ends.bind {x : Prog σ ε β} {f : β → Prog σ ε α} {s : σ} {E : ε → σ → Prop}
    (hx : Ends x s R E) (hf : ∀ b s', R b s' → Ends (f b) s' Q E) : Ends (x >>= f) s Q E := by
  unfold Ends at hx
  show match ExceptT.bindCont f (x s).1 (x s).2 with
    | (.ok a, s') => Q a s'
    | (.error e, s') => E e s'
  rcases hres : x s with ⟨e | b, s'⟩
  · rw [hres] at hx
    exact hx
  · rw [hres] at hx
    exact hf b s' hx

/-- A result nobody looks at. -/
theorem Ends.discard {x : Prog σ ε α} {s : σ} {Q : σ → Prop} {E : ε → σ → Prop}
    (h : Ends x s (fun _ => Q) E) : Ends (discard x) s (fun _ => Q) E :=
  Ends.bind h fun _ _ hs => hs

theorem Ends.and {x : Prog σ ε α} {s : σ} {E E' : ε → σ → Prop} (h : Ends x s Q E)
    (h' : Ends x s Q' E') : Ends x s (fun a s' => Q a s' ∧ Q' a s') fun e s' => E e s' ∧ E' e s' := by
  unfold Ends at h h' ⊢
  rcases hres : x s with ⟨e | a, s'⟩
  · rw [hres] at h h'
    exact ⟨h, h'⟩
  · rw [hres] at h h'
    exact ⟨h, h'⟩

/-- Reading the state. -/
theorem ends_read {f : σ → Prog σ ε α} {s : σ} {E : ε → σ → Prop} (h : Ends (f s) s Q E) :
    Ends (get >>= f) s Q E :=
  h

/-- A triple, at one state. -/
theorem Triple.ends {x : Prog σ ε α} {s : σ} (h : Triple P x Q E) (hs : P s) :
    Ends x s Q fun _ => E := by
  have hx := h s hs
  unfold Ends
  rcases hres : x s with ⟨e | a, s'⟩ <;> rw [hres] at hx <;> exact hx

theorem triple_of_ends {x : Prog σ ε α} (h : ∀ s, P s → Ends x s Q fun _ => E) : Triple P x Q E := by
  intro s hs
  have hx := h s hs
  unfold Ends at hx
  rcases hres : x s with ⟨e | a, s'⟩ <;> rw [hres] at hx <;> exact hx

/-- A caught exception goes on from the state it was thrown in. -/
theorem Ends.tryCatch {x : Prog σ ε α} {handler : ε → Prog σ ε α} {s : σ} {E F : ε → σ → Prop}
    (hx : Ends x s Q F) (hh : ∀ e s', F e s' → Ends (handler e) s' Q E) :
    Ends (tryCatch x handler) s Q E := by
  unfold Ends at hx
  show match (match (x s).1 with
      | .ok a => (pure (Except.ok a) : StateM σ (Except ε α))
      | .error e => handler e) (x s).2 with
    | (.ok a, s') => Q a s'
    | (.error e, s') => E e s'
  rcases hres : x s with ⟨e | a, s'⟩
  · rw [hres] at hx
    exact hh e s' hx
  · rw [hres] at hx
    exact hx

theorem ends_trivial (x : Prog σ ε α) (s : σ) : Ends x s (fun _ _ => True) fun _ _ => True := by
  unfold Ends
  split <;> trivial

theorem ends_ite {c : Prop} [Decidable c] {x y : Prog σ ε α} {s : σ} {E : ε → σ → Prop}
    (hx : c → Ends x s Q E) (hy : ¬c → Ends y s Q E) : Ends (if c then x else y) s Q E := by
  split
  · exact hx ‹_›
  · exact hy ‹_›

/-- What the end of a run says of how it ended. -/
theorem Ends.of_ok {x : Prog σ ε α} {s s' : σ} {a : α} {E : ε → σ → Prop} (h : Ends x s Q E)
    (hx : x s = (.ok a, s')) : Q a s' := by
  rwa [Ends, hx] at h

theorem Ends.of_error {x : Prog σ ε α} {s s' : σ} {e : ε} {E : ε → σ → Prop} (h : Ends x s Q E)
    (hx : x s = (.error e, s')) : E e s' := by
  rwa [Ends, hx] at h

/-- A program that does not throw returns. -/
theorem Ends.returns {x : Prog σ ε α} {s : σ} (h : Ends x s Q fun _ _ => False) :
    ∃ a s', x s = (.ok a, s') ∧ Q a s' := by
  unfold Ends at h
  rcases hres : x s with ⟨e | a, s'⟩
  · rw [hres] at h
    exact h.elim
  · rw [hres] at h
    exact ⟨a, s', rfl, h⟩

/-! ## Programs on a part of the state -/

/-- The program run on the part of the state that `get` and `put` name. -/
def zoom (get : τ → σ) (put : σ → τ → τ) (x : Prog σ ε α) : Prog τ ε α :=
  ExceptT.mk fun t => ((x (get t)).1, put (x (get t)).2 t)

/-- The part ends as it does alone. -/
theorem ends_zoom_of {get : τ → σ} {put : σ → τ → τ} {x : Prog σ ε α} {t : τ} {Q' : α → τ → Prop}
    {E : ε → σ → Prop} {E' : ε → τ → Prop} (h : Ends x (get t) Q E)
    (hQ : ∀ a s, Q a s → Q' a (put s t)) (hE : ∀ e s, E e s → E' e (put s t)) :
    Ends (zoom get put x) t Q' E' := by
  unfold Ends at h
  show match ((x (get t)).1, put (x (get t)).2 t) with
    | (.ok a, t') => Q' a t'
    | (.error e, t') => E' e t'
  rcases hres : x (get t) with ⟨e | a, s'⟩
  · rw [hres] at h
    exact hE e s' h
  · rw [hres] at h
    exact hQ a s' h

/-- What a triple about the part says of the whole. -/
theorem triple_zoom_of {get : τ → σ} {put : σ → τ → τ} {x : Prog σ ε α} {P' : τ → Prop}
    {Q' : α → τ → Prop} {E' : τ → Prop} (h : Triple P x Q E) (hP : ∀ t, P' t → P (get t))
    (hQ : ∀ t a s, P' t → Q a s → Q' a (put s t)) (hE : ∀ t s, P' t → E s → E' (put s t)) :
    Triple P' (zoom get put x) Q' E' := by
  intro t ht
  have hx := h (get t) (hP t ht)
  show match ((x (get t)).1, put (x (get t)).2 t) with
    | (.ok a, s') => Q' a s'
    | (.error _, s') => E' s'
  rcases hres : x (get t) with ⟨e | a, s'⟩
  · rw [hres] at hx
    exact hE t s' ht hx
  · rw [hres] at hx
    exact hQ t a s' ht hx

/-- A triple about the part is one about the whole, about the part of it. -/
theorem triple_zoom {get : τ → σ} {put : σ → τ → τ} {x : Prog σ ε α}
    (hput : ∀ s t, get (put s t) = s) (h : Triple P x Q E) :
    Triple (fun t => P (get t)) (zoom get put x) (fun a t => Q a (get t))
      (fun t => E (get t)) :=
  triple_zoom_of h (fun _ ht => ht) (fun t _ s _ hs => by rwa [hput s t])
    fun t s _ hs => by rwa [hput s t]

end Rts2.Lib

import Mathlib.Data.List.Basic
import Mathlib.Data.List.Nodup
import Mathlib.Data.List.Perm.Subperm
import Rts2.Plan.TargetQueue

/-! # The life of a target

Every target of an entry of a queue is alive and belongs to that entry alone, and
so does a target that a function under way holds. What the queues delete they
delete once, and the current target stays as long as the entries that name it
are known to the queue. -/
namespace Rts2.Plan
open Rts2.Lib

def targets (l : List QueuedTarget) : List Target := l.map (·.target)

@[simp] theorem targets_nil : targets [] = [] := rfl

@[simp] theorem targets_cons (e : QueuedTarget) (l : List QueuedTarget) :
    targets (e :: l) = e.target :: targets l := rfl

@[simp] theorem targets_append (l l' : List QueuedTarget) :
    targets (l ++ l') = targets l ++ targets l' := List.map_append

/-- The objects in `held` and in `as` are alive and all different, and the
pointer of the executor is sound. A held object is an address, with `true` when
only the function that holds it knows it. -/
structure Live (p : Pool) (held : List (Nat × Bool)) (as : List Nat) : Prop where
  nodup : (held.map Prod.fst ++ as).Nodup
  alive : ∀ a ∈ held.map Prod.fst ++ as, a < p.created ∧ a ∉ p.deleted
  hidden : ∀ a, (a, true) ∈ held → ∀ t, p.currentTarget = some t → t.addr ≠ a
  current : ∀ t, p.currentTarget = some t → t.addr < p.created ∧ t.addr ∉ p.deleted
  deleted_lt : ∀ a ∈ p.deleted, a < p.created
  deleted_nodup : p.deleted.Nodup
  sound : ∀ m ∈ p.moments, m.Sound

namespace Live

variable {p q : Pool} {held : List (Nat × Bool)} {as bs : List Nat} {a : Nat} {t : Target}

theorem new : Live Pool.new [] [] := by
  constructor <;> simp [Pool.new]

/-- Only the objects and what was seen of them matter. -/
theorem congr (h : Live p held as) (hc : q.created = p.created) (hd : q.deleted = p.deleted)
    (ht : q.currentTarget = p.currentTarget) (hm : q.moments = p.moments) : Live q held as := by
  obtain ⟨h1, h2, h3, h4, h5, h6, h7⟩ := h
  constructor
  · exact h1
  · rw [hc, hd]; exact h2
  · rw [ht]; exact h3
  · rw [hc, hd, ht]; exact h4
  · rw [hc, hd]; exact h5
  · rw [hd]; exact h6
  · rw [hm]; exact h7

theorem asked (h : Live p held as) (n : Nat) : Live { p with asked := n } held as :=
  h.congr rfl rfl rfl rfl

theorem check (h : Live p held as) (c : Check) : Live (p.check c) held as :=
  h.congr rfl rfl rfl rfl

theorem perm (h : Live p held as) (hs : bs.Perm as) : Live p held bs := by
  obtain ⟨h1, h2, h3, h4, h5, h6, h7⟩ := h
  have hperm := hs.append_left (held.map Prod.fst)
  exact ⟨hperm.nodup_iff.mpr h1, fun a ha => h2 a (hperm.mem_iff.mp ha), h3, h4, h5, h6, h7⟩

/-- Entries may be forgotten. -/
theorem sublist (h : Live p held as) (hs : bs.Sublist as) : Live p held bs := by
  obtain ⟨h1, h2, h3, h4, h5, h6, h7⟩ := h
  have hsub := hs.append_left (held.map Prod.fst)
  exact ⟨h1.sublist hsub, fun a ha => h2 a (hsub.subset ha), h3, h4, h5, h6, h7⟩

/-- A held object becomes the object of an entry. -/
theorem insert {b : Bool} (h : Live p ((a, b) :: held) as) : Live p held (a :: as) := by
  obtain ⟨h1, h2, h3, h4, h5, h6, h7⟩ := h
  have hperm : (held.map Prod.fst ++ a :: as).Perm
      (((a, b) :: held).map Prod.fst ++ as) := List.perm_middle
  refine ⟨hperm.nodup_iff.mpr h1, fun x hx => h2 x (hperm.mem_iff.mp hx), ?_, h4, h5, h6, h7⟩
  exact fun x hx => h3 x (List.mem_cons_of_mem _ hx)

/-- A held object is left to itself. -/
theorem forget {b : Bool} (h : Live p ((a, b) :: held) as) : Live p held as :=
  h.insert.sublist (List.sublist_cons_self a as)

theorem create (h : Live p held as) :
    Live { p with created := p.created + 1 } ((p.created, true) :: held) as := by
  obtain ⟨h1, h2, h3, h4, h5, h6, h7⟩ := h
  have hnew : p.created ∉ held.map Prod.fst ++ as := fun hm => absurd (h2 _ hm).1 (by omega)
  refine ⟨List.nodup_cons.mpr ⟨hnew, h1⟩, ?_, ?_, ?_, ?_, h6, h7⟩
  · intro x hx
    rcases List.mem_cons.mp hx with rfl | hx
    · exact ⟨Nat.lt_succ_self _, fun hd => absurd (h5 _ hd) (by omega)⟩
    · exact ⟨Nat.lt_succ_of_lt (h2 x hx).1, (h2 x hx).2⟩
  · intro x hx t ht
    rcases List.mem_cons.mp hx with hx | hx
    · have := (h4 t ht).1
      have : x = p.created := congrArg Prod.fst hx
      omega
    · exact h3 x hx t ht
  · exact fun t ht => ⟨Nat.lt_succ_of_lt (h4 t ht).1, (h4 t ht).2⟩
  · exact fun x hx => Nat.lt_succ_of_lt (h5 x hx)

/-- **Deleting.** The object of an entry goes when it is not the current
target. -/
theorem delete (h : Live p held (t.addr :: as)) (hc : ¬ PointsTo p.currentTarget t) :
    Live (p.delete t) held as := by
  unfold Pool.delete
  split
  · exact h.sublist (List.sublist_cons_self _ _)
  · have hnodup : (t.addr :: (held.map Prod.fst ++ as)).Nodup :=
      List.perm_middle.nodup_iff.mp h.nodup
    have halive := h.alive t.addr (by simp)
    have hne : ∀ t', p.currentTarget = some t' → t'.addr ≠ t.addr := by
      intro t' ht' he
      exact hc (by rw [PointsTo, ht', Option.map_some, he])
    have hcurrent : ∀ t', p.currentTarget = some t' → t'.addr ∉ t.addr :: p.deleted := by
      intro t' ht' hm
      rcases List.mem_cons.mp hm with he | hm
      · exact hne t' ht' he
      · exact (h.current t' ht').2 hm
    have hdeleted : (t.addr :: p.deleted).Nodup :=
      List.nodup_cons.mpr ⟨halive.2, h.deleted_nodup⟩
    refine ⟨(List.nodup_cons.mp hnodup).2, ?_, h.hidden, ?_, ?_, hdeleted, ?_⟩
    · intro x hx
      have hx' := h.alive x (by
        rcases List.mem_append.mp hx with hx | hx <;> simp_all)
      refine ⟨hx'.1, fun hm => ?_⟩
      rcases List.mem_cons.mp hm with rfl | hm
      · exact (List.nodup_cons.mp hnodup).1 hx
      · exact hx'.2 hm
    · exact fun t' ht' => ⟨(h.current t' ht').1, hcurrent t' ht'⟩
    · intro x hx
      rcases List.mem_cons.mp hx with rfl | hx
      · exact halive.1
      · exact h.deleted_lt x hx
    · intro m hm
      rcases List.mem_cons.mp hm with rfl | hm
      · exact ⟨hcurrent, hdeleted⟩
      · exact h.sound m hm

/-- An object that is alive may be counted among those of the entries. -/
theorem adopt (h : Live p [] as) (ha : a < p.created ∧ a ∉ p.deleted) :
    Live p [] (a :: as.filter (· ≠ a)) := by
  refine ⟨List.nodup_cons.mpr ⟨by simp, h.nodup.filter _⟩, fun x hx => ?_, by simp, h.current,
    h.deleted_lt, h.deleted_nodup, h.sound⟩
  rcases List.mem_cons.mp hx with rfl | hx
  · exact ha
  · exact h.alive x (List.mem_filter.mp hx).1

/-- An object nobody else knows may be deleted by who holds it. -/
theorem deleteHeld (h : Live p ((t.addr, true) :: held) as) : Live (p.delete t) held as := by
  refine h.insert.delete fun hc => ?_
  obtain ⟨t', ht', he⟩ := Option.map_eq_some_iff.mp hc
  exact h.hidden t.addr (List.mem_cons_self ..) t' ht' he

/-- **The current target** may become `NULL`, an entry's object or a held one
that is no secret any more. -/
theorem setCurrent (h : Live p held as) (o : Option Target)
    (ho : ∀ t, o = some t → t.addr ∈ held.map Prod.fst ++ as ∧ (t.addr, true) ∉ held) :
    Live (p.setCurrent o) held as := by
  have hlive : ∀ t, o = some t → t.addr < p.created ∧ t.addr ∉ p.deleted :=
    fun t ht => h.alive _ (ho t ht).1
  refine ⟨h.nodup, h.alive, ?_, hlive, h.deleted_lt, h.deleted_nodup, ?_⟩
  · intro a ha t ht he
    exact (ho t ht).2 (he ▸ ha)
  · intro m hm
    rcases List.mem_cons.mp hm with rfl | hm
    · exact ⟨fun t ht => (hlive t ht).2, h.deleted_nodup⟩
    · exact h.sound m hm

theorem setNull (h : Live p held as) : Live (p.setCurrent none) held as :=
  h.setCurrent none (by simp)

/-- The object of an entry is nobody's secret. -/
theorem setEntry (h : Live p held as) (ht : t.addr ∈ as) :
    Live (p.setCurrent (some t)) held as := by
  refine h.setCurrent _ fun t' ht' => ?_
  obtain rfl := Option.some.inj ht'
  refine ⟨List.mem_append_right _ ht, fun hm => ?_⟩
  exact (List.nodup_append.mp h.nodup).2.2 _ (List.mem_map_of_mem hm) _ ht rfl

/-- A held object is no secret any more. -/
theorem reveal (h : Live p ((a, true) :: held) as) : Live p ((a, false) :: held) as :=
  ⟨h.nodup, h.alive, fun x hx => h.hidden x (by
    rcases List.mem_cons.mp hx with hx | hx
    · simp at hx
    · exact List.mem_cons_of_mem _ hx), h.current, h.deleted_lt, h.deleted_nodup, h.sound⟩

/-- A held object that is not the current target is a secret again. -/
theorem hide {b : Bool} (h : Live p ((t.addr, b) :: held) as) (hc : ¬ PointsTo p.currentTarget t) :
    Live p ((t.addr, true) :: held) as := by
  refine ⟨h.nodup, h.alive, fun x hx t' ht' he => ?_, h.current, h.deleted_lt, h.deleted_nodup,
    h.sound⟩
  rcases List.mem_cons.mp hx with hx | hx
  · have hsame : x = t.addr := congrArg Prod.fst hx
    exact hc (by rw [PointsTo, ht', Option.map_some, he, hsame])
  · exact h.hidden x (List.mem_cons_of_mem _ hx) t' ht' he

/-- A held object becomes the current target. -/
theorem setHeld (h : Live p ((t.addr, true) :: held) as) :
    Live (p.setCurrent (some t)) ((t.addr, false) :: held) as := by
  refine h.reveal.setCurrent _ fun t' ht' => ?_
  obtain rfl := Option.some.inj ht'
  refine ⟨by simp, fun hm => ?_⟩
  rcases List.mem_cons.mp hm with hm | hm
  · simp at hm
  · have hnodup := (List.nodup_append.mp h.nodup).1
    exact (List.nodup_cons.mp hnodup).1 (List.mem_map_of_mem hm)

end Live

/-! ## Between two operations of a queue -/

@[simp] theorem Pool.delete_checked (p : Pool) (t : Target) :
    (p.delete t).Checked ↔ p.Checked := by
  unfold Pool.delete
  split <;> rfl

@[simp] theorem Pool.delete_currentTarget (p : Pool) (t : Target) :
    (p.delete t).currentTarget = p.currentTarget := by
  unfold Pool.delete
  split <;> rfl

/-- The targets `ts` are in order: the queue knows the current target `c` as far
as it is one of them. -/
def InOrder (c : Option Target) (held : List (Nat × Bool)) (ts : List Target)
    (s : QueState) : Prop :=
  s.pool.Checked →
    Live s.pool held (ts.map Target.addr) ∧ s.pool.currentTarget = c ∧
      ∀ t ∈ ts, PointsTo c t → PointsTo s.queue.currentTarget t

/-- The queue is in order, with the targets `extra` of entries taken out for the
moment. -/
def Queued (c : Option Target) (held : List (Nat × Bool)) (extra : List Target)
    (s : QueState) : Prop :=
  InOrder c held (extra ++ targets s.queue.entries) s

/-- Whatever the queue knows of the current target, and so also after an
exception. -/
def Kept (c : Option Target) (held : List (Nat × Bool)) (s : QueState) : Prop :=
  s.pool.Checked →
    Live s.pool held ((targets s.queue.entries).map Target.addr) ∧ s.pool.currentTarget = c

variable {c : Option Target} {held : List (Nat × Bool)} {extra extra' ts ts' : List Target}
  {P : QueState → Prop} {t : Target} {s : QueState}

theorem InOrder.sub (h : InOrder c held ts s) (hs : ts'.Subperm ts) : InOrder c held ts' s := by
  intro hc
  obtain ⟨hl, hcur, hg⟩ := h hc
  obtain ⟨m, hperm, hsub⟩ := hs
  exact ⟨(hl.sublist (hsub.map _)).perm (hperm.symm.map _), hcur,
    fun t ht => hg t (hsub.subset (hperm.mem_iff.mpr ht))⟩

/-- What the queue holds besides its current target does not matter. -/
theorem InOrder.withEntries (h : InOrder c held ts s) (l : List QueuedTarget) :
    InOrder c held ts { s with queue := { s.queue with entries := l } } := h

/-- A held target goes into the queue. -/
theorem InOrder.insert (h : InOrder c ((t.addr, true) :: held) ts s) :
    InOrder c held (t :: ts) s := by
  intro hc
  obtain ⟨hl, hcur, hg⟩ := h hc
  refine ⟨hl.insert, hcur, fun t' ht' hp => ?_⟩
  rcases List.mem_cons.mp ht' with rfl | ht'
  · obtain ⟨t₀, ht₀, he⟩ := Option.map_eq_some_iff.mp hp
    exact absurd he (hl.hidden _ (List.mem_cons_self ..) t₀ (hcur.trans ht₀))
  · exact hg t' ht' hp

/-- A target that is not the current one is deleted. -/
theorem InOrder.delete (h : InOrder c held (t :: ts) s)
    (hc : s.pool.Checked → ¬ PointsTo s.pool.currentTarget t) :
    InOrder c held ts { s with pool := s.pool.delete t } := by
  intro hch
  have hch := (Pool.delete_checked ..).mp hch
  obtain ⟨hl, hcur, hg⟩ := h hch
  refine ⟨hl.delete (hc hch), by simpa using hcur, fun t' ht' => hg t' (List.mem_cons_of_mem _ ht')⟩

theorem InOrder.kept (h : InOrder c held ts s) (hs : (targets s.queue.entries).Subperm ts) :
    Kept c held s := by
  intro hc
  obtain ⟨hl, hcur, -⟩ := h.sub hs hc
  exact ⟨hl, hcur⟩

theorem Queued.kept (h : Queued c held extra s) : Kept c held s :=
  InOrder.kept h (List.sublist_append_right ..).subperm

theorem Kept.forget {x : Nat × Bool} (h : Kept c (x :: held) s) : Kept c held s := by
  intro hc
  obtain ⟨hl, hcur⟩ := h hc
  exact ⟨hl.forget, hcur⟩

/-- With no current target there is nothing to lose sight of. -/
theorem Kept.queued (h : Kept none held s) : Queued none held [] s := by
  intro hc
  obtain ⟨hl, hcur⟩ := h hc
  exact ⟨hl, hcur, fun t _ ht => by simp [PointsTo] at ht⟩

/-- A condition that the number of questions asked does not matter to. -/
def Calm (P : QueState → Prop) : Prop :=
  ∀ s n, P s → P { s with pool := { s.pool with asked := n } }

theorem InOrder.calm : Calm (InOrder c held ts) := by
  intro s n h hc
  obtain ⟨hl, hcur, hg⟩ := h hc
  exact ⟨hl.asked n, hcur, hg⟩

theorem Queued.calm : Calm (Queued c held extra) :=
  fun s n h => InOrder.calm s n h

theorem Calm.and {P' : QueState → Prop} (h : Calm P) (h' : Calm P') :
    Calm fun s => P s ∧ P' s :=
  fun s n hs => ⟨h s n hs.1, h' s n hs.2⟩

theorem calm_queue (q : ExecutorQueue) : Calm fun s => s.queue = q :=
  fun _ _ hs => hs

end Rts2.Plan

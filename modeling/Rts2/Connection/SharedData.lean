import Rts2.Lib.Run

/-! # Segments of shared memory

A camera hands its images out in segments of shared memory. A segment has a table of the
clients that read it, which the camera and the clients change under the lock of the
segment. The camera scans the segments with one lock after the other, and the clients take
theirs in between. -/
namespace Rts2.Connection.Shared
open Rts2.Lib

/-! ## Segments -/

def maxSharedClients : Nat := 10

structure SharedDataSegment where
  client_ids : List Int
  size : Nat
  bytesSoFar : Nat
  deriving DecidableEq

/-- `DataSharedWrite::create` -/
def create (numseg segsize : Nat) : List SharedDataSegment :=
  List.replicate numseg ⟨List.replicate maxSharedClients 0, segsize, 0⟩

/-- `DataAbstractShared::removeClient`, what it does under the lock. -/
def SharedDataSegment.removeClient (sseg : SharedDataSegment) (client_id : Int) :
    Int × SharedDataSegment :=
  if client_id ∈ sseg.client_ids then
    (0, { sseg with client_ids := sseg.client_ids.replace client_id 0 })
  else (-1, sseg)

/-- `DataSharedWrite::addClient`, what it does under the lock of a segment: the segment is
taken when its table has no client. -/
def SharedDataSegment.addClient (sseg : SharedDataSegment) (segsize : Nat) (client : Int) :
    Option SharedDataSegment :=
  if sseg.client_ids.any fun id => 0 < id then none
  else some ⟨sseg.client_ids.set 0 client, segsize, 0⟩

/-! ## The camera and its clients -/

/-- What the camera has to do before it looks at its other connections: to find segments
for the channels of an image, of which `sizes` are left and the next segment to be tried
is `i`, or to remove a client from segments. -/
inductive Task where
  | idle
  | adding (client : Int) (sizes : List Nat) (chan i : Nat) (segments : List Nat)
  | removing (client : Int) (segments : List Nat)

/-- The segments, and the segments of the channels of the image. `holders` and `handed`
are kept as a record: the clients that were given a segment and did not leave, and the
segments that were handed out with the clients that held them then. -/
structure State where
  segs : List SharedDataSegment
  chan2seg : List (Nat × Nat)
  task : Task
  holders : List (Nat × Int)
  handed : List (Nat × List Int)

def State.start (numseg segsize : Nat) : State := ⟨create numseg segsize, [], .idle, [], []⟩

/-- The clients that hold a segment. -/
def State.holdersOf (s : State) (i : Nat) : List Int :=
  (s.holders.filter (·.1 = i)).map Prod.snd

/-- `removeClient` -/
def State.removeClient (s : State) (segnum : Nat) (client_id : Int) : State :=
  { s with
    segs := s.segs.modify segnum fun sseg => (sseg.removeClient client_id).2
    holders := s.holders.filter (· ≠ (segnum, client_id)) }

/-- The next lock of the camera. -/
def State.lock (s : State) : State :=
  match s.task with
  | .idle => s
  | .adding _ [] _ _ _ => { s with task := .idle }
  | .adding client (size :: sizes) chan i segments =>
    match s.segs[i]? with
    | none =>
      -- clear allocation we did with addClient above
      { s with chan2seg := [], task := .removing client segments }
    | some sseg =>
      match sseg.addClient size client with
      | none => { s with task := .adding client (size :: sizes) chan (i + 1) segments }
      | some sseg =>
        { segs := s.segs.set i sseg
          chan2seg := (chan, i) :: s.chan2seg
          task := .adding client sizes (chan + 1) 0 (segments ++ [i])
          holders := (i, client) :: s.holders
          handed := s.handed ++ [(i, s.holdersOf i)] }
  | .removing _ [] => { s with task := .idle }
  | .removing client (j :: js) => { s.removeClient j client with task := .removing client js }

/-- The camera starts an image, `Camera::startImageData`, or loses a connection,
`Camera::deleteConnection`; it takes its next lock; a client leaves a segment,
`DataSharedRead::removeActiveClient`. -/
inductive Event where
  | startImageData (client : Int) (sizes : List Nat)
  | deleteConnection (client : Int)
  | lock
  | removeActiveClient (segment : Nat) (client : Int)

def step (s : State) : Event → State
  | .startImageData client sizes =>
    match s.task with
    | .idle => { s with chan2seg := [], task := .adding client sizes 0 0 [] }
    | _ => s
  | .deleteConnection client =>
    match s.task with
    | .idle => { s with task := .removing client (List.range s.segs.length) }
    | _ => s
  | .lock => s.lock
  | .removeActiveClient segment client => s.removeClient segment client

/-! ## One client in a table -/

variable {s : State} {sseg : SharedDataSegment} {i : Nat} {client holder : Int}

/-- The table of a segment that `holder` holds, none when it is 0. -/
def SharedDataSegment.HeldBy (sseg : SharedDataSegment) (holder : Int) : Prop :=
  0 ≤ holder ∧ sseg.client_ids = holder :: List.replicate (maxSharedClients - 1) 0

theorem SharedDataSegment.HeldBy.addClient (h : sseg.HeldBy holder) (segsize : Nat) :
    sseg.addClient segsize client =
      if 0 < holder then none
      else some ⟨client :: List.replicate (maxSharedClients - 1) 0, segsize, 0⟩ := by
  obtain ⟨-, hids⟩ := h
  unfold SharedDataSegment.addClient
  rw [hids]
  by_cases hpos : 0 < holder
  · simp [hpos]
  · simp [hpos, maxSharedClients]

theorem SharedDataSegment.HeldBy.removeClient (h : sseg.HeldBy holder) (hpos : 0 < client) :
    (sseg.removeClient client).2.HeldBy (if client = holder then 0 else holder) := by
  obtain ⟨hle, hids⟩ := h
  unfold SharedDataSegment.removeClient
  by_cases hclient : client = holder
  · subst hclient
    rw [if_pos (by rw [hids]; exact List.mem_cons_self ..), if_pos rfl]
    refine ⟨Int.le_refl 0, ?_⟩
    simp [hids]
  · have hnone : client ∉ sseg.client_ids := by
      rw [hids, List.mem_cons, not_or]
      refine ⟨hclient, fun hmem => ?_⟩
      rw [List.eq_of_mem_replicate hmem] at hpos
      exact Int.lt_irrefl 0 hpos
    rw [if_neg hnone, if_neg hclient]
    exact ⟨hle, hids⟩

/-! ## Tables and holders -/

def Task.Positive : Task → Prop
  | .idle => True
  | .adding client _ _ _ _ => 0 < client
  | .removing client _ => 0 < client

/-- A table has the client that was given the segment and did not leave, and no segment
was given away while a client held it. -/
structure Consistent (s : State) : Prop where
  table : ∀ i sseg, s.segs[i]? = some sseg →
    ∃ holder, sseg.HeldBy holder ∧ ∀ c, (i, c) ∈ s.holders ↔ holder ≠ 0 ∧ c = holder
  positive : s.task.Positive
  fresh : ∀ h ∈ s.handed, h.2 = []

theorem holdersOf_eq_nil : s.holdersOf i = [] ↔ ∀ c, (i, c) ∉ s.holders := by
  unfold State.holdersOf
  rw [List.map_eq_nil_iff, List.filter_eq_nil_iff]
  constructor
  · intro h c hc
    exact h (i, c) hc (by simp)
  · rintro h ⟨j, c⟩ hjc hj
    have hi : j = i := by simpa using hj
    subst hi
    exact h c hjc

/-- A segment has no holder when its table has no client. -/
theorem Consistent.addClient (h : Consistent s) (hseg : s.segs[i]? = some sseg) (size : Nat)
    (client : Int) : (sseg.addClient size client).isSome = true ↔ s.holdersOf i = [] := by
  obtain ⟨holder, hheld, hholders⟩ := h.table i sseg hseg
  rw [hheld.addClient, holdersOf_eq_nil]
  by_cases hpos : 0 < holder
  · rw [if_pos hpos]
    refine iff_of_false Bool.false_ne_true fun hnone => ?_
    exact hnone holder ((hholders holder).mpr ⟨(Int.ne_of_lt hpos).symm, rfl⟩)
  · rw [if_neg hpos]
    refine iff_of_true rfl fun c hc => ?_
    have hzero := ((hholders c).mp hc).1
    have hle := hheld.1
    omega

theorem Consistent.removeClient (h : Consistent s) (segnum : Nat) (hpos : 0 < client) :
    Consistent (s.removeClient segnum client) := by
  refine ⟨?_, h.positive, h.fresh⟩
  intro i sseg hseg
  have hmem : ∀ c, (i, c) ∈ (s.removeClient segnum client).holders ↔
      (i, c) ∈ s.holders ∧ (i, c) ≠ (segnum, client) := by
    intro c
    show (i, c) ∈ s.holders.filter _ ↔ _
    rw [List.mem_filter, decide_eq_true_iff]
  replace hseg : (s.segs.modify segnum fun sseg => (sseg.removeClient client).2)[i]? = some sseg :=
    hseg
  rw [List.getElem?_modify] at hseg
  obtain ⟨old, hold, hnew⟩ := Option.map_eq_some_iff.mp hseg
  obtain ⟨holder, hheld, hholders⟩ := h.table i old hold
  by_cases hi : segnum = i
  · subst hi
    rw [if_pos rfl] at hnew
    refine ⟨if client = holder then 0 else holder, hnew ▸ hheld.removeClient hpos, fun c => ?_⟩
    have hpair : (segnum, c) ≠ (segnum, client) ↔ c ≠ client := by simp
    rw [hmem, hholders, hpair]
    by_cases hclient : client = holder
    · subst hclient
      rw [if_pos rfl]
      refine iff_of_false ?_ (fun hc => hc.1 rfl)
      rintro ⟨⟨-, rfl⟩, hne⟩
      exact hne rfl
    · rw [if_neg hclient]
      refine ⟨fun hc => hc.1, fun hc => ⟨hc, fun hcc => hclient (hcc.symm.trans hc.2)⟩⟩
  · rw [if_neg hi] at hnew
    refine ⟨holder, hnew ▸ hheld, fun c => ?_⟩
    rw [hmem, ← hholders]
    refine ⟨fun hc => hc.1, fun hc => ⟨hc, fun he => hi ?_⟩⟩
    exact (Prod.mk.inj he).1.symm

theorem Consistent.lock (h : Consistent s) : Consistent s.lock := by
  have hpositive := h.positive
  unfold State.lock
  split
  · exact h
  · exact ⟨h.table, trivial, h.fresh⟩
  · next client size sizes chan i segments htask =>
    rw [htask] at hpositive
    split
    · exact ⟨h.table, hpositive, h.fresh⟩
    · next sseg hseg =>
      split
      · exact ⟨h.table, hpositive, h.fresh⟩
      · next new hnew =>
        have hnone := (h.addClient hseg size client).mp (by rw [hnew]; rfl)
        obtain ⟨holder, hheld, hholders⟩ := h.table i sseg hseg
        have hnewHeld : new.HeldBy client := by
          rw [hheld.addClient] at hnew
          split at hnew
          · cases hnew
          · cases hnew
            exact ⟨Int.le_of_lt hpositive, rfl⟩
        refine ⟨?_, hpositive, ?_⟩
        · intro j sseg' hseg'
          replace hseg' : (s.segs.set i new)[j]? = some sseg' := hseg'
          rw [List.getElem?_set] at hseg'
          by_cases hj : i = j
          · subst hj
            rw [if_pos rfl, if_pos (List.getElem?_eq_some_iff.mp hseg).1] at hseg'
            cases hseg'
            refine ⟨client, hnewHeld, fun c => ?_⟩
            show (i, c) ∈ (i, client) :: s.holders ↔ _
            rw [List.mem_cons, Prod.mk.injEq]
            refine ⟨fun hc => ⟨(Int.ne_of_lt hpositive).symm, ?_⟩, fun hc => .inl ⟨rfl, hc.2⟩⟩
            exact hc.elim (·.2) fun hc => absurd hc (holdersOf_eq_nil.mp hnone c)
          · rw [if_neg hj] at hseg'
            obtain ⟨holder', hheld', hholders'⟩ := h.table j sseg' hseg'
            refine ⟨holder', hheld', fun c => ?_⟩
            show (j, c) ∈ (i, client) :: s.holders ↔ _
            rw [List.mem_cons, Prod.mk.injEq, ← hholders']
            exact or_iff_right fun hc => hj hc.1.symm
        · intro e he
          rcases List.mem_append.mp he with he | he
          · exact h.fresh e he
          · rw [List.mem_singleton.mp he]
            exact hnone
  · exact ⟨h.table, trivial, h.fresh⟩
  · next client j js htask =>
    rw [htask] at hpositive
    obtain ⟨htable, -, hfresh⟩ := h.removeClient j hpositive
    exact ⟨htable, hpositive, hfresh⟩

/-! ## Runs -/

/-- The clients of an event have positive ids. -/
def Event.Positive : Event → Prop
  | .startImageData client _ => 0 < client
  | .deleteConnection client => 0 < client
  | .lock => True
  | .removeActiveClient _ client => 0 < client

theorem Consistent.step {e : Event} (h : Consistent s) (hpos : e.Positive) :
    Consistent (step s e) := by
  cases e with
  | startImageData client sizes =>
    show Consistent (match s.task with
      | .idle => { s with chan2seg := [], task := .adding client sizes 0 0 [] }
      | _ => s)
    split
    · exact ⟨h.table, hpos, h.fresh⟩
    · exact h
  | deleteConnection client =>
    show Consistent (match s.task with
      | .idle => { s with task := .removing client (List.range s.segs.length) }
      | _ => s)
    split
    · exact ⟨h.table, hpos, h.fresh⟩
    · exact h
  | lock => exact h.lock
  | removeActiveClient segment client => exact h.removeClient segment hpos

theorem consistent_start (numseg segsize : Nat) : Consistent (State.start numseg segsize) := by
  refine ⟨?_, trivial, nofun⟩
  intro i sseg hseg
  have hnew : sseg = ⟨List.replicate maxSharedClients 0, segsize, 0⟩ :=
    List.eq_of_mem_replicate (List.mem_of_getElem? hseg)
  subst hnew
  exact ⟨0, ⟨Int.le_refl 0, rfl⟩, fun c => iff_of_false List.not_mem_nil fun hc => hc.1 rfl⟩

/-- The camera looks for a segment from `k` on, for an image of one channel. -/
def State.scanning (s : State) (client : Int) (size k : Nat) : State :=
  { s with chan2seg := [], task := .adding client [size] 0 k [] }

/-- A segment that is held is passed over, and one that is not is handed out. -/
theorem Consistent.scanning_lock (h : Consistent s) (client : Int) (size : Nat)
    (hseg : s.segs[i]? = some sseg) :
    (s.holdersOf i ≠ [] → (s.scanning client size i).lock = s.scanning client size (i + 1)) ∧
    (s.holdersOf i = [] → (s.scanning client size i).lock.handed = s.handed ++ [(i, [])]) := by
  have htaken := h.addClient hseg size client
  unfold State.scanning State.lock
  dsimp only
  rw [hseg]
  dsimp only
  cases hadd : sseg.addClient size client with
  | none =>
    rw [hadd] at htaken
    exact ⟨fun _ => rfl, fun hnone => absurd (htaken.mpr hnone) Bool.false_ne_true⟩
  | some new =>
    rw [hadd] at htaken
    have hnone := htaken.mp rfl
    refine ⟨fun hheld => absurd hnone hheld, fun _ => ?_⟩
    show s.handed ++ [(i, s.holdersOf i)] = _
    rw [hnone]

/-- The camera finds a segment as long as there is one that nobody holds. -/
theorem Consistent.finds (h : Consistent s) (client : Int) (size : Nat)
    (hi : i < s.segs.length) (hfree : s.holdersOf i = []) (n : Nat) : ∀ k, k + n = i →
      ∃ j m, (run Shared.step (s.scanning client size k) (List.replicate m .lock)).handed =
        s.handed ++ [(j, [])] := by
  induction n with
  | zero =>
    rintro k rfl
    exact ⟨k, 1, (h.scanning_lock client size (List.getElem?_eq_getElem hi)).2 hfree⟩
  | succ n ih =>
    intro k hk
    have hlt : k < s.segs.length := by omega
    obtain ⟨hpass, hhand⟩ := h.scanning_lock client size (List.getElem?_eq_getElem hlt)
    by_cases hnone : s.holdersOf k = []
    · exact ⟨k, 1, hhand hnone⟩
    · obtain ⟨j, m, hm⟩ := ih (k + 1) (by omega)
      refine ⟨j, m + 1, ?_⟩
      rw [List.replicate_succ, run_cons]
      show (run Shared.step (s.scanning client size k).lock _).handed = _
      rw [hpass hnone]
      exact hm

/-- What the segments are for: none is handed out while a client holds it, and one that
nobody holds is taken when the camera gets its lock, so that an image of one channel finds
a segment as long as there is one. -/
structure Sound (s : State) : Prop where
  fresh : ∀ h ∈ s.handed, h.2 = []
  taken : ∀ i sseg, s.segs[i]? = some sseg → ∀ size client,
    ((sseg.addClient size client).isSome = true ↔ s.holdersOf i = [])
  found : ∀ i < s.segs.length, s.holdersOf i = [] → s.task = .idle → ∀ client size,
    ∃ j m, (run step s (.startImageData client [size] :: List.replicate m .lock)).handed =
      s.handed ++ [(j, [])]

theorem Consistent.sound (h : Consistent s) : Sound s := by
  refine ⟨h.fresh, fun i sseg hseg size client => h.addClient hseg size client, ?_⟩
  intro i hi hfree hidle client size
  obtain ⟨j, m, hm⟩ := h.finds client size hi hfree i 0 (Nat.zero_add i)
  refine ⟨j, m, ?_⟩
  have hstart : Shared.step s (.startImageData client [size]) = s.scanning client size 0 := by
    unfold Shared.step State.scanning
    rw [hidle]
  rw [run_cons, hstart]
  exact hm

/-- **A segment is not handed out while a client holds it**, and is available again when
its clients have left, in every run of the camera and its clients. -/
theorem segments_sound (numseg segsize : Nat) (events : List Event)
    (hpos : ∀ e ∈ events, e.Positive) :
    Sound (run step (State.start numseg segsize) events) := by
  have hconsistent : Consistent (run step (State.start numseg segsize) events) :=
    run_invariant_of_mem (consistent_start numseg segsize) (fun _ e hc he => hc.step (e := e) he)
      events hpos
  exact hconsistent.sound

/-- Two images of two clients in two segments; the second client leaves while the camera
looks for a segment for a third image. -/
theorem segments_sound_shared : Sound (run step (State.start 2 100)
    [.startImageData 5 [60], .lock, .lock, .startImageData 7 [60], .lock, .lock, .lock,
      .startImageData 9 [60], .lock, .removeActiveClient 1 7, .lock, .lock]) :=
  segments_sound 2 100 _ (by
    simp only [List.forall_mem_cons, Event.Positive]
    refine ⟨?_, ?_⟩ <;> simp)

end Rts2.Connection.Shared

import Rts2.Lib.Run

/-! # Descriptors of a poll

The connections of a block add their descriptors to an array before every `ppoll`. The array grows when
it is full for the first time; its new size is not noted. -/
namespace Rts2.PollFds
open Lib (run)

/-! ## The array -/

def POLLS_SIZE : ℕ := 200

structure PollFD where
  fd : Int32
  events : Int16
  revents : Int16
  deriving DecidableEq

/-- `fds` with the entries that are allocated; those that were never written are none. -/
structure Block where
  fds : List (Option PollFD)
  pollsize : ℕ
  npolls : ℕ

/-- `Block::Block` -/
def Block.init : Block := ⟨List.replicate POLLS_SIZE none, POLLS_SIZE, 0⟩

/-- `new`, `memcpy` and `delete` of `addPollFD`; nothing when more is copied than was allocated. -/
def Block.grow (b : Block) : Option Block :=
  if b.npolls = b.pollsize then
    if b.npolls ≤ b.fds.length then
      some { b with fds := b.fds.take b.npolls ++ List.replicate POLLS_SIZE none }
    else none
  else some b

/-- `addPollFD`; nothing when it writes behind the array. -/
def Block.addPollFD (b : Block) (fd : Int32) (events : Int16) : Option Block :=
  b.grow.bind fun b =>
    if b.npolls < b.fds.length then
      some { b with fds := b.fds.set b.npolls (some ⟨fd, events, 0⟩), npolls := b.npolls + 1 }
    else none

/-- `ppoll` writes the events that have come. -/
def Block.ppoll (b : Block) (revents : ℕ → Int16) : Option Block :=
  if b.npolls ≤ b.fds.length then
    some { b with
      fds := b.fds.mapIdx fun i e => if i < b.npolls then e.map ({ · with revents := revents i }) else e }
  else none

/-- What happens in a pass of the loop: it starts, a descriptor is added, and the events are waited for. -/
inductive Event where
  | addPollSocks
  | addPollFD (fd : Int32) (events : Int16)
  | ppoll (revents : ℕ → Int16)

def Block.step (b : Option Block) (e : Event) : Option Block :=
  b.bind fun b =>
    match e with
    | .addPollSocks => some { b with npolls := 0 }
    | .addPollFD fd events => b.addPollFD fd events
    | .ppoll revents => b.ppoll revents

/-! ## The descriptors of a pass -/

/-- The entries that are to be there. -/
def record (entries : List PollFD) (e : Event) : List PollFD :=
  match e with
  | .addPollSocks => []
  | .addPollFD fd events => entries ++ [⟨fd, events, 0⟩]
  | .ppoll revents => entries.mapIdx fun i e => { e with revents := revents i }

/-- No more entries are used than there are, and they are those of the pass. -/
structure Block.Holds (b : Block) (entries : List PollFD) : Prop where
  allocated : b.npolls ≤ b.fds.length
  kept : b.fds.take b.npolls = entries.map some

/-- The entries are there after every step of a run. -/
def Right (events : List Event) : Prop :=
  ∀ p, p <+: events → ∃ b, run Block.step (some .init) p = some b ∧ b.Holds (run record [] p)

/-! ## The invariant -/

/-- The array has its first size or the second one. -/
structure Block.Inv (b : Block) (entries : List PollFD) : Prop extends b.Holds entries where
  pollsize : b.pollsize = POLLS_SIZE
  size : b.fds.length = POLLS_SIZE ∨ b.fds.length = 2 * POLLS_SIZE

namespace Block
variable {b : Block} {entries : List PollFD}

theorem inv_init : Block.init.Inv [] := by
  refine ⟨⟨Nat.zero_le _, rfl⟩, rfl, .inl ?_⟩
  exact List.length_replicate

theorem Holds.npolls_eq (h : b.Holds entries) : b.npolls = entries.length := by
  have hlength := congrArg List.length h.kept
  rw [List.length_take, List.length_map, Nat.min_eq_left h.allocated] at hlength
  exact hlength

/-- The array grows at its first size. -/
theorem Inv.grow (h : b.Inv entries) : ∃ b', b.grow = some b' ∧ b'.Inv entries ∧ b'.npolls = b.npolls ∧
    (b.npolls = POLLS_SIZE → b'.npolls < b'.fds.length) := by
  unfold Block.grow
  by_cases hfull : b.npolls = b.pollsize
  · have hsize := hfull.trans h.pollsize
    have hlength : (b.fds.take b.npolls).length = POLLS_SIZE := by
      rw [List.length_take, Nat.min_eq_left h.allocated, hsize]
    have hnew : (b.fds.take b.npolls ++ List.replicate POLLS_SIZE none).length = 2 * POLLS_SIZE := by
      rw [List.length_append, hlength, List.length_replicate, Nat.two_mul]
    have hpos : 0 < POLLS_SIZE := Nat.zero_lt_succ 199
    rw [if_pos hfull, if_pos h.allocated]
    refine ⟨_, rfl, ⟨⟨?_, ?_⟩, h.pollsize, .inr hnew⟩, rfl, fun _ => ?_⟩
    · show b.npolls ≤ (b.fds.take b.npolls ++ List.replicate POLLS_SIZE none).length
      omega
    · show (b.fds.take b.npolls ++ List.replicate POLLS_SIZE none).take b.npolls = _
      rw [List.take_append_of_le_length (by omega), List.take_take, Nat.min_self, h.kept]
    · show b.npolls < (b.fds.take b.npolls ++ List.replicate POLLS_SIZE none).length
      omega
  · rw [if_neg hfull]
    exact ⟨b, rfl, h, rfl, fun hsize => absurd (hsize.trans h.pollsize.symm) hfull⟩

/-- A descriptor is added, or the second size is used up. -/
theorem Inv.addPollFD (h : b.Inv entries) (fd : Int32) (events : Int16) :
    (∃ b', b.addPollFD fd events = some b' ∧ b'.Inv (entries ++ [⟨fd, events, 0⟩])) ∨
      b.addPollFD fd events = none ∧ 2 * POLLS_SIZE < (entries ++ [⟨fd, events, 0⟩] : List PollFD).length := by
  obtain ⟨b', hgrow, hinv, hsame, hroom⟩ := h.grow
  unfold Block.addPollFD
  rw [hgrow, Option.bind_some]
  by_cases hless : b'.npolls < b'.fds.length
  · left
    rw [if_pos hless]
    refine ⟨_, rfl, ⟨⟨?_, ?_⟩, hinv.pollsize, ?_⟩⟩
    · show b'.npolls + 1 ≤ (b'.fds.set b'.npolls _).length
      rw [List.length_set]
      exact hless
    · show (b'.fds.set b'.npolls _).take (b'.npolls + 1) = _
      rw [List.take_succ_eq_append_getElem (by rw [List.length_set]; exact hless), List.take_set_of_le (Nat.le_refl _),
        hinv.kept, List.getElem_set_self, List.map_append, List.map_singleton]
    · show (b'.fds.set b'.npolls _).length = _ ∨ _
      rw [List.length_set]
      exact hinv.size
  · right
    rw [if_neg hless]
    refine ⟨rfl, ?_⟩
    have hentries := h.npolls_eq
    have hallocated := hinv.allocated
    rw [List.length_append, List.length_singleton]
    rcases hinv.size with hsize | hsize
    · exact absurd (hroom (by omega)) hless
    · omega

theorem Inv.ppoll (h : b.Inv entries) (revents : ℕ → Int16) : ∃ b', b.ppoll revents = some b' ∧
    b'.Inv (entries.mapIdx fun i e => { e with revents := revents i }) := by
  unfold Block.ppoll
  rw [if_pos h.allocated]
  have hlength (f : ℕ → Option PollFD → Option PollFD) : (b.fds.mapIdx f).length = b.fds.length :=
    List.length_mapIdx
  refine ⟨_, rfl, ⟨⟨?_, ?_⟩, h.pollsize, ?_⟩⟩
  · exact (hlength _).symm ▸ h.allocated
  · refine List.ext_getElem? fun i => ?_
    have hkept := congrArg (·[i]?) h.kept
    simp only [List.getElem?_take, List.getElem?_map, List.getElem?_mapIdx] at hkept ⊢
    by_cases hi : i < b.npolls
    · rw [if_pos hi] at hkept ⊢
      rw [hkept]
      cases entries[i]? with
      | none => rfl
      | some e => simp [hi]
    · rw [if_neg hi] at hkept ⊢
      cases he : entries[i]? with
      | none => rfl
      | some e =>
        rw [he] at hkept
        cases hkept
  · exact (hlength _).symm ▸ h.size

/-- A step goes as it is recorded, or the second size is used up. -/
theorem Inv.step (h : b.Inv entries) (e : Event) :
    (∃ b', step (some b) e = some b' ∧ b'.Inv (record entries e)) ∨
      step (some b) e = none ∧ 2 * POLLS_SIZE < (record entries e).length := by
  cases e with
  | addPollSocks => exact .inl ⟨_, rfl, ⟨⟨Nat.zero_le _, rfl⟩, h.pollsize, h.size⟩⟩
  | addPollFD fd events => exact h.addPollFD fd events
  | ppoll revents => exact .inl (h.ppoll revents)

/-- An entry that was not allocated is never left again. -/
theorem run_none (events : List Event) : run step none events = none := by
  induction events with
  | nil => rfl
  | cons e events ih => exact ih

theorem Inv.run (h : b.Inv entries) (events : List Event) :
    (∃ b', Lib.run Block.step (some b) events = some b' ∧ b'.Inv (Lib.run record entries events)) ∨
      ∃ p, p <+: events ∧ 2 * POLLS_SIZE < (Lib.run record entries p).length := by
  induction events generalizing b entries with
  | nil => exact .inl ⟨b, rfl, h⟩
  | cons e events ih =>
    rw [Lib.run_cons, Lib.run_cons]
    rcases h.step e with ⟨b', hstep, hinv⟩ | ⟨-, hlarge⟩
    · rw [hstep]
      refine (ih hinv).imp_right ?_
      rintro ⟨p, hp, hlarge⟩
      exact ⟨e :: p, List.prefix_cons_inj e |>.mpr hp, hlarge⟩
    · exact .inr ⟨[e], List.prefix_append [e] events, hlarge⟩

/-- There are never more entries than the second size. -/
theorem Inv.run_le (h : b.Inv entries) {events : List Event} {b' : Block}
    (hrun : Lib.run Block.step (some b) events = some b') : b'.Inv (Lib.run record entries events) := by
  induction events generalizing b entries with
  | nil =>
    cases hrun
    exact h
  | cons e events ih =>
    rw [Lib.run_cons] at hrun ⊢
    rcases h.step e with ⟨b'', hstep, hinv⟩ | ⟨hstep, -⟩
    · rw [hstep] at hrun
      exact ih hinv hrun
    · rw [hstep, run_none] at hrun
      cases hrun

end Block

/-- The entries are there after every step if and only if no pass adds more than 400 descriptors. -/
theorem addPollFD_right_iff (events : List Event) : Right events ↔
    ∀ p, p <+: events → (run record [] p).length ≤ 2 * POLLS_SIZE := by
  constructor
  · intro h p hp
    obtain ⟨b, hrun, hholds⟩ := h p hp
    have hinv := Block.inv_init.run_le hrun
    have hentries := hholds.npolls_eq
    have hallocated := hholds.allocated
    rcases hinv.size with hsize | hsize <;> omega
  · intro h p hp
    rcases Block.inv_init.run p with ⟨b, hrun, hinv⟩ | ⟨q, hq, hlarge⟩
    · exact ⟨b, hrun, hinv.toHolds⟩
    · exact absurd (h q (hq.trans hp)) (Nat.not_le_of_lt hlarge)

theorem record_replicate (entries : List PollFD) (fd : Int32) (events : Int16) (n : ℕ) :
    (run record entries (List.replicate n (.addPollFD fd events))).length = entries.length + n := by
  induction n generalizing entries with
  | zero => rfl
  | succ n ih =>
    have hone : (record entries (.addPollFD fd events)).length = entries.length + 1 :=
      List.length_append
    rw [List.replicate_succ, Lib.run_cons, ih, hone]
    omega

/-- The 401st descriptor of a pass is written behind the array. -/
theorem addPollFD_behind : ¬ Right (List.replicate 401 (.addPollFD 5 1)) := by
  intro h
  obtain ⟨b, hrun, -⟩ := h _ List.prefix_rfl
  have hinv := Block.inv_init.run_le hrun
  have hentries := hinv.npolls_eq
  have hallocated := hinv.allocated
  have hnew : 401 ≤ 2 * POLLS_SIZE := by
    rw [record_replicate, List.length_nil] at hentries
    rcases hinv.size with hsize | hsize <;> omega
  exact absurd hnew (by decide)

end Rts2.PollFds

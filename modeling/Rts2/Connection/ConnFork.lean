import Rts2.Connection.Params
import Rts2.Lib.Run

/-! # Writing to a child process

`ConnFork` writes messages to the standard input of a process it started. What
`write` does not take is kept in `input`; it goes out with the next message, or
when the pipe is ready. -/
namespace Rts2.Connection
open Rts2.Lib

/-- What `write` to the pipe answers: it takes at most so many bytes, or fails. -/
inductive PipeWrite where
  | takes (n : Nat)
  | eagain
  | eintr
  deriving DecidableEq

/-- The fields of `ConnFork` that writing works on. `sockwrite` tells if the descriptor
is open, `deleted` if the state of the connection is `CONN_DELETE`; `delivered` is what
the pipe has taken. -/
structure ConnFork where
  sockwrite : Bool
  input : List Byte
  deleted : Bool
  delivered : List Byte

/-- After `init`, with nothing written yet. -/
def ConnFork.start : ConnFork where
  sockwrite := true
  input := []
  deleted := false
  delivered := []

/-- `write` took `n` of `bytes`, the rest is kept. -/
def ConnFork.taken (s : ConnFork) (bytes : List Byte) (n : Nat) : ConnFork :=
  { s with delivered := s.delivered ++ bytes.take n, input := bytes.drop n }

/-- `Connection::connectionError`, which leaves the descriptor for writing alone. -/
def ConnFork.connectionError (s : ConnFork) : ConnFork := { s with deleted := true }

/-- `ConnFork::writeToProcess`. -/
def ConnFork.writeToProcess (s : ConnFork) (msg : List Byte) (a : PipeWrite) : ConnFork :=
  if s.sockwrite then
    match a with
    | .takes n => s.taken (s.input ++ msg ++ [lf]) n
    -- `ConnFork::connectionError` ignores it
    | .eagain => s
    | .eintr => s.connectionError
  else s

/-- `ConnFork::add`. -/
def ConnFork.add (s : ConnFork) : ConnFork :=
  if s.input ≠ [] ∧ s.sockwrite = false then { s with input := [] } else s

/-- `ConnFork::writable`; `ready` is what `isForWrite` returns. -/
def ConnFork.writable (s : ConnFork) (ready : Bool) (a : PipeWrite) : ConnFork :=
  if s.input = [] then s
  else if s.sockwrite = false then s.connectionError
  else if ready then
    match a with
    | .eintr => { s with sockwrite := false }
    | .eagain => s
    | .takes n =>
      let s := s.taken s.input n
      if s.input = [] then { s with sockwrite := false } else s
  else s

namespace ConnFork

inductive Event where
  | writeToProcess (msg : List Byte) (a : PipeWrite)
  | add
  | writable (ready : Bool) (a : PipeWrite)

def step (s : ConnFork) : Event → ConnFork
  | .writeToProcess msg a => s.writeToProcess msg a
  | .add => s.add
  | .writable ready a => s.writable ready a

def Event.message : Event → Option (List Byte)
  | .writeToProcess msg _ => some msg
  | _ => none

/-- The messages, each followed by a line end. -/
def lineText (msgs : List (List Byte)) : List Byte := msgs.flatMap (· ++ [lf])

@[simp] theorem lineText_nil : lineText [] = [] := rfl

@[simp] theorem lineText_cons (msg : List Byte) (msgs : List (List Byte)) :
    lineText (msg :: msgs) = msg ++ lf :: lineText msgs := by
  simp [lineText]

theorem lineText_append (msgs msgs' : List (List Byte)) :
    lineText (msgs ++ msgs') = lineText msgs ++ lineText msgs' := List.flatMap_append

def Event.bytes (e : Event) : List Byte := lineText e.message.toList

theorem lineText_filterMap (es : List Event) :
    lineText (es.filterMap Event.message) = es.flatMap Event.bytes := by
  induction es with
  | nil => rfl
  | cons e es ih =>
    rw [List.flatMap_cons, ← ih, List.filterMap_cons]
    cases hm : e.message with
    | none => simp [Event.bytes, lineText, hm]
    | some msg => simp [Event.bytes, lineText, hm]

/-- The pipe is ready, once for each entry, and takes so many bytes. -/
def readies (takes : List Nat) : List Event := takes.map fun n => .writable true (.takes n)

/-- What the pipe has taken is the beginning of `bytes`, and `bytes` is what it will have
taken when it gets ready often enough. -/
def DeliversAll (s : ConnFork) (bytes : List Byte) : Prop :=
  s.delivered <+: bytes ∧ ∀ takes : List Nat, (∀ n ∈ takes, 0 < n) →
    s.input.length ≤ takes.length → (run step s (readies takes)).delivered = bytes

/-- A message finds the descriptor open and `write` takes some of it, and no `write` of the
rest is interrupted. -/
def Keeps (s : ConnFork) : Event → Prop
  | .writeToProcess _ a => s.sockwrite = true ∧ a ≠ .eagain ∧ a ≠ .eintr
  | .add => True
  | .writable ready a => ¬(s.input ≠ [] ∧ ready = true ∧ a = .eintr)

instance Keeps.decidable (s : ConnFork) : ∀ e, Decidable (Keeps s e)
  | .writeToProcess _ _ => inferInstanceAs (Decidable (_ ∧ _ ∧ _))
  | .add => .isTrue trivial
  | .writable _ _ => inferInstanceAs (Decidable (¬(_ ∧ _ ∧ _)))

/-- Nothing is lost: what was not delivered is kept, and can still be written. -/
structure Intact (s : ConnFork) (bytes : List Byte) : Prop where
  all : s.delivered ++ s.input = bytes
  isOpen : s.input ≠ [] → s.sockwrite = true

/-- Something is not delivered and never will be. -/
def Lost (s : ConnFork) (bytes : List Byte) : Prop :=
  s.delivered.length + s.input.length < bytes.length ∨
    (s.sockwrite = false ∧ s.delivered.length < bytes.length)

variable {s : ConnFork} {bytes : List Byte}

theorem intact_start : Intact .start [] := ⟨rfl, fun h => absurd rfl h⟩

/-! ## One step -/

theorem Intact.taken {rest : List Byte} (h : s.delivered ++ bytes = rest)
    (hopen : s.sockwrite = true) (n : Nat) : Intact (s.taken bytes n) rest where
  all := by
    simp only [ConnFork.taken, List.append_assoc, List.take_append_drop]
    exact h
  isOpen _ := hopen

theorem Intact.step (h : Intact s bytes) {e : Event} (hk : Keeps s e) :
    Intact (s.step e) (bytes ++ e.bytes) := by
  cases e with
  | writeToProcess msg a =>
    obtain ⟨hopen, hagain, hintr⟩ := hk
    cases a with
    | eagain => exact absurd rfl hagain
    | eintr => exact absurd rfl hintr
    | takes n =>
      simp only [ConnFork.step, ConnFork.writeToProcess, if_pos hopen]
      refine Intact.taken ?_ hopen n
      rw [← h.all]
      simp [Event.bytes, Event.message, lineText]
  | add =>
    have hadd : s.add = s := by
      rw [ConnFork.add, if_neg]
      rintro ⟨hne, hclosed⟩
      simp [h.isOpen hne] at hclosed
    simpa [ConnFork.step, hadd, Event.bytes, Event.message, lineText] using h
  | writable ready a =>
    simp only [Event.bytes, Event.message, lineText, Option.toList_none, List.flatMap_nil,
      List.append_nil, ConnFork.step, ConnFork.writable]
    split
    · exact h
    rename_i hne
    rw [if_neg (by simp [h.isOpen hne])]
    split
    · rename_i hready
      cases a with
      | eagain => exact h
      | eintr => exact absurd ⟨hne, hready, rfl⟩ hk
      | takes n =>
        have htaken : Intact (s.taken s.input n) bytes := .taken h.all (h.isOpen hne) n
        dsimp only
        split
        · rename_i hempty
          exact ⟨htaken.all, fun hrest => absurd hempty hrest⟩
        · exact htaken
    · exact h

theorem Intact.lost (h : Intact s bytes) {e : Event} (hk : ¬ Keeps s e) :
    Lost (s.step e) (bytes ++ e.bytes) := by
  have hsize : s.delivered.length + s.input.length = bytes.length := by
    rw [← h.all, List.length_append]
  cases e with
  | writeToProcess msg a =>
    -- the state has not changed, the message is not there
    left
    have hsame : (s.step (.writeToProcess msg a)).delivered = s.delivered ∧
        (s.step (.writeToProcess msg a)).input = s.input := by
      simp only [ConnFork.step, ConnFork.writeToProcess]
      split
      · rename_i hopen
        cases a with
        | takes n => exact absurd ⟨hopen, by simp, by simp⟩ hk
        | eagain => exact ⟨rfl, rfl⟩
        | eintr => exact ⟨rfl, rfl⟩
      · exact ⟨rfl, rfl⟩
    rw [hsame.1, hsame.2]
    simp [Event.bytes, Event.message, lineText, ← hsize]
  | add => exact absurd trivial hk
  | writable ready a =>
    obtain ⟨hne, rfl, rfl⟩ := not_not.mp hk
    right
    have hpos := List.length_pos_iff.mpr hne
    simp only [ConnFork.step, ConnFork.writable, if_neg hne, h.isOpen hne]
    refine ⟨rfl, ?_⟩
    simp [Event.bytes, Event.message, lineText]
    omega

theorem taken_length (s : ConnFork) (bytes : List Byte) (n : Nat) :
    (s.taken bytes n).delivered.length + (s.taken bytes n).input.length =
      s.delivered.length + bytes.length := by
  simp only [ConnFork.taken, List.length_append, List.length_take, List.length_drop]
  omega

theorem Lost.step (h : Lost s bytes) (e : Event) : Lost (s.step e) (bytes ++ e.bytes) := by
  cases e with
  | writeToProcess msg a =>
    have hbytes : (bytes ++ (Event.writeToProcess msg a).bytes).length =
        bytes.length + msg.length + 1 := by
      simp [Event.bytes, Event.message, lineText]
      omega
    simp only [Lost, hbytes, ConnFork.step, ConnFork.writeToProcess]
    split
    · rename_i hopen
      have hless : s.delivered.length + s.input.length < bytes.length := by
        rcases h with hless | ⟨hclosed, -⟩
        · exact hless
        · simp [hopen] at hclosed
      left
      cases a with
      | takes n =>
        have hsize := taken_length s (s.input ++ msg ++ [lf]) n
        simp only [List.length_append, List.length_singleton] at hsize
        dsimp only
        omega
      | eagain => dsimp only; omega
      | eintr => dsimp only [ConnFork.connectionError]; omega
    · rcases h with hless | ⟨hclosed, hless⟩
      · left; omega
      · exact .inr ⟨hclosed, by omega⟩
  | add =>
    simp only [Event.bytes, Event.message, lineText, Option.toList_none, List.flatMap_nil,
      List.append_nil, ConnFork.step, ConnFork.add]
    split
    · rcases h with hless | ⟨_, hless⟩
      · exact .inl (lt_of_le_of_lt (Nat.add_le_add_left (Nat.zero_le _) _) hless)
      · exact .inl (by simpa using hless)
    · exact h
  | writable ready a =>
    simp only [Event.bytes, Event.message, lineText, Option.toList_none, List.flatMap_nil,
      List.append_nil, ConnFork.step, ConnFork.writable]
    split
    · exact h
    split
    · exact h
    rename_i hopen
    have hless : s.delivered.length + s.input.length < bytes.length := by
      rcases h with hless | ⟨hclosed, -⟩
      · exact hless
      · exact absurd hclosed hopen
    split
    · cases a with
      | eagain => exact .inl hless
      | eintr => exact .inl hless
      | takes n =>
        have hsize := taken_length s s.input n
        dsimp only
        split
        · left; dsimp only; omega
        · left; omega
    · exact .inl hless

/-! ## Runs of steps -/

theorem Intact.run {es : List Event} (h : Intact s bytes) (hk : Along ConnFork.step Keeps s es) :
    Intact (run ConnFork.step s es) (bytes ++ es.flatMap Event.bytes) := by
  induction es generalizing s bytes with
  | nil => simpa using h
  | cons e es ih => simpa [List.append_assoc] using ih (h.step hk.1) hk.2

theorem Lost.run (h : Lost s bytes) (es : List Event) :
    Lost (run ConnFork.step s es) (bytes ++ es.flatMap Event.bytes) := by
  induction es generalizing s bytes with
  | nil => simpa using h
  | cons e es ih => simpa [List.append_assoc] using ih (h.step e)

theorem lost_of_not_along {es : List Event} (h : Intact s bytes)
    (hk : ¬ Along ConnFork.step Keeps s es) :
    Lost (run ConnFork.step s es) (bytes ++ es.flatMap Event.bytes) := by
  induction es generalizing s bytes with
  | nil => exact absurd trivial hk
  | cons e es ih =>
    rw [List.flatMap_cons, ← List.append_assoc, run_cons]
    by_cases hstep : Keeps s e
    · exact ih (h.step hstep) fun hrest => hk ⟨hstep, hrest⟩
    · exact (h.lost hstep).run es

/-! ## Getting ready again -/

theorem step_ready (hopen : s.sockwrite = true) (hne : s.input ≠ []) (n : Nat) :
    (s.step (.writable true (.takes n))).delivered = s.delivered ++ s.input.take n ∧
    (s.step (.writable true (.takes n))).input = s.input.drop n ∧
    (s.input.drop n ≠ [] → (s.step (.writable true (.takes n))).sockwrite = true) := by
  simp only [ConnFork.step, ConnFork.writable, if_neg hne, hopen, Bool.true_eq_false, if_true,
    if_false]
  by_cases hempty : (s.taken s.input n).input = []
  · rw [if_pos hempty]
    exact ⟨rfl, rfl, fun h => absurd hempty h⟩
  · rw [if_neg hempty]
    exact ⟨rfl, rfl, fun _ => hopen⟩

theorem run_readies_empty (hempty : s.input = []) (takes : List Nat) :
    run ConnFork.step s (readies takes) = s := by
  induction takes with
  | nil => rfl
  | cons n takes ih =>
    have hsame : s.step (.writable true (.takes n)) = s := if_pos hempty
    rw [readies, List.map_cons, run_cons, hsame]
    exact ih

theorem bytes_readies (takes : List Nat) : (readies takes).flatMap Event.bytes = [] := by
  induction takes with
  | nil => rfl
  | cons n takes ih => exact ih

theorem along_readies (s : ConnFork) (takes : List Nat) :
    Along ConnFork.step Keeps s (readies takes) := by
  induction takes generalizing s with
  | nil => trivial
  | cons n takes ih => exact ⟨by simp [Keeps], ih _⟩

/-- A pipe that takes a byte at least every time it is ready takes all that is kept. -/
theorem run_readies_input (hopen : s.input ≠ [] → s.sockwrite = true) {takes : List Nat}
    (hpos : ∀ n ∈ takes, 0 < n) (hlen : s.input.length ≤ takes.length) :
    (run ConnFork.step s (readies takes)).input = [] := by
  induction takes generalizing s with
  | nil => exact List.length_eq_zero_iff.mp (Nat.le_zero.mp hlen)
  | cons n takes ih =>
    by_cases hempty : s.input = []
    · rw [run_readies_empty hempty]
      exact hempty
    · obtain ⟨-, hinput, hopen'⟩ := step_ready (hopen hempty) hempty n
      have hn := hpos n (List.mem_cons_self ..)
      rw [readies, List.map_cons, run_cons]
      refine ih (fun hne => hopen' (hinput ▸ hne)) (fun m hm => hpos m (List.mem_cons_of_mem _ hm)) ?_
      rw [hinput, List.length_drop]
      rw [List.length_cons] at hlen
      omega

theorem Intact.deliversAll (h : Intact s bytes) : DeliversAll s bytes := by
  refine ⟨⟨s.input, h.all⟩, fun takes hpos hlen => ?_⟩
  have hall := (h.run (along_readies s takes)).all
  rwa [run_readies_input h.isOpen hpos hlen, bytes_readies, List.append_nil, List.append_nil]
    at hall

theorem Lost.not_deliversAll (h : Lost s bytes) : ¬ DeliversAll s bytes := by
  intro hall
  have hend := hall.2 (List.replicate s.input.length 1)
    (fun n hn => by rw [List.eq_of_mem_replicate hn]; exact Nat.one_pos) (by simp)
  have hlost := h.run (readies (List.replicate s.input.length 1))
  rw [bytes_readies, List.append_nil] at hlost
  rw [Lost, hend] at hlost
  rcases hlost with hless | ⟨-, hless⟩
  · omega
  · exact lt_irrefl _ hless

/-! ## Runs -/

/-- Every message reaches the process, in order and once, exactly in the runs in which each
is written while the descriptor is open and no `write` fails where bytes are given up. -/
theorem delivers_iff (es : List Event) :
    DeliversAll (run ConnFork.step .start es) (lineText (es.filterMap Event.message)) ↔
      Along ConnFork.step Keeps .start es := by
  rw [lineText_filterMap]
  constructor
  · intro hall
    by_contra hk
    exact (lost_of_not_along intact_start hk).not_deliversAll hall
  · intro hk
    exact (intact_start.run hk).deliversAll

/-- The rest of a message goes out when the pipe is ready, and the descriptor is closed. -/
theorem not_delivered_after_drain :
    ¬ DeliversAll (run ConnFork.step .start [.writeToProcess [48] (.takes 1),
      .writable true (.takes 1), .writeToProcess [49] (.takes 2)]) (lineText [[48], [49]]) := by
  intro h
  have hend := h.2 [] (by simp) (by decide)
  revert hend
  decide

end ConnFork
end Rts2.Connection

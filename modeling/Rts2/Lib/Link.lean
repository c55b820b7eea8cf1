import Mathlib.Data.List.Basic
import Mathlib.Logic.Function.Iterate

/-! # Replicas behind a link

A source sends messages to a replica over a link that keeps their order, and the replica takes them
in one after the other. What it will hold when everything under way has arrived is the link settled:
sending changes that as if the messages arrived at once, and receiving does not change it. -/
namespace Rts2.Lib

/-- The messages under way, the next one first, and what the replica holds. -/
structure Link (μ ν : Type*) where
  inFlight : List μ
  view : ν

namespace Link
variable {μ ν : Type*} (take : ν → μ → ν)

/-- What the replica holds when all that is under way has arrived. -/
def settled (l : Link μ ν) : ν := l.inFlight.foldl take l.view

def send (l : Link μ ν) (messages : List μ) : Link μ ν :=
  { l with inFlight := l.inFlight ++ messages }

def receive (l : Link μ ν) : Link μ ν :=
  match l.inFlight with
  | [] => l
  | m :: rest => ⟨rest, take l.view m⟩

theorem settled_send (l : Link μ ν) (messages : List μ) :
    (l.send messages).settled take = messages.foldl take (l.settled take) :=
  List.foldl_append

@[simp] theorem settled_receive (l : Link μ ν) : (l.receive take).settled take = l.settled take := by
  obtain ⟨inFlight, view⟩ := l
  cases inFlight <;> rfl

end Link

end Rts2.Lib

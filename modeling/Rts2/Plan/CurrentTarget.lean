import Rts2.Plan.SelectorTargets

/-! # The current target is alive

The runs of the executor and of the selector, to the end of the process if it
comes. `beforeChange` deletes the target of the front entry when it puts a new
one at the back, and that target may be the current one. -/
namespace Rts2.Plan
open Rts2.Lib

/-- The objects after a run of the executor, which may be destroyed at its end. -/
def Executor.poolAfter (w : ExecWorld) (depth : Nat) (masterState : Status) (calls : List Call)
    (ends : Bool) : Pool :=
  let x : Exec Unit := do
    Exec.run w depth calls
    if ends then Exec.destroy w depth
  (x (Executor.new masterState)).2.pool

/-- The objects after a run of the selector. -/
def Selector.poolAfter (w : World) (queues : Nat) (calls : List SelectorCall) (ends : Bool) :
    Pool :=
  let x : Sel Unit := do
    Sel.run w calls
    if ends then Sel.destroy
  (x (Selector.new queues)).2.pool

theorem Triple.state {σ ε α : Type} {P : σ → Prop} {x : Prog σ ε α} (h : Keeps P x) {s : σ}
    (hs : P s) : P (x s).2 := by
  have hx := h s hs
  rcases hres : x s with ⟨e | a, s'⟩
  · rw [hres] at hx
    exact hx
  · rw [hres] at hx
    exact hx

theorem Executor.poolAfter_sound (w : ExecWorld) (depth : Nat) (masterState : Status)
    (calls : List Call) (ends : Bool)
    (hc : (Executor.poolAfter w depth masterState calls ends).Checked) :
    ∀ m ∈ (Executor.poolAfter w depth masterState calls ends).moments, m.Sound := by
  have hstart : Good [] (Executor.new masterState) := fun _ => Live.new
  have hrun : Keeps (Good []) (do
      Exec.run w depth calls
      if ends then Exec.destroy w depth) :=
    triple_bind (Exec.run_keeps w depth calls) fun _ =>
      triple_ite (fun _ => Exec.destroy_good w depth) fun _ => keeps_pure _
  exact (Triple.state hrun hstart hc).sound

theorem Selector.new_addrs (queues : Nat) : (Selector.new queues).addrs = [] := by
  rw [Selector.addrs, List.flatMap_eq_nil_iff]
  intro q hq
  have hnew : q = ExecutorQueue.new := by
    rcases List.mem_append.mp hq with hq | hq
    · exact List.eq_of_mem_replicate hq
    · simpa [Selector.new] using hq
  rw [hnew]
  rfl

theorem Selector.poolAfter_sound (w : World) (queues : Nat) (calls : List SelectorCall)
    (ends : Bool) (hc : (Selector.poolAfter w queues calls ends).Checked) :
    ∀ m ∈ (Selector.poolAfter w queues calls ends).moments, m.Sound := by
  have hstart : Owned (Selector.new queues) := by
    intro _
    rw [Selector.new_addrs]
    exact ⟨Live.new, rfl⟩
  have hrun : Keeps Owned (do
      Sel.run w calls
      if ends then Sel.destroy) :=
    triple_bind (Sel.run_keeps w calls) fun _ =>
      triple_ite (fun _ => Sel.destroy_keeps) fun _ => keeps_pure _
  exact (Triple.state hrun hstart hc).1.sound

/-- **The current target** has not been deleted and nothing has been deleted
twice, at any moment of a run that passes the checks: `beforeChange` does not
put a new target in the place of the current one, no record stays when its
target is gone, and nobody drops a target that was taken. -/
theorem current_target_alive (ends : Bool) :
    (∀ (w : ExecWorld) (depth : Nat) (masterState : Status) (calls : List Call),
      (Executor.poolAfter w depth masterState calls ends).Checked →
        ∀ m ∈ (Executor.poolAfter w depth masterState calls ends).moments, m.Sound) ∧
    (∀ (w : World) (queues : Nat) (calls : List SelectorCall),
      (Selector.poolAfter w queues calls ends).Checked →
        ∀ m ∈ (Selector.poolAfter w queues calls ends).moments, m.Sound) :=
  ⟨fun w depth masterState calls => Executor.poolAfter_sound w depth masterState calls ends,
    fun w queues calls => Selector.poolAfter_sound w queues calls ends⟩

theorem current_target_alive_fifo :
    (∀ m ∈ (Executor.poolAfter ExecWorld.quiet 1 Status.serverdNight
      [.queue [some 5, some 6], .scriptEnded, .clear] true).moments, m.Sound) ∧
    ∀ m ∈ (Selector.poolAfter World.quiet 2
      [.call 0 (.queue (-1) false [some ⟨5, none, none, 2, some 60⟩]), .call 0 (.beforeChange 10),
        .simulate, .simulFinished] true).moments, m.Sound :=
  ⟨(current_target_alive true).1 ExecWorld.quiet 1 Status.serverdNight _ (by decide +kernel),
    (current_target_alive true).2 World.quiet 2 _ (by decide +kernel)⟩

/-- In a circular queue the end of a script deletes the target that is being
observed. -/
theorem current_target_deleted :
    ∃ m ∈ (Executor.poolAfter ExecWorld.quiet 0 Status.serverdNight
      [.setQueueValues { QueueValues.default with queueType := .circular }, .queue [some 5],
        .scriptEnded] false).moments, ¬ m.Sound := by
  decide +kernel

end Rts2.Plan

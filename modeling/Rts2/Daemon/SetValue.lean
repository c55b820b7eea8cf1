import Mathlib.Data.Int.Init

/-! # Carrying out a change of a value

A change names an operator and carries a new value of the same class, made by
`duplicateValue` and filled from the request. -/
namespace Rts2.Daemon

/-- What `doSetValue` asks of a class of values. `doOpValue new op old` is the
new value after `new->doOpValue (op, old)`, or none for its error. -/
class ValueOps (V : Type) where
  doOpValue : V → Char → V → Option V
  isEqual : V → V → Bool
  setFromValue : V → V → V
  doOpValue_assign : ∀ {new old r}, doOpValue new '=' old = some r → r = new

variable {V : Type} [ValueOps V]

/-- `Daemon::doSetValue`: the value returned and what the old value holds then.
The virtual `setValue` of the driver is `hook`. -/
def doSetValue (hook : V → V → Int) (old : V) (op : Char) (new : V) : Int × V :=
  match ValueOps.doOpValue new op old with
  | none => (-2, old)
  | some new =>
    let ret := hook old new
    if ret < 0 then (ret, old)
    else if ret = 0 ∧ ValueOps.isEqual old new = false then
      (0, ValueOps.setFromValue old new)
    else (0, old)

/-- `Daemon::setValue` of a writable value. -/
def writable : V → V → Int := fun _ _ => 0

/-- An assignment of what the value holds already leaves it. -/
theorem doSetValue_equal (hook : V → V → Int) {old new : V}
    (h : ValueOps.isEqual old new = true) : (doSetValue hook old '=' new).2 = old := by
  unfold doSetValue
  split
  · rfl
  · next r hr =>
    obtain rfl := ValueOps.doOpValue_assign hr
    by_cases hn : hook old r < 0
    · simp [hn]
    · simp [hn, h]

end Rts2.Daemon

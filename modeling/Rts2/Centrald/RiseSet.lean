import Mathlib.Algebra.Order.Floor.Ring
import Rts2.Lib.Events
import Rts2.Status

/-! # The next event of the Sun

`next_naut` looks day by day for the next rise, transit and set of the Sun over
two horizons; `next_event` reads the state of the day from them. A time that is
not set, 0 in the source, is none. -/
namespace Rts2.RiseSet
open Rts2.Status

variable {K : Type} [Field K] [LinearOrder K] [IsStrictOrderedRing K] [FloorRing K]

/-- `ln_rst_time`. -/
structure Rst (K : Type) where
  rise : K
  transit : K
  set : K

/-- The times that were found. -/
structure Found (K : Type) where
  rise : Option K
  transit : Option K
  set : Option K

/-- `ln_get_solar_rst_horizon` over the night and the day horizon: what it returns and the
times, for the day of a Julian date. -/
structure Sky (K : Type) where
  night : ℤ → Int × Rst K
  day : ℤ → Int × Rst K

/-! ## Searching -/

/-- A turn of the search for one time: `t` is the time of the day and `last` that of the day
before; between times more than a day and a half apart one is put in the middle. -/
def look (jd t : K) (last found : Option K) : Option K :=
  let found := if found.isNone ∧ jd < t then some t else found
  match last with
  | none => found
  | some last =>
    if 3 / 2 < t - last then
      if jd < (t + last) / 2 then some ((t + last) / 2) else found
    else found

def Found.look (jd : K) (t : Rst K) (last : Option (Rst K)) (found : Found K) : Found K where
  rise := RiseSet.look jd t.rise (last.map Rst.rise) found.rise
  transit := RiseSet.look jd t.transit (last.map Rst.transit) found.transit
  set := RiseSet.look jd t.set (last.map Rst.set) found.set

/-- All three times are set. -/
def Found.all (found : Found K) : Bool :=
  found.rise.isSome && found.transit.isSome && found.set.isSome

/-- The variables of `next_naut`. -/
structure Search (K : Type) where
  rst_naut : Found K
  rst : Found K
  last_naut : Option (Rst K)
  last_rst : Option (Rst K)
  sun_rs : Bool
  sun_naut : Int

namespace Search

/-- The start of `next_naut`. -/
def start : Search K where
  rst_naut := ⟨none, none, none⟩
  rst := ⟨none, none, none⟩
  last_naut := none
  last_rst := none
  sun_rs := false
  sun_naut := 0

/-- The part of a turn for the night horizon. -/
def lookNaut (s : Search K) (jd : K) (r : Int × Rst K) : Search K :=
  { s with
    rst_naut := s.rst_naut.look jd r.2 s.last_naut
    last_naut := some r.2
    sun_naut := r.1 }

/-- The part of a turn for the day horizon. -/
def lookRst (s : Search K) (jd : K) (r : Int × Rst K) : Search K :=
  if r.1 = 0 then
    { s with rst := s.rst.look jd r.2 s.last_rst, last_rst := some r.2, sun_rs := true }
  else s

/-- The condition of the loop. -/
def goesOn (s : Search K) : Bool :=
  s.sun_naut ≠ 0 || !s.rst_naut.all || (!s.rst.all && s.sun_rs)

end Search

/-- The turns of the loop from `t_jd` on, at most `fuel` of them. -/
def searchFrom (sky : Sky K) (jd : K) : Nat → K → Search K → Option (Search K)
  | 0, _, _ => none
  | fuel + 1, t_jd, s =>
    let s := (s.lookNaut jd (sky.night ⌊t_jd⌋)).lookRst jd (sky.day ⌊t_jd⌋)
    if s.goesOn then searchFrom sky jd fuel (t_jd + 1) s else some s

def next_naut (sky : Sky K) (jd : K) (fuel : Nat) : Option (Search K) :=
  searchFrom sky jd fuel (jd - 2) .start

/-! ## States of the day -/

/-- What `next_event` returns: the current state, the next state and its time. -/
structure Event (K : Type) where
  curr_type : Status
  type : Status
  time : K

/-- The state while the Sun is above the day horizon. -/
def dayEvent (jd rise set eve_time mor_time : K) : Event K :=
  if set - eve_time < jd then ⟨serverdEvening, serverdDusk, set⟩
  else if jd < rise + mor_time - 1 then ⟨serverdMorning, serverdDay, rise + mor_time - 1⟩
  else ⟨serverdDay, serverdEvening, set - eve_time⟩

/-- The state while it is not night. -/
def sunEvent (jd : K) (naut rst : Rst K) (eve_time mor_time : K) : Event K :=
  if rst.set < rst.rise then dayEvent jd rst.rise rst.set eve_time mor_time
  else if naut.rise < rst.rise then ⟨serverdDusk, serverdNight, naut.set⟩
  else ⟨serverdDawn, serverdMorning, rst.rise⟩

/-- The state while it is not night, when the Sun does not rise or set. -/
def nautEvent (jd : K) (naut : Rst K) : Event K :=
  if jd < naut.transit then ⟨serverdDawn, serverdDusk, naut.transit⟩
  else ⟨serverdDusk, serverdNight, naut.set⟩

def Found.times (found : Found K) : Option (Rst K) := do
  return ⟨← found.rise, ← found.transit, ← found.set⟩

/-- The part of `next_event` after the search. -/
def Search.event (s : Search K) (jd eve_time mor_time : K) : Option (Event K) := do
  let naut ← s.rst_naut.times
  if naut.rise ≤ naut.set then return ⟨serverdNight, serverdDawn, naut.rise⟩
  else if s.sun_rs then return sunEvent jd naut (← s.rst.times) eve_time mor_time
  else return nautEvent jd naut

/-- `next_event`, with the offsets of the evening and the morning in seconds. -/
def next_event (sky : Sky K) (in_eve_time in_mor_time : Int) (fuel : Nat) (jd : K) :
    Option (Event K) := do
  let s ← next_naut sky jd fuel
  s.event jd (in_eve_time / 86400) (in_mor_time / 86400)

/-- `next_event` of a time in seconds, with the conversions of the library. -/
def next_event_time (sky : Sky K) (julian : Int → K) (timet : K → Int)
    (in_eve_time in_mor_time : Int) (fuel : Nat) (start_time : Int) :
    Option (Status × Status × Int) :=
  (next_event sky in_eve_time in_mor_time fuel (julian start_time)).map fun r =>
    (r.curr_type, r.type, timet r.time)

end Rts2.RiseSet

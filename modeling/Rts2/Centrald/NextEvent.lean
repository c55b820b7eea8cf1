import Rts2.Centrald.RiseSet

/-! # Walking the states of the day

The search finds the first event of each kind after a time, and these tell the
phase of the day. -/
namespace Rts2.RiseSet
open Rts2.Lib
open Rts2.Status

variable {K : Type} [Field K] [LinearOrder K] [IsStrictOrderedRing K] [FloorRing K]

/-! ## The search -/

/-- The Sun rises and sets every day, and the times of a day come before the second day after
it begins. -/
structure Daily (d : K) (days : ℤ → Int × Rst K) : Prop where
  found : ∀ n, (days n).1 = 0
  rise : Regular d fun n => (days n).2.rise
  transit : Regular d fun n => (days n).2.transit
  set : Regular d fun n => (days n).2.set
  early : ∀ n : ℤ, (days n).2.rise < n + 2 ∧ (days n).2.transit < n + 2 ∧ (days n).2.set < n + 2

/-- What the search knows of an event once it has looked at the day `n`. -/
def Seen (e : ℤ → K) (jd : K) (n : ℤ) : Option K → Prop
  | none => e n ≤ jd
  | some x => IsNext e jd x

/-- What the search knows of a horizon. -/
structure Looked (days : ℤ → Int × Rst K) (jd : K) (n : ℤ) (last : Option (Rst K))
    (found : Found K) : Prop where
  last : last = some (days n).2
  rise : Seen (fun n => (days n).2.rise) jd n found.rise
  transit : Seen (fun n => (days n).2.transit) jd n found.transit
  set : Seen (fun n => (days n).2.set) jd n found.set

/-- The next day to look at is `n`: it is the first, or the day before was looked at. -/
def Ready (days : ℤ → Int × Rst K) (jd : K) (n : ℤ) (last : Option (Rst K)) (found : Found K) :
    Prop :=
  (last = none ∧ found = ⟨none, none, none⟩ ∧ n = ⌊jd⌋ - 2) ∨ Looked days jd (n - 1) last found

section
variable {d jd : K} {e : ℤ → K} {n : ℤ} {days : ℤ → Int × Rst K} {last : Option (Rst K)}
  {found : Found K}

/-- The next day is looked at; no event is missing between the two. -/
theorem Seen.look (he : Regular d e) (hd : d ≤ 1 / 2) {x : Option K} (h : Seen e jd n x) :
    Seen e jd (n + 1) (look jd (e (n + 1)) (some (e n)) x) := by
  have hgap : ¬ 3 / 2 < e (n + 1) - e n := by
    have hstep := he.upper n
    linarith
  unfold RiseSet.look
  simp only [if_neg hgap]
  cases x with
  | some x => exact h
  | none =>
    by_cases hlt : jd < e (n + 1)
    · simp only [Option.isNone_none, hlt, and_self, if_true]
      exact ⟨n, rfl, h, hlt⟩
    · simp only [hlt, and_false, if_false]
      exact not_lt.mp hlt

/-- The first day is too early. -/
theorem seen_first {t : K} (ht : e n = t) (hn : n = ⌊jd⌋ - 2) (hearly : t < n + 2) :
    Seen e jd n (look jd t none none) := by
  have hle : t ≤ jd := by
    have hfloor := Int.floor_le jd
    rw [hn] at hearly
    push_cast at hearly
    linarith
  have hnot : ¬ jd < t := not_lt.mpr hle
  simp only [look, hnot, and_false, if_false]
  exact ht.le.trans hle

theorem Ready.look (h : Ready days jd n last found) (hdaily : Daily d days) (hd : d ≤ 1 / 2) :
    Looked days jd n (some (days n).2) (found.look jd (days n).2 last) := by
  rcases h with ⟨rfl, rfl, hn⟩ | ⟨rfl, hrise, htransit, hset⟩
  · obtain ⟨hrise, htransit, hset⟩ := hdaily.early n
    exact ⟨rfl, seen_first rfl hn hrise, seen_first rfl hn htransit, seen_first rfl hn hset⟩
  · have hnext : n - 1 + 1 = n := by ring
    have hr := hrise.look hdaily.rise hd
    have ht := htransit.look hdaily.transit hd
    have hs := hset.look hdaily.set hd
    rw [hnext] at hr ht hs
    exact ⟨rfl, hr, ht, hs⟩

omit [IsStrictOrderedRing K] in
theorem Looked.ready (h : Looked days jd n last found) : Ready days jd (n + 1) last found :=
  .inr (by simpa using h)

omit [Field K] [IsStrictOrderedRing K] [FloorRing K] in
/-- An event that is later than the time was found. -/
theorem Seen.isSome {x : Option K} (h : Seen e jd n x) (hlt : jd < e n) : x.isSome = true := by
  cases x with
  | some x => rfl
  | none => exact absurd hlt (not_lt.mpr h)

omit [Field K] [IsStrictOrderedRing K] [FloorRing K] in
theorem Looked.all (h : Looked days jd n last found) (hrise : jd < (days n).2.rise)
    (htransit : jd < (days n).2.transit) (hset : jd < (days n).2.set) : found.all = true := by
  simp [Found.all, h.rise.isSome hrise, h.transit.isSome htransit, h.set.isSome hset]

omit [Field K] [IsStrictOrderedRing K] [FloorRing K] in
/-- All times that were found are the next ones. -/
theorem Looked.times (h : Looked days jd n last found) (hall : found.all = true) :
    ∃ t, found.times = some t ∧ IsNext (fun n => (days n).2.rise) jd t.rise ∧
      IsNext (fun n => (days n).2.set) jd t.set := by
  obtain ⟨rise, transit, set⟩ := found
  simp only [Found.all, Bool.and_eq_true, Option.isSome_iff_exists] at hall
  obtain ⟨⟨⟨r, rfl⟩, ⟨t, rfl⟩⟩, ⟨s, rfl⟩⟩ := hall
  exact ⟨⟨r, t, s⟩, rfl, h.rise, h.set⟩

end

section
variable {d jd : K} {sky : Sky K}

/-- Both horizons were looked at. -/
structure Searched (sky : Sky K) (jd : K) (n : ℤ) (s : Search K) : Prop where
  naut : Looked sky.night jd n s.last_naut s.rst_naut
  rst : Looked sky.day jd n s.last_rst s.rst
  sun_rs : s.sun_rs = true
  sun_naut : s.sun_naut = 0

/-- A turn of the loop. -/
theorem searched_turn {n : ℤ} {s : Search K} (hnight : Daily d sky.night)
    (hday : Daily d sky.day) (hd : d ≤ 1 / 2) (hnaut : Ready sky.night jd n s.last_naut s.rst_naut)
    (hrst : Ready sky.day jd n s.last_rst s.rst) :
    Searched sky jd n ((s.lookNaut jd (sky.night n)).lookRst jd (sky.day n)) := by
  simp only [Search.lookRst, Search.lookNaut, hday.found n, if_true]
  exact ⟨hnaut.look hnight hd, hrst.look hday hd, rfl, hnight.found n⟩

/-- The search ends once the events of a day are later than the time. -/
theorem searchFrom_ends (hnight : Daily d sky.night) (hday : Daily d sky.day) (hd : d ≤ 1 / 2)
    {last : ℤ} (hlast : ∀ s, Searched sky jd last s → s.goesOn = false) (j : ℕ) :
    ∀ (n : ℤ) (t_jd : K) (s : Search K), n + j = last → ⌊t_jd⌋ = n →
      Ready sky.night jd n s.last_naut s.rst_naut → Ready sky.day jd n s.last_rst s.rst →
      ∃ s' n', searchFrom sky jd (j + 1) t_jd s = some s' ∧ Searched sky jd n' s' ∧
        s'.goesOn = false := by
  induction j with
  | zero =>
    intro n t_jd s hn hfloor hnaut hrst
    have hsearched := searched_turn hnight hday hd hnaut hrst
    have hends := hlast _ (by simpa [← hn] using hsearched)
    exact ⟨_, n, by simp [searchFrom, hfloor, hends], hsearched, hends⟩
  | succ j ih =>
    intro n t_jd s hn hfloor hnaut hrst
    have hsearched := searched_turn hnight hday hd hnaut hrst
    rw [searchFrom, hfloor]
    generalize (s.lookNaut jd (sky.night n)).lookRst jd (sky.day n) = s₁ at hsearched
    cases hgoes : s₁.goesOn with
    | false => exact ⟨s₁, n, rfl, hsearched, hgoes⟩
    | true =>
      refine ih (n + 1) (t_jd + 1) s₁ ?_ ?_ hsearched.naut.ready hsearched.rst.ready
      · push_cast at hn
        omega
      · rw [Int.floor_add_one, hfloor]

omit [IsStrictOrderedRing K] in
/-- More turns do not change what was found. -/
theorem searchFrom_mono {fuel : Nat} {t_jd : K} {s s' : Search K}
    (h : searchFrom sky jd fuel t_jd s = some s') (k : Nat) :
    searchFrom sky jd (fuel + k) t_jd s = some s' := by
  induction fuel generalizing t_jd s with
  | zero => cases h
  | succ fuel ih =>
    rw [Nat.succ_add, searchFrom]
    rw [searchFrom] at h
    split at h
    · rename_i hgoes
      rw [if_pos hgoes]
      exact ih h
    · rename_i hends
      rw [if_neg hends]
      exact h

/-- All events of some day are later than the time. -/
theorem exists_late (jd : K) (hnight : Daily d sky.night) (hday : Daily d sky.day) (hd : d ≤ 1 / 2) :
    ∃ j : ℕ, ∀ s, Searched sky jd (⌊jd⌋ - 2 + j) s → s.goesOn = false := by
  have hd1 : d < 1 := by linarith
  have hlate : ∀ {e : ℤ → K}, Regular d e → ∃ j : ℕ, ∀ i : ℕ, j ≤ i → jd < e (⌊jd⌋ - 2 + i) := by
    intro e he
    obtain ⟨j, hj⟩ := he.exists_gt hd1 (⌊jd⌋ - 2) jd
    refine ⟨j, fun i hi => hj.trans_le ((he.strictMono hd1).monotone ?_)⟩
    have hcast : (j : ℤ) ≤ i := Int.ofNat_le.mpr hi
    omega
  obtain ⟨a, ha⟩ := hlate hnight.rise
  obtain ⟨b, hb⟩ := hlate hnight.transit
  obtain ⟨c, hc⟩ := hlate hnight.set
  obtain ⟨a', ha'⟩ := hlate hday.rise
  obtain ⟨b', hb'⟩ := hlate hday.transit
  obtain ⟨c', hc'⟩ := hlate hday.set
  refine ⟨a + b + c + (a' + b' + c'), fun s hs => ?_⟩
  have hnaut := hs.naut.all (ha _ (by omega)) (hb _ (by omega)) (hc _ (by omega))
  have hrst := hs.rst.all (ha' _ (by omega)) (hb' _ (by omega)) (hc' _ (by omega))
  simp [Search.goesOn, hs.sun_naut, hnaut, hrst]

/-- The search finds the next event of each kind. -/
theorem next_naut_finds (jd : K) (hnight : Daily d sky.night) (hday : Daily d sky.day) (hd : d ≤ 1 / 2) :
    ∃ fuel s naut rst, next_naut sky jd fuel = some s ∧ s.sun_rs = true ∧
      s.rst_naut.times = some naut ∧ s.rst.times = some rst ∧
      IsNext (fun n => (sky.night n).2.rise) jd naut.rise ∧
      IsNext (fun n => (sky.night n).2.set) jd naut.set ∧
      IsNext (fun n => (sky.day n).2.rise) jd rst.rise ∧
      IsNext (fun n => (sky.day n).2.set) jd rst.set := by
  obtain ⟨j, hj⟩ := exists_late jd hnight hday hd
  have hfloor : ⌊jd - 2⌋ = ⌊jd⌋ - 2 := Int.floor_sub_ofNat jd 2
  obtain ⟨s, n, hs, hsearched, hends⟩ := searchFrom_ends hnight hday hd hj j (⌊jd⌋ - 2) (jd - 2)
    .start rfl hfloor (.inl ⟨rfl, rfl, rfl⟩) (.inl ⟨rfl, rfl, rfl⟩)
  simp only [Search.goesOn, hsearched.sun_rs, Bool.and_true, Bool.or_eq_false_iff,
    Bool.not_eq_false'] at hends
  obtain ⟨naut, hnaut, hrise, hset⟩ := hsearched.naut.times hends.1.2
  obtain ⟨rst, hrst, hrise', hset'⟩ := hsearched.rst.times hends.2
  exact ⟨j + 1, s, naut, rst, hs, hsearched.sun_rs, hnaut, hrst, hrise, hset, hrise', hset'⟩

end
end Rts2.RiseSet

import Rts2.Centrald.NextEvent

/-! # The cycle of the states

Dawn, morning, day, evening, dusk and night follow each other between the events
of the Sun. A morning that would end after the evening begins breaks the cycle. -/
namespace Rts2.RiseSet
open Rts2.Lib
open Rts2.Status

variable {K : Type} [Field K] [LinearOrder K] [IsStrictOrderedRing K] [FloorRing K]

/-! ## The Sun -/

/-- The events of the Sun, numbered from dawn to dawn. -/
structure Sun (K : Type) where
  dawn : ℤ → K
  sunrise : ℤ → K
  sunset : ℤ → K
  dusk : ℤ → K

/-- The days of the sky show the events of the Sun, which alternate. -/
structure Shows (sky : Sky K) (sun : Sun K) : Prop where
  dawn : ∃ a, ∀ n, (sky.night n).2.rise = sun.dawn (n + a)
  sunrise : ∃ a, ∀ n, (sky.day n).2.rise = sun.sunrise (n + a)
  sunset : ∃ a, ∀ n, (sky.day n).2.set = sun.sunset (n + a)
  dusk : ∃ a, ∀ n, (sky.night n).2.set = sun.dusk (n + a)
  dawn_lt : ∀ k, sun.dawn k < sun.sunrise k
  sunrise_lt : ∀ k, sun.sunrise k < sun.sunset k
  sunset_lt : ∀ k, sun.sunset k < sun.dusk k
  dusk_lt : ∀ k, sun.dusk k < sun.dawn (k + 1)

/-- An observer: successive events are between `1 - d` and `1 + d` days apart, and the offsets
are larger than `d` and shorter than the day. -/
structure Observer (sky : Sky K) (sun : Sun K) (d eve mor : K) : Prop where
  night : Daily d sky.night
  day : Daily d sky.day
  shows : Shows sky sun
  eve_gt : d < eve
  eve_lt : ∀ k, eve < sun.sunset k - sun.sunrise k
  mor_gt : d < mor
  mor_lt : ∀ k, mor < sun.sunset k - sun.sunrise k

/-! ## What is reported -/

/-- `next_event` returns `r` for the time `jd`. -/
def Reports (sky : Sky K) (in_eve_time in_mor_time : Int) (jd : K) (r : Event K) : Prop :=
  ∃ fuel, next_event sky in_eve_time in_mor_time fuel jd = some r

/-- The state after another. -/
def following (s : Status) : Status :=
  if s = serverdMorning then serverdDay else s + 1

/-- The event is not before the time, the next state follows the current one, and it is the
current state just after the event. -/
def Walks (sky : Sky K) (in_eve_time in_mor_time : Int) (jd : K) : Prop :=
  ∃ r, Reports sky in_eve_time in_mor_time jd r ∧ jd ≤ r.time ∧
    r.type = following r.curr_type ∧ ∃ ε > 0, ∀ t, r.time < t → t < r.time + ε →
      ∃ r', Reports sky in_eve_time in_mor_time t r' ∧ r'.curr_type = r.type

/-- Repeated calls, each just after the event of the one before: the state that it reports is
reported from the event on. -/
structure Calls (sky : Sky K) (in_eve_time in_mor_time : Int) (jd : ℕ → K) (r : ℕ → Event K) :
    Prop where
  reports : ∀ n, Reports sky in_eve_time in_mor_time (jd n) (r n)
  after : ∀ n, (r n).time < jd (n + 1)
  just : ∀ n t r', (r n).time < t → t ≤ jd (n + 1) → Reports sky in_eve_time in_mor_time t r' →
    r'.curr_type = (r (n + 1)).curr_type

/-- The morning that it is ends before the evening begins. -/
def MorningEnds (sun : Sun K) (eve mor jd : K) : Prop :=
  ∀ k, sun.sunrise k ≤ jd → jd ≤ sun.sunset k - eve → jd < sun.sunrise (k + 1) + mor - 1 →
    sun.sunrise (k + 1) + mor - 1 < sun.sunset k - eve

section
variable {sky : Sky K} {sun : Sun K} {d jd : K} {in_eve_time in_mor_time : Int}

omit [IsStrictOrderedRing K] in
theorem Reports.unique {r r' : Event K} (h : Reports sky in_eve_time in_mor_time jd r)
    (h' : Reports sky in_eve_time in_mor_time jd r') : r = r' := by
  obtain ⟨fuel, hr⟩ := h
  obtain ⟨fuel', hr'⟩ := h'
  simp only [next_event, Option.bind_eq_bind, Option.bind_eq_some_iff] at hr hr'
  obtain ⟨s, hs, hr⟩ := hr
  obtain ⟨s', hs', hr'⟩ := hr'
  have hmore := searchFrom_mono hs fuel'
  have hmore' := searchFrom_mono hs' fuel
  rw [Nat.add_comm, hmore] at hmore'
  obtain rfl := Option.some.inj hmore'
  exact Option.some.inj (hr.symm.trans hr')

/-- What is reported when the next events are known. -/
def reading (jd dawn sunrise sunset dusk eve mor : K) : Event K :=
  if dawn ≤ dusk then ⟨serverdNight, serverdDawn, dawn⟩
  else sunEvent jd ⟨dawn, 0, dusk⟩ ⟨sunrise, 0, sunset⟩ eve mor

variable (hobserver : Observer sky sun d (in_eve_time / 86400) (in_mor_time / 86400))
  (hd : d ≤ 1 / 2)
include hobserver hd

theorem strictMono : StrictMono sun.dawn ∧ StrictMono sun.sunrise ∧ StrictMono sun.sunset ∧
    StrictMono sun.dusk := by
  have hd1 : d < 1 := by linarith
  obtain ⟨a, ha⟩ := hobserver.shows.dawn
  obtain ⟨b, hb⟩ := hobserver.shows.sunrise
  obtain ⟨c, hc⟩ := hobserver.shows.sunset
  obtain ⟨e, he⟩ := hobserver.shows.dusk
  have hdawn := hobserver.night.rise
  have hsunrise := hobserver.day.rise
  have hsunset := hobserver.day.set
  have hdusk := hobserver.night.set
  simp only [ha] at hdawn
  simp only [hb] at hsunrise
  simp only [hc] at hsunset
  simp only [he] at hdusk
  exact ⟨hdawn.of_shift.strictMono hd1, hsunrise.of_shift.strictMono hd1,
    hsunset.of_shift.strictMono hd1, hdusk.of_shift.strictMono hd1⟩

/-- What is reported depends on the next events only. -/
theorem reports_reading (jd : K) {dawn sunrise sunset dusk : K} (hdawn : IsNext sun.dawn jd dawn)
    (hsunrise : IsNext sun.sunrise jd sunrise) (hsunset : IsNext sun.sunset jd sunset)
    (hdusk : IsNext sun.dusk jd dusk) :
    Reports sky in_eve_time in_mor_time jd
      (reading jd dawn sunrise sunset dusk (in_eve_time / 86400) (in_mor_time / 86400)) := by
  obtain ⟨a, ha⟩ := hobserver.shows.dawn
  obtain ⟨b, hb⟩ := hobserver.shows.sunrise
  obtain ⟨c, hc⟩ := hobserver.shows.sunset
  obtain ⟨e, he⟩ := hobserver.shows.dusk
  obtain ⟨mdawn, msunrise, msunset, mdusk⟩ := strictMono hobserver hd
  obtain ⟨fuel, s, naut, rst, hs, hsun, hnaut, hrst, h1, h2, h3, h4⟩ :=
    next_naut_finds jd hobserver.night hobserver.day hd
  simp only [ha] at h1
  simp only [he] at h2
  simp only [hb] at h3
  simp only [hc] at h4
  have hr1 := h1.of_shift.unique mdawn hdawn
  have hr2 := h2.of_shift.unique mdusk hdusk
  have hr3 := h3.of_shift.unique msunrise hsunrise
  have hr4 := h4.of_shift.unique msunset hsunset
  refine ⟨fuel, ?_⟩
  simp only [next_event, hs, Search.event, hnaut, hrst, hsun, Option.bind_eq_bind,
    Option.bind_some, if_true, reading, sunEvent, hr1, hr2, hr3, hr4]
  split <;> rfl

/-! ## Phases -/

omit [IsStrictOrderedRing K] [FloorRing K] hd in
/-- The order of the events of one cycle, and the night before it. -/
theorem order (k : ℤ) : sun.dawn k < sun.sunrise k ∧ sun.sunrise k < sun.sunset k ∧
    sun.sunset k < sun.dusk k ∧ sun.dusk k < sun.dawn (k + 1) ∧ sun.dusk (k - 1) < sun.dawn k := by
  have hbefore := hobserver.shows.dusk_lt (k - 1)
  rw [sub_add_cancel] at hbefore
  exact ⟨hobserver.shows.dawn_lt k, hobserver.shows.sunrise_lt k, hobserver.shows.sunset_lt k,
    hobserver.shows.dusk_lt k, hbefore⟩

theorem reports_night {k : ℤ} (hl : sun.dusk k ≤ jd) (hu : jd < sun.dawn (k + 1)) :
    Reports sky in_eve_time in_mor_time jd ⟨serverdNight, serverdDawn, sun.dawn (k + 1)⟩ := by
  obtain ⟨h1, h2, h3, -, -⟩ := order hobserver k
  obtain ⟨h1', h2', h3', -, -⟩ := order hobserver (k + 1)
  have hreports := reports_reading hobserver hd jd
    ⟨k, rfl, by linarith, hu⟩ ⟨k, rfl, by linarith, by linarith⟩
    ⟨k, rfl, by linarith, by linarith⟩ ⟨k, rfl, hl, by linarith⟩
  rwa [reading, if_pos (by linarith)] at hreports

theorem reports_dawn {k : ℤ} (hl : sun.dawn k ≤ jd) (hu : jd < sun.sunrise k) :
    Reports sky in_eve_time in_mor_time jd ⟨serverdDawn, serverdMorning, sun.sunrise k⟩ := by
  obtain ⟨h1, h2, h3, h4, h5⟩ := order hobserver k
  obtain ⟨b1, b2, b3, -, -⟩ := order hobserver (k - 1)
  have hk : k - 1 + 1 = k := sub_add_cancel k 1
  have hreports := reports_reading hobserver hd jd
    ⟨k, rfl, hl, by linarith⟩ ⟨k - 1, rfl, by linarith, by rw [hk]; exact hu⟩
    ⟨k - 1, rfl, by linarith, by rw [hk]; linarith⟩ ⟨k - 1, rfl, by linarith, by rw [hk]; linarith⟩
  rwa [hk, reading, if_neg (by linarith), sunEvent, if_neg (by linarith [hk]),
    if_neg (by linarith)] at hreports

theorem reports_day {k : ℤ} (hl : sun.sunrise k ≤ jd) (hu : jd < sun.sunset k) :
    Reports sky in_eve_time in_mor_time jd
      (dayEvent jd (sun.sunrise (k + 1)) (sun.sunset k) (in_eve_time / 86400)
        (in_mor_time / 86400)) := by
  obtain ⟨h1, h2, h3, h4, h5⟩ := order hobserver k
  obtain ⟨a1, -, -, -, -⟩ := order hobserver (k + 1)
  obtain ⟨-, -, b3, -, -⟩ := order hobserver (k - 1)
  have hk : k - 1 + 1 = k := sub_add_cancel k 1
  have hreports := reports_reading hobserver hd jd
    ⟨k, rfl, by linarith, by linarith⟩ ⟨k, rfl, hl, by linarith⟩
    ⟨k - 1, rfl, by linarith, by rw [hk]; exact hu⟩ ⟨k - 1, rfl, by linarith, by rw [hk]; linarith⟩
  rwa [hk, reading, if_neg (by linarith), sunEvent, if_pos (by linarith)] at hreports

theorem reports_dusk {k : ℤ} (hl : sun.sunset k ≤ jd) (hu : jd < sun.dusk k) :
    Reports sky in_eve_time in_mor_time jd ⟨serverdDusk, serverdNight, sun.dusk k⟩ := by
  obtain ⟨h1, h2, h3, h4, h5⟩ := order hobserver k
  obtain ⟨a1, a2, -, -, -⟩ := order hobserver (k + 1)
  have hk : k - 1 + 1 = k := sub_add_cancel k 1
  have hreports := reports_reading hobserver hd jd
    ⟨k, rfl, by linarith, by linarith⟩ ⟨k, rfl, by linarith, by linarith⟩
    ⟨k, rfl, hl, by linarith⟩ ⟨k - 1, rfl, by linarith, by rw [hk]; exact hu⟩
  rwa [hk, reading, if_neg (by linarith), sunEvent, if_neg (by linarith),
    if_pos (by linarith)] at hreports

/-- Every time is in one of the phases. -/
theorem phases (t : K) : ∃ k, (sun.dawn k ≤ t ∧ t < sun.sunrise k) ∨
    (sun.sunrise k ≤ t ∧ t < sun.sunset k) ∨ (sun.sunset k ≤ t ∧ t < sun.dusk k) ∨
    (sun.dusk k ≤ t ∧ t < sun.dawn (k + 1)) := by
  have hdawn := hobserver.night.rise
  obtain ⟨a, ha⟩ := hobserver.shows.dawn
  simp only [ha] at hdawn
  obtain ⟨k, hl, hu⟩ := hdawn.of_shift.exists_between (by linarith) t
  refine ⟨k, ?_⟩
  rcases lt_or_ge t (sun.sunrise k) with hsunrise | hsunrise
  · exact .inl ⟨hl, hsunrise⟩
  rcases lt_or_ge t (sun.sunset k) with hsunset | hsunset
  · exact .inr (.inl ⟨hsunrise, hsunset⟩)
  rcases lt_or_ge t (sun.dusk k) with hdusk | hdusk
  · exact .inr (.inr (.inl ⟨hsunset, hdusk⟩))
  · exact .inr (.inr (.inr ⟨hdusk, hu⟩))

theorem reports_evening {k : ℤ} (hl : sun.sunrise k ≤ jd) (hu : jd < sun.sunset k)
    (heve : sun.sunset k - in_eve_time / 86400 < jd) :
    Reports sky in_eve_time in_mor_time jd ⟨serverdEvening, serverdDusk, sun.sunset k⟩ := by
  have hreports := reports_day hobserver hd hl hu
  rwa [dayEvent, if_pos heve] at hreports

theorem reports_morning {k : ℤ} (hl : sun.sunrise k ≤ jd) (hu : jd < sun.sunset k)
    (heve : jd ≤ sun.sunset k - in_eve_time / 86400)
    (hmor : jd < sun.sunrise (k + 1) + in_mor_time / 86400 - 1) :
    Reports sky in_eve_time in_mor_time jd
      ⟨serverdMorning, serverdDay, sun.sunrise (k + 1) + in_mor_time / 86400 - 1⟩ := by
  have hreports := reports_day hobserver hd hl hu
  rwa [dayEvent, if_neg (not_lt.mpr heve), if_pos hmor] at hreports

theorem reports_noon {k : ℤ} (hl : sun.sunrise k ≤ jd) (hu : jd < sun.sunset k)
    (heve : jd ≤ sun.sunset k - in_eve_time / 86400)
    (hmor : sun.sunrise (k + 1) + in_mor_time / 86400 - 1 ≤ jd) :
    Reports sky in_eve_time in_mor_time jd
      ⟨serverdDay, serverdEvening, sun.sunset k - in_eve_time / 86400⟩ := by
  have hreports := reports_day hobserver hd hl hu
  rwa [dayEvent, if_neg (not_lt.mpr heve), if_neg (not_lt.mpr hmor)] at hreports

/-- It is day only between the end of a morning and the evening. -/
theorem reports_serverdDay {t : K} {r : Event K}
    (h : Reports sky in_eve_time in_mor_time t r) (hday : r.curr_type = serverdDay) :
    ∃ k, t ≤ sun.sunset k - in_eve_time / 86400 ∧
      sun.sunrise (k + 1) + in_mor_time / 86400 - 1 ≤ t := by
  obtain ⟨k, ⟨hl, hu⟩ | ⟨hl, hu⟩ | ⟨hl, hu⟩ | ⟨hl, hu⟩⟩ := phases hobserver hd t
  · rw [h.unique (reports_dawn hobserver hd hl hu)] at hday
    exact absurd hday (show serverdDawn ≠ serverdDay by decide)
  · rcases lt_or_ge (sun.sunset k - in_eve_time / 86400) t with heve | heve
    · rw [h.unique (reports_evening hobserver hd hl hu heve)] at hday
      exact absurd hday (show serverdEvening ≠ serverdDay by decide)
    rcases lt_or_ge t (sun.sunrise (k + 1) + in_mor_time / 86400 - 1) with hmor | hmor
    · rw [h.unique (reports_morning hobserver hd hl hu heve hmor)] at hday
      exact absurd hday (show serverdMorning ≠ serverdDay by decide)
    · exact ⟨k, heve, hmor⟩
  · rw [h.unique (reports_dusk hobserver hd hl hu)] at hday
    exact absurd hday (show serverdDusk ≠ serverdDay by decide)
  · rw [h.unique (reports_night hobserver hd hl hu)] at hday
    exact absurd hday (show serverdNight ≠ serverdDay by decide)

/-! ## The cycle -/

omit hd in
/-- The Sun rises about a day after it rose, so a morning has some length. -/
theorem sunrise_step (k : ℤ) : sun.sunrise k < sun.sunrise (k + 1) + in_mor_time / 86400 - 1 := by
  obtain ⟨a, ha⟩ := hobserver.shows.sunrise
  have hregular := hobserver.day.rise
  simp only [ha] at hregular
  have hlower := hregular.of_shift.lower k
  have hmor := hobserver.mor_gt
  linarith

omit hd in
theorem offsets_pos : (0 : K) < in_eve_time / 86400 ∧ (0 : K) < in_mor_time / 86400 := by
  have hlower := hobserver.day.rise.lower 0
  have hupper := hobserver.day.rise.upper 0
  have heve := hobserver.eve_gt
  have hmor := hobserver.mor_gt
  constructor <;> linarith

theorem walks_of_morningEnds
    (h : MorningEnds sun (in_eve_time / 86400) (in_mor_time / 86400) jd) :
    Walks sky in_eve_time in_mor_time jd := by
  obtain ⟨heve_pos, hmor_pos⟩ := offsets_pos hobserver
  obtain ⟨k, ⟨hl, hu⟩ | ⟨hl, hu⟩ | ⟨hl, hu⟩ | ⟨hl, hu⟩⟩ := phases hobserver hd jd
  · -- dawn: the morning begins at the sunrise
    have heve := hobserver.eve_lt k
    have hstep := sunrise_step hobserver k
    refine ⟨_, reports_dawn hobserver hd hl hu, hu.le, rfl,
      min (sun.sunset k - in_eve_time / 86400 - sun.sunrise k)
        (sun.sunrise (k + 1) + in_mor_time / 86400 - 1 - sun.sunrise k),
      lt_min (by linarith) (by linarith), fun t ht ht' => ?_⟩
    have hbound := lt_min_iff.mp (sub_left_lt_of_lt_add ht')
    exact ⟨_, reports_morning hobserver hd ht.le (by linarith) (by linarith) (by linarith), rfl⟩
  · rcases lt_or_ge (sun.sunset k - in_eve_time / 86400) jd with heve | heve
    · -- evening
      have hdusk := (order hobserver k).2.2.1
      refine ⟨_, reports_evening hobserver hd hl hu heve, hu.le, rfl, sun.dusk k - sun.sunset k,
        by linarith, fun t ht ht' => ?_⟩
      exact ⟨_, reports_dusk hobserver hd ht.le (by linarith), rfl⟩
    rcases lt_or_ge jd (sun.sunrise (k + 1) + in_mor_time / 86400 - 1) with hmor | hmor
    · -- morning
      have hends := h k hl heve hmor
      refine ⟨_, reports_morning hobserver hd hl hu heve hmor, hmor.le, rfl,
        sun.sunset k - in_eve_time / 86400 - (sun.sunrise (k + 1) + in_mor_time / 86400 - 1),
        by linarith, fun t ht ht' => ?_⟩
      exact ⟨_, reports_noon hobserver hd (by linarith) (by linarith) (by linarith) ht.le, rfl⟩
    · -- day
      refine ⟨_, reports_noon hobserver hd hl hu heve hmor, heve, rfl, in_eve_time / 86400,
        heve_pos, fun t ht ht' => ?_⟩
      exact ⟨_, reports_evening hobserver hd (by linarith) (by linarith) ht, rfl⟩
  · -- dusk
    have hdawn := (order hobserver k).2.2.2.1
    refine ⟨_, reports_dusk hobserver hd hl hu, hu.le, rfl, sun.dawn (k + 1) - sun.dusk k,
      by linarith, fun t ht ht' => ?_⟩
    exact ⟨_, reports_night hobserver hd ht.le (by linarith), rfl⟩
  · -- night
    have hsunrise := (order hobserver (k + 1)).1
    refine ⟨_, reports_night hobserver hd hl hu, hu.le, rfl,
      sun.sunrise (k + 1) - sun.dawn (k + 1), by linarith, fun t ht ht' => ?_⟩
    exact ⟨_, reports_dawn hobserver hd ht.le (by linarith), rfl⟩

/-- A morning that is still there when the evening begins is not followed by the day. -/
theorem morningEnds_of_walks (h : Walks sky in_eve_time in_mor_time jd) :
    MorningEnds sun (in_eve_time / 86400) (in_mor_time / 86400) jd := by
  intro k hl heve hmor
  by_contra hlate
  rw [not_lt] at hlate
  obtain ⟨heve_pos, hmor_pos⟩ := offsets_pos hobserver
  obtain ⟨-, msunrise, msunset, -⟩ := strictMono hobserver hd
  obtain ⟨r, hr, -, -, ε, hε, hnext⟩ := h
  rw [hr.unique (reports_morning hobserver hd hl (by linarith) heve hmor)] at hnext
  -- a time just after the end of the morning, still in the morning of the next day
  have hlater := msunrise (show k + 1 < k + 1 + 1 by omega)
  have hgap : 0 < min ε (sun.sunrise (k + 1 + 1) - sun.sunrise (k + 1)) :=
    lt_min hε (by linarith)
  have hle := min_le_left ε (sun.sunrise (k + 1 + 1) - sun.sunrise (k + 1))
  have hle' := min_le_right ε (sun.sunrise (k + 1 + 1) - sun.sunrise (k + 1))
  generalize min ε (sun.sunrise (k + 1 + 1) - sun.sunrise (k + 1)) = δ at hgap hle hle'
  obtain ⟨r', hr', hday⟩ := hnext (sun.sunrise (k + 1) + in_mor_time / 86400 - 1 + δ / 2)
    (by simp only; linarith) (by simp only; linarith)
  obtain ⟨j, hj, hj'⟩ := reports_serverdDay hobserver hd hr' hday
  rcases lt_or_ge k j with hkj | hkj
  · have hmono := msunrise.monotone (show k + 1 + 1 ≤ j + 1 by omega)
    linarith
  · have hmono := msunset.monotone hkj
    linarith

/-- Repeated calls walk the states. -/
theorem calls_walk {jds : ℕ → K} {r : ℕ → Event K}
    (h : Calls sky in_eve_time in_mor_time jds r)
    (hends : ∀ n, MorningEnds sun (in_eve_time / 86400) (in_mor_time / 86400) (jds n)) (n : ℕ) :
    jds n ≤ (r n).time ∧ (r n).type = following (r n).curr_type ∧
      (r (n + 1)).curr_type = (r n).type := by
  obtain ⟨r', hr', hle, htype, ε, hε, hnext⟩ := walks_of_morningEnds hobserver hd (hends n)
  obtain rfl := hr'.unique (h.reports n)
  refine ⟨hle, htype, ?_⟩
  have hafter := h.after n
  have hlt : (r n).time < min (jds (n + 1)) ((r n).time + ε / 2) :=
    lt_min hafter (by linarith)
  have hle := min_le_left (jds (n + 1)) ((r n).time + ε / 2)
  have hle' := min_le_right (jds (n + 1)) ((r n).time + ε / 2)
  obtain ⟨r', hr', hcurr⟩ := hnext _ hlt (by linarith)
  exact (h.just n _ r' hlt hle hr').symm.trans hcurr

end

/-- For every observer the states follow each other as they are announced exactly if the
morning ends before the evening begins; and so do those of repeated calls. -/
theorem next_event_walks_iff (sky : Sky K) (sun : Sun K) (d : K) (in_eve_time in_mor_time : Int)
    (hobserver : Observer sky sun d (in_eve_time / 86400) (in_mor_time / 86400))
    (hd : d ≤ 1 / 2) :
    (∀ jd, Walks sky in_eve_time in_mor_time jd ↔
      MorningEnds sun (in_eve_time / 86400) (in_mor_time / 86400) jd) ∧
    ∀ jds r, Calls sky in_eve_time in_mor_time jds r →
      (∀ n, MorningEnds sun (in_eve_time / 86400) (in_mor_time / 86400) (jds n)) →
      ∀ n, jds n ≤ (r n).time ∧ (r n).type = following (r n).curr_type ∧
        (r (n + 1)).curr_type = (r n).type := by
  refine ⟨fun jd => ⟨morningEnds_of_walks hobserver hd, walks_of_morningEnds hobserver hd⟩, ?_⟩
  intro jds r hcalls hends n
  exact calls_walk hobserver hd hcalls hends n

/-! ## Days of one length -/

/-- Every day the Sun is above the horizon from `h` days before the middle of the day until `h`
days after it. -/
def evenSun (h : ℚ) : Sun ℚ where
  dawn k := k + (1 / 2 - h - 1 / 16)
  sunrise k := k + (1 / 2 - h)
  sunset k := k + (1 / 2 + h)
  dusk k := k + (1 / 2 + h + 1 / 16)

def evenSky (h : ℚ) : Sky ℚ where
  night n := (0, ⟨(evenSun h).dawn n, n + 1 / 2, (evenSun h).dusk n⟩)
  day n := (0, ⟨(evenSun h).sunrise n, n + 1 / 2, (evenSun h).sunset n⟩)

theorem regular_add (c : ℚ) : Regular 0 fun n : ℤ => (n : ℚ) + c := by
  constructor
  · intro k
    push_cast
    linarith
  · intro k
    push_cast
    linarith

theorem evenSky_observer {h : ℚ} {eve mor : ℚ} (hpos : 0 < h) (hh : h < 3 / 8) (heve : 0 < eve)
    (heve' : eve < 2 * h) (hmor : 0 < mor) (hmor' : mor < 2 * h) :
    Observer (evenSky h) (evenSun h) 0 eve mor := by
  refine ⟨⟨fun n => rfl, regular_add _, regular_add _, regular_add _, fun n => ?_⟩,
    ⟨fun n => rfl, regular_add _, regular_add _, regular_add _, fun n => ?_⟩, ?_,
    heve, fun k => ?_, hmor, fun k => ?_⟩
  · refine ⟨?_, ?_, ?_⟩ <;> simp only [evenSky, evenSun] <;> linarith
  · refine ⟨?_, ?_, ?_⟩ <;> simp only [evenSky, evenSun] <;> linarith
  · refine ⟨⟨0, fun n => ?_⟩, ⟨0, fun n => ?_⟩, ⟨0, fun n => ?_⟩, ⟨0, fun n => ?_⟩, fun k => ?_,
      fun k => ?_, fun k => ?_, fun k => ?_⟩
    · simp [evenSky]
    · simp [evenSky]
    · simp [evenSky]
    · simp [evenSky]
    · simp only [evenSun]
      linarith
    · simp only [evenSun]
      linarith
    · simp only [evenSun]
      linarith
    · simp only [evenSun]
      push_cast
      linarith
  · simp only [evenSun]
    linarith
  · simp only [evenSun]
    linarith

/-- Twelve hours of day with an evening and a morning of two hours. -/
theorem next_event_walks_iff_twelve : Walks (evenSky (1 / 4)) 7200 7200 (3 / 10) := by
  have hobserver : Observer (evenSky (1 / 4)) (evenSun (1 / 4)) 0 (((7200 : Int) : ℚ) / 86400)
      (((7200 : Int) : ℚ) / 86400) :=
    evenSky_observer (by norm_num) (by norm_num) (by norm_num) (by norm_num) (by norm_num)
      (by norm_num)
  refine ((next_event_walks_iff _ _ 0 7200 7200 hobserver (by norm_num)).1 _).mpr ?_
  intro k hl heve hmor
  simp only [evenSun]
  push_cast
  linarith

/-- Three hours of day with an evening and a morning of two hours: the morning announces the
day, but the evening follows. -/
theorem next_event_skips_day :
    Observer (evenSky (1 / 16)) (evenSun (1 / 16)) 0 (((7200 : Int) : ℚ) / 86400)
      (((7200 : Int) : ℚ) / 86400) ∧ ¬ Walks (evenSky (1 / 16)) 7200 7200 (9 / 20) := by
  have hobserver : Observer (evenSky (1 / 16)) (evenSun (1 / 16)) 0 (((7200 : Int) : ℚ) / 86400)
      (((7200 : Int) : ℚ) / 86400) :=
    evenSky_observer (by norm_num) (by norm_num) (by norm_num) (by norm_num) (by norm_num)
      (by norm_num)
  refine ⟨hobserver, fun hwalks => ?_⟩
  have hends := morningEnds_of_walks hobserver (by norm_num) hwalks 0
  norm_num [evenSun] at hends

end Rts2.RiseSet

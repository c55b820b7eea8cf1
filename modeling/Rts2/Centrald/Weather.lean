import Rts2.Centrald.Conditions
import Mathlib.Data.List.Count
import Mathlib.Data.List.Pairwise
import Mathlib.Data.List.Perm.Basic

/-! # When the central daemon reports good weather

`weatherChanged` keeps names still required and names of bad devices in one list
and identifies connections by name. Its answer is right when the names it meets
tell connections apart; a client may choose its name freely, and then it is not. -/
namespace Rts2.Centrald
open Rts2.Lib

/-! ## The loop -/

section
variable {inOrder : ConnCentrald → Bool}

/-- A connection that takes its name out of the list. -/
def Clears (inOrder : ConnCentrald → Bool) (c : ConnCentrald) : Prop :=
  inOrder c = true ∧ c.connState = .connConnected

instance (c : ConnCentrald) : Decidable (Clears inOrder c) :=
  inferInstanceAs (Decidable (_ ∧ _))

/-- With every connection in order, each connected one takes its name out once. -/
theorem count_failedDevices {connections : List ConnCentrald}
    (hall : ∀ c ∈ connections, inOrder c = true) (required : List String) (name : String) :
    (failedDevices inOrder required connections).count name =
      required.count name -
        connections.countP fun c => c.name = name ∧ c.connState = .connConnected := by
  induction connections generalizing required with
  | nil => simp [failedDevices]
  | cons c connections ih =>
    obtain ⟨hc, hall⟩ := List.forall_mem_cons.1 hall
    have hstep : (checkConnection inOrder required c).count name =
        required.count name - if c.name = name ∧ c.connState = .connConnected then 1 else 0 := by
      unfold checkConnection
      by_cases hmem : c.name ∈ required
      · by_cases hconn : c.connState = .connConnected
        · simp only [hmem, hc, hconn, and_self, if_true, List.count_erase, and_true, beq_iff_eq]
        · simp [hmem, hconn]
      · have hcount : c.name = name → required.count name = 0 :=
          fun hname => List.count_eq_zero.2 (hname ▸ hmem)
        simp only [hmem, if_false, hc, Bool.true_eq_false]
        split
        next hname => rw [hcount hname.1]
        next => rfl
    have hrest := ih hall (checkConnection inOrder required c)
    rw [hstep] at hrest
    show (failedDevices inOrder (checkConnection inOrder required c) connections).count name = _
    rw [hrest, List.countP_cons, Nat.sub_sub, Nat.add_comm]
    simp only [decide_eq_true_eq]

theorem mem_checkConnection {name : String} {failedArr : List String} {c : ConnCentrald}
    (hmem : name ∈ failedArr) (hc : c.name = name → ¬ Clears inOrder c) :
    name ∈ checkConnection inOrder failedArr c := by
  unfold checkConnection
  split
  · split
    · rename_i hclears
      exact (List.mem_erase_of_ne fun h => hc h.symm hclears).2 hmem
    · exact hmem
  · split
    · exact List.mem_append_left _ hmem
    · exact hmem

/-- A name stays in the list when no connection takes it out. -/
theorem mem_failedDevices {name : String} {connections : List ConnCentrald} {failedArr : List String}
    (hmem : name ∈ failedArr) (hc : ∀ c ∈ connections, c.name = name → ¬ Clears inOrder c) :
    name ∈ failedDevices inOrder failedArr connections := by
  induction connections generalizing failedArr with
  | nil => exact hmem
  | cons c connections ih =>
    obtain ⟨hfirst, hrest⟩ := List.forall_mem_cons.1 hc
    exact ih (mem_checkConnection hmem hfirst) hrest

/-- A connection out of order leaves its name in the list, unless another one of
its name takes it out. -/
theorem mem_failedDevices_of_bad {connections : List ConnCentrald} {failedArr : List String}
    {c : ConnCentrald} (hmem : c ∈ connections) (hbad : inOrder c = false)
    (hother : ∀ c' ∈ connections, c'.name = c.name → ¬ Clears inOrder c') :
    c.name ∈ failedDevices inOrder failedArr connections := by
  obtain ⟨before, after, rfl⟩ := List.append_of_mem hmem
  have hsplit : failedDevices inOrder failedArr (before ++ c :: after) =
      failedDevices inOrder (checkConnection inOrder (failedDevices inOrder failedArr before) c)
        after := by
    simp [failedDevices]
  rw [hsplit]
  refine mem_failedDevices ?_ fun c' hc' => hother c' (by simp [hc'])
  unfold checkConnection
  split
  · rename_i hin
    simpa [hbad] using hin
  · simp

/-- **What the loop decides**, as long as no connection in order shares its name
with one that is not: nothing fails when all are in order and enough connections
carry each required name. -/
theorem failedDevices_eq_nil_iff {connections : List ConnCentrald} (required : List String)
    (hapart : ∀ c ∈ connections, ∀ c' ∈ connections, inOrder c = false → Clears inOrder c' →
      c'.name ≠ c.name) :
    failedDevices inOrder required connections = [] ↔
      (∀ c ∈ connections, inOrder c = true) ∧ ∀ name, required.count name ≤
        connections.countP fun c => c.name = name ∧ c.connState = .connConnected := by
  constructor
  · intro hnil
    have hall : ∀ c ∈ connections, inOrder c = true := by
      intro c hc
      by_contra hbad
      rw [Bool.not_eq_true] at hbad
      have hmem : c.name ∈ failedDevices inOrder required connections :=
        mem_failedDevices_of_bad hc hbad
        fun c' hc' hname hclears => hapart c hc c' hc' hbad hclears hname
      rw [hnil] at hmem
      cases hmem
    refine ⟨hall, fun name => ?_⟩
    have hcount := count_failedDevices hall required name
    rw [hnil, List.count_nil] at hcount
    omega
  · rintro ⟨hall, hcount⟩
    rw [List.eq_nil_iff_forall_not_mem]
    intro name
    rw [← List.count_eq_zero, count_failedDevices hall required name]
    have := hcount name
    omega

end

/-! ## Connections of a run -/

/-- Two connections: their ids differ, and the names of registered devices do. -/
def Apart (c c' : ConnCentrald) : Prop :=
  c.centraldId ≠ c'.centraldId ∧
    (c.type = .deviceServer → c'.type = .deviceServer → c.name ≠ c'.name)

theorem Apart.symm {c c' : ConnCentrald} (h : Apart c c') : Apart c' c :=
  ⟨h.1.symm, fun hc' hc => (h.2 hc hc').symm⟩

instance : Std.Symm Apart := ⟨fun _ _ => Apart.symm⟩

/-- A check was made on connections that are apart, and its answer is that of the loop. -/
structure CheckMade (k : Check) : Prop where
  apart : k.connections.Pairwise Apart
  decided : k.goodWeather = true ↔
    failedDevices ConnCentrald.isGoodWeather k.requiredDevices k.connections = []

/-- What holds in every state of a run. -/
structure Inv (s : Central) : Prop where
  apart : (s.connections ++ s.connectionsAdded).Pairwise Apart
  numbered : ∀ c ∈ s.connections ++ s.connectionsAdded, c.centraldId ≤ s.connNum
  added : ∀ c ∈ s.connectionsAdded, c.type = .notDefinedServer
  checks : ∀ k ∈ s.checks, CheckMade k

theorem Inv.start (state : Status) (required : List String) : Inv (.start state required) :=
  ⟨.nil, by simp [Central.start], by simp [Central.start], by simp [Central.start]⟩

section
variable {s : Central}

theorem Inv.congr {s' : Central} (h : Inv s) (hconn : s'.connections = s.connections)
    (hadded : s'.connectionsAdded = s.connectionsAdded) (hnum : s'.connNum = s.connNum)
    (hchecks : s'.checks = s.checks) : Inv s' :=
  ⟨by rw [hconn, hadded]; exact h.apart, by rw [hconn, hadded, hnum]; exact h.numbered,
    by rw [hadded]; exact h.added, by rw [hchecks]; exact h.checks⟩

theorem recordReason_eq (device : String) (msg : Option String) :
    ∃ reason name, s.recordReason device msg =
      { s with badWeatherReason := reason, badWeatherDevice := name } := by
  unfold Central.recordReason
  split
  · exact ⟨_, _, rfl⟩
  · exact ⟨_, _, rfl⟩

/-- The weather bit is the one just masked in. -/
theorem setWeatherState_good (good : Bool) :
    ((s.setWeatherState good).state &&& Status.weatherMask = Status.goodWeather) ↔ good = true := by
  have hclear : s.state &&& ~~~(Status.deviceErrorMask ||| Status.weatherMask) &&&
      Status.weatherMask = 0 := by
    rw [BitVec.and_assoc, show ~~~(Status.deviceErrorMask ||| Status.weatherMask) &&&
      Status.weatherMask = 0#32 by decide]
    exact BitVec.and_zero
  cases good
  · simp only [Central.setWeatherState, Central.maskState, BitVec.and_or_distrib_right, hclear]
    decide
  · simp only [Central.setWeatherState, Central.maskState, BitVec.and_or_distrib_right, hclear]
    decide

/-- `weatherChanged` makes one more check and leaves the connections alone. -/
theorem weatherChanged_eq (device : String) (msg : Option String) :
    ∃ k, k.requiredDevices = s.requiredDevices ∧ k.connections = s.connections ∧
      (k.goodWeather = true ↔
        failedDevices ConnCentrald.isGoodWeather s.requiredDevices s.connections = []) ∧
      (s.weatherChanged device msg).checks = s.checks ++ [k] ∧
      (s.weatherChanged device msg).connections = s.connections ∧
      (s.weatherChanged device msg).connectionsAdded = s.connectionsAdded ∧
      (s.weatherChanged device msg).connNum = s.connNum := by
  obtain ⟨reason, name, hreason⟩ := recordReason_eq (s := s) device msg
  unfold Central.weatherChanged
  rw [hreason]
  dsimp only
  split
  · rename_i hnil
    refine ⟨_, rfl, rfl, ?_, rfl, rfl, rfl, rfl⟩
    dsimp only
    rw [decide_eq_true_iff, setWeatherState_good, List.isEmpty_iff]
  · refine ⟨_, rfl, rfl, ?_, rfl, rfl, rfl, rfl⟩
    dsimp only
    rw [decide_eq_true_iff, setWeatherState_good, List.isEmpty_iff]

theorem Inv.weatherChanged (h : Inv s) (device : String) (msg : Option String) :
    Inv (s.weatherChanged device msg) := by
  obtain ⟨k, hrequired, hconnections, hgood, hchecks, hconn, hadded, hnum⟩ :=
    weatherChanged_eq (s := s) device msg
  refine ⟨by rw [hconn, hadded]; exact h.apart, by rw [hconn, hadded, hnum]; exact h.numbered,
    by rw [hadded]; exact h.added, ?_⟩
  rw [hchecks]
  refine List.forall_mem_append.2 ⟨h.checks, List.forall_mem_singleton.2 ⟨?_, ?_⟩⟩
  · rw [hconnections]
    exact (List.pairwise_append.1 h.apart).1
  · rw [hrequired, hconnections]
    exact hgood

theorem Inv.stopChanged (h : Inv s) : Inv s.stopChanged := h.congr rfl rfl rfl rfl

theorem Inv.maskState (h : Inv s) (mask new : Status) : Inv (s.maskState mask new) :=
  h.congr rfl rfl rfl rfl

/-- A connection may change when it becomes no device, stays the device it is, or
takes a name nobody has. -/
theorem Inv.setConnection (h : Inv s) {c new : ConnCentrald} (hc : c ∈ s.connections)
    (hid : new.centraldId = c.centraldId)
    (hname : new.type = .deviceServer →
      (c.type = .deviceServer ∧ new.name = c.name) ∨ ∀ c' ∈ s.connections, c'.name ≠ new.name) :
    Inv (s.setConnection new) := by
  obtain ⟨hpair, haddedPair, hcross⟩ := List.pairwise_append.1 h.apart
  have hnumbered := List.forall_mem_append.1 h.numbered
  -- the new connection beside one that is not replaced
  have hnew : ∀ c' ∈ s.connections, c'.centraldId ≠ new.centraldId → Apart new c' := by
    intro c' hc' hne
    have hcc' : Apart c c' :=
      hpair.forall hc hc' fun heq => hne (by rw [hid, heq])
    refine ⟨hne.symm, fun hdev hdev' => ?_⟩
    rcases hname hdev with ⟨htype, hsame⟩ | hfree
    · rw [hsame]
      exact hcc'.2 htype hdev'
    · exact (hfree c' hc').symm
  refine ⟨?_, ?_, h.added, h.checks⟩
  · refine List.pairwise_append.2 ⟨?_, haddedPair, ?_⟩
    · refine List.pairwise_map.2 (hpair.imp_of_mem fun ha hb hab => ?_)
      split
      next hida =>
        rw [if_neg fun hidb => hab.1 (hida.trans hidb.symm)]
        exact hnew _ hb fun hidb => hab.1 (hida.trans hidb.symm)
      next hida =>
        split
        · exact (hnew _ ha hida).symm
        · exact hab
    · intro a ha b hb
      obtain ⟨a', ha', rfl⟩ := List.mem_map.1 ha
      split
      · refine ⟨?_, fun _ hdev => ?_⟩
        · rw [hid]
          exact (hcross c hc b hb).1
        · rw [h.added b hb] at hdev
          cases hdev
      · exact hcross a' ha' b hb
  · refine List.forall_mem_append.2 ⟨?_, hnumbered.2⟩
    intro a ha
    obtain ⟨a', ha', rfl⟩ := List.mem_map.1 ha
    split
    · rw [hid]
      exact hnumbered.1 c hc
    · exact hnumbered.1 a' ha'

theorem Inv.addConnectionSock (h : Inv s) : Inv s.addConnectionSock := by
  refine ⟨?_, ?_, ?_, h.checks⟩
  · show (s.connections ++ (s.connectionsAdded ++ [_])).Pairwise Apart
    rw [← List.append_assoc]
    refine List.pairwise_append.2 ⟨h.apart, List.pairwise_singleton _ _, fun a ha b hb => ?_⟩
    rw [List.mem_singleton.1 hb]
    have := h.numbered a ha
    exact ⟨by simp only [ConnCentrald.new]; omega, fun _ hdev => by cases hdev⟩
  · show ∀ c ∈ s.connections ++ (s.connectionsAdded ++ [_]), c.centraldId ≤ s.connNum + 1
    rw [← List.append_assoc]
    refine List.forall_mem_append.2 ⟨fun c hc => ?_, List.forall_mem_singleton.2 le_rfl⟩
    exact le_trans (h.numbered c hc) (Nat.le_succ _)
  · exact List.forall_mem_append.2 ⟨h.added, List.forall_mem_singleton.2 rfl⟩

theorem Inv.idle (h : Inv s) : Inv s.idle := by
  refine ⟨?_, ?_, by simp [Central.idle], h.checks⟩
  · simpa [Central.idle] using h.apart
  · simpa [Central.idle] using h.numbered

theorem Inv.login (h : Inv s) {c : ConnCentrald} (hc : c ∈ s.connections) (name : String) :
    Inv (s.login c name) := by
  unfold Central.login
  split
  · exact h.setConnection hc rfl fun hdev => by cases hdev
  · exact h

theorem Inv.register (h : Inv s) {c : ConnCentrald} (hc : c ∈ s.connections) (regDevice : String) :
    Inv (s.register c regDevice) := by
  unfold Central.register
  split
  · split
    · exact h
    · rename_i hfree
      refine h.setConnection hc rfl fun _ => .inr fun c' hc' => ?_
      simpa [Central.findName] using List.find?_eq_none.1 (Option.not_isSome_iff_eq_none.1 hfree) c' hc'
  · exact h

theorem Inv.setState (h : Inv s) {c : ConnCentrald} (hc : c ∈ s.connections) (value : Status)
    (msg : Option String) : Inv (s.setState c value msg) := by
  have hset : Inv (s.setConnection { c with serverState := value }) :=
    h.setConnection hc rfl fun hdev => .inl ⟨hdev, rfl⟩
  have hwhen : ∀ {t t' : Central} {p : Prop} [Decidable p], Inv t → Inv t' →
      Inv (if p then t' else t) := by
    intro t t' p _ ht ht'
    split
    · exact ht'
    · exact ht
  have hready := hwhen (p := maskValueChanged c.serverState value Status.deviceNotReady ∧
    value &&& Status.deviceNotReady = 0) hset
    (hset.weatherChanged c.name (some "device ready")).stopChanged
  have hweather := hwhen (p := maskValueChanged c.serverState value Status.weatherMask) hready
    (hready.weatherChanged c.name msg)
  have hstop := hwhen (p := maskValueChanged c.serverState value Status.stopMask) hweather
    hweather.stopChanged
  exact hwhen hstop (hstop.maskState _ _)

theorem Inv.removeConnection (h : Inv s) (c : ConnCentrald) : Inv (s.removeConnection c) := by
  unfold Central.removeConnection
  split
  · have hsub : (s.connections.filter (·.centraldId ≠ c.centraldId) ++ s.connectionsAdded).Sublist
        (s.connections ++ s.connectionsAdded) :=
      List.filter_sublist.append (List.Sublist.refl _)
    have hleft : Inv { s with
        connections := s.connections.filter (·.centraldId ≠ c.centraldId) } :=
      ⟨h.apart.sublist hsub, fun c' hc' => h.numbered c' (hsub.subset hc'), h.added, h.checks⟩
    exact ((hleft.weatherChanged _ _).stopChanged).maskState _ _
  · exact h

theorem Inv.step (h : Inv s) (e : Event) : Inv (s.step e) := by
  cases e with
  | accept => exact h.addConnectionSock
  | idle => exact h.idle
  | requiredDevices names => exact h.congr rfl rfl rfl rfl
  | maskState mask new => exact h.maskState mask new
  | connection id event =>
    unfold Central.step
    dsimp only
    split
    · exact h
    rename_i c hfind
    have hc : c ∈ s.connections := List.mem_of_find?_eq_some hfind
    cases event with
    | login name => exact h.login hc name
    | register regDevice => exact h.register hc regDevice
    | status value msg => exact h.setState hc value msg
    | weatherUpdate device update =>
      unfold Central.connEvent Central.weatherUpdate
      dsimp only
      split
      · exact h.congr rfl rfl rfl rfl
      · exact h
    | connectionError => exact h.setConnection hc rfl fun hdev => .inl ⟨hdev, rfl⟩
    | removed => exact h.removeConnection c

end

/-! ## Good weather -/

/-- The names of a check tell its connections apart: a connected connection with
good weather that carries a required name is a registered device, and no other
connection of its name reports bad weather unless both are registered devices. -/
structure NamesApart (k : Check) : Prop where
  required : ∀ c ∈ k.connections, c.name ∈ k.requiredDevices →
    Clears ConnCentrald.isGoodWeather c → c.type = .deviceServer
  shared : ∀ c ∈ k.connections, ∀ c' ∈ k.connections, c.isGoodWeather = false →
    Clears ConnCentrald.isGoodWeather c' → c'.name = c.name →
    c.type = .deviceServer ∧ c'.type = .deviceServer

instance (k : Check) : Decidable (NamesApart k) :=
  decidable_of_iff (_ ∧ _) ⟨fun h => ⟨h.1, h.2⟩, fun h => ⟨h.required, h.shared⟩⟩

/-- Good weather only with every required device connected and in good weather,
and with no registered device in bad weather. -/
structure WeatherRight (k : Check) : Prop where
  required : k.goodWeather = true → ∀ name ∈ k.requiredDevices, ∃ c ∈ k.connections,
    c.type = .deviceServer ∧ c.name = name ∧ c.connState = .connConnected ∧
      c.isGoodWeather = true
  devices : k.goodWeather = true → ∀ c ∈ k.connections, c.type = .deviceServer →
    c.isGoodWeather = true

/-- The same connection, but for the name a client has chosen. -/
def SameButClientName (c c' : ConnCentrald) : Prop :=
  c'.type = c.type ∧ c'.connState = c.connState ∧ c'.serverState = c.serverState ∧
    (c.type ≠ .clientServer → c'.name = c.name)

/-- The same connections in any order, but for the names clients have chosen. -/
def SameConnections (k k' : Check) : Prop :=
  k'.requiredDevices = k.requiredDevices ∧
    ∃ connections, k.connections.Perm connections ∧
      List.Forall₂ SameButClientName connections k'.connections

/-- Registered devices of that name that are connected. -/
def connectedDevices (connections : List ConnCentrald) (name : String) : Nat :=
  connections.countP fun c =>
    c.type = .deviceServer ∧ c.name = name ∧ c.connState = .connConnected

/-- While names tell connections apart, the weather is good when no connection
reports bad weather and each required name has a device of its own. -/
theorem CheckMade.good_iff {k : Check} (h : CheckMade k) (hapart : NamesApart k) :
    k.goodWeather = true ↔ (∀ c ∈ k.connections, c.isGoodWeather = true) ∧
      ∀ name ∈ k.requiredDevices,
        k.requiredDevices.count name ≤ connectedDevices k.connections name := by
  rw [h.decided, failedDevices_eq_nil_iff]
  · refine and_congr_right fun hall => ?_
    have hcount : ∀ name ∈ k.requiredDevices, connectedDevices k.connections name =
        k.connections.countP fun c => c.name = name ∧ c.connState = .connConnected := by
      intro name hname
      refine List.countP_congr fun c hc => ?_
      simp only [decide_eq_true_eq]
      refine ⟨fun hdev => hdev.2, fun hconn => ⟨?_, hconn⟩⟩
      exact hapart.required c hc (hconn.1 ▸ hname) ⟨hall c hc, hconn.2⟩
    refine ⟨fun hle name hname => by rw [hcount name hname]; exact hle name, fun hle name => ?_⟩
    by_cases hname : name ∈ k.requiredDevices
    · rw [← hcount name hname]
      exact hle name hname
    · rw [List.count_eq_zero.2 hname]
      exact Nat.zero_le _
  · intro c hc c' hc' hbad hclears hname
    obtain ⟨hdev, hdev'⟩ := hapart.shared c hc c' hc' hbad hclears hname
    have hne : c' ≠ c := by
      rintro rfl
      rw [hclears.1] at hbad
      cases hbad
    exact (h.apart.forall hc' hc hne).2 hdev' hdev hname

theorem CheckMade.weatherRight {k : Check} (h : CheckMade k) (hapart : NamesApart k) :
    WeatherRight k where
  required := by
    intro hgood name hname
    obtain ⟨hall, hcount⟩ := (h.good_iff hapart).1 hgood
    have hpos : 0 < connectedDevices k.connections name :=
      lt_of_lt_of_le (List.count_pos_iff.2 hname) (hcount name hname)
    obtain ⟨c, hc, hdev⟩ := List.countP_pos_iff.1 hpos
    rw [decide_eq_true_eq] at hdev
    exact ⟨c, hc, hdev.1, hdev.2.1, hdev.2.2, hall c hc⟩
  devices := fun hgood c hc _ => ((h.good_iff hapart).1 hgood).1 c hc

/-- What the decision reads of the connections is the same for the same connections. -/
theorem SameConnections.decision {k k' : Check} (h : SameConnections k k') :
    ((∀ c ∈ k'.connections, c.isGoodWeather = true) ↔
        ∀ c ∈ k.connections, c.isGoodWeather = true) ∧
      ∀ name, connectedDevices k'.connections name = connectedDevices k.connections name := by
  obtain ⟨-, connections, hperm, hsame⟩ := h
  have hmem : (∀ c ∈ k.connections, c.isGoodWeather = true) ↔
      ∀ c ∈ connections, c.isGoodWeather = true :=
    ⟨fun hall c hc => hall c (hperm.mem_iff.2 hc), fun hall c hc => hall c (hperm.mem_iff.1 hc)⟩
  have hcount : ∀ name, connectedDevices k.connections name = connectedDevices connections name :=
    fun name => hperm.countP_eq _
  rw [hmem]
  simp only [hcount]
  clear hperm hmem hcount
  generalize k'.connections = renamed at hsame
  induction hsame with
  | nil => exact ⟨Iff.rfl, fun _ => rfl⟩
  | @cons c c' connections renamed hc _ ih =>
    obtain ⟨htype, hstate, hserver, hname⟩ := hc
    refine ⟨?_, fun name => ?_⟩
    · rw [List.forall_mem_cons, List.forall_mem_cons, ih.1, ConnCentrald.isGoodWeather, hserver]
      rfl
    · have hrest := ih.2 name
      unfold connectedDevices at hrest ⊢
      rw [List.countP_cons, List.countP_cons, hrest, htype, hstate]
      congr 1
      by_cases hdev : c.type = .deviceServer
      · rw [hname (by rw [hdev]; decide)]
      · simp [hdev]

/-- Two checks on the same connections give the same weather. -/
theorem CheckMade.same {k k' : Check} (h : CheckMade k) (h' : CheckMade k')
    (hapart : NamesApart k) (hapart' : NamesApart k') (hsame : SameConnections k k') :
    k'.goodWeather = k.goodWeather := by
  obtain ⟨hall, hcount⟩ := hsame.decision
  rw [Bool.eq_iff_iff, h.good_iff hapart, h'.good_iff hapart', hall, hsame.1]
  simp only [hcount]

/-- The weather checks of a run. -/
def checks (state : Status) (required : List String) (events : List Event) : List Check :=
  (run Central.step (.start state required) events).checks

/-- **The weather is right** in every check whose names tell connections apart: it
is good only with all required devices and no bad device, and it depends neither
on the order of the connections nor on the names of clients. -/
theorem weather_right (state : Status) (required : List String) (events : List Event) (k : Check)
    (hk : k ∈ checks state required events) (hapart : NamesApart k) :
    WeatherRight k ∧ ∀ state' required' events', ∀ k' ∈ checks state' required' events',
      NamesApart k' → SameConnections k k' → k'.goodWeather = k.goodWeather := by
  have hmade : ∀ state required events, ∀ k ∈ checks state required events, CheckMade k := by
    intro state required events
    exact (run_invariant (Inv.start state required) (fun _ e hs => hs.step e) events).checks
  refine ⟨(hmade _ _ _ k hk).weatherRight hapart, fun state' required' events' k' hk' => ?_⟩
  exact (hmade _ _ _ k hk).same (hmade _ _ _ k' hk') hapart

/-- A dome registers and reports good weather, beside a client. -/
def domeRegisters : List Event :=
  [.accept, .accept, .idle, .connection 1 (.register "dome"), .connection 2 (.login "xmonitor"),
    .connection 1 (.status 0 none)]

/-- The check made when the dome becomes ready. -/
def domeCheck : Check where
  requiredDevices := ["dome"]
  connections := [⟨1, .deviceServer, "dome", .connConnected, 0⟩,
    ⟨2, .clientServer, "xmonitor", .connConnected, Status.deviceNotReady⟩]
  goodWeather := true

theorem weather_right_dome :
    WeatherRight domeCheck ∧ ∀ state' required' events', ∀ k' ∈ checks state' required' events',
      NamesApart k' → SameConnections domeCheck k' → k'.goodWeather = domeCheck.goodWeather :=
  weather_right Status.badWeather ["dome"] domeRegisters domeCheck (by decide) (by decide)

/-- A client logs in as `dome`, and another one goes away. -/
def clientCalledDome : List Event :=
  [.accept, .accept, .idle, .connection 1 (.login "dome"), .connection 2 .connectionError,
    .connection 2 .removed]

/-- The weather is good then, with no dome there at all. -/
theorem clientCalledDome_good :
    ∃ k ∈ checks Status.badWeather ["dome"] clientCalledDome, ¬ WeatherRight k := by
  refine ⟨⟨["dome"], [⟨1, .clientServer, "dome", .connConnected, Status.deviceNotReady⟩], true⟩,
    by decide, fun h => ?_⟩
  obtain ⟨c, hc, hdev, -⟩ := h.required rfl "dome" (by decide)
  rw [List.mem_singleton.1 hc] at hdev
  cases hdev

end Rts2.Centrald

import Mathlib.Data.List.Infix
import Rts2.Rts2json.AsyncValue

/-! # What a push client is told

While the source is not lost, the last message about everything that was asked for shows what it
is: first in `sendAll`, then after every change. -/
namespace Rts2.Rts2json.AsyncValue
open Rts2.Lib

variable {V : Type} {cfg : Config} {ok : Nat → Bool} {w : World V} {params : List (Name × Name)}

/-! ## Values of the devices -/

theorem World.getValue_congr {device a b : Name} (h : isValue a b = true) :
    w.getValue device a = w.getValue device b := by
  unfold World.getValue
  refine congrArg (fun p => (w.values device).find? p) (funext fun v => ?_)
  exact isValue_congr h

theorem World.getValue_spec {device name : Name} {v : Name × V}
    (h : w.getValue device name = some v) : v ∈ w.values device ∧ isValue name v.1 = true := by
  have hfound : (w.values device).find? (fun v => isValue name v.1) = some v := h
  have hname := List.find?_some hfound
  exact ⟨List.mem_of_find?_eq_some hfound, hname⟩

/-- A value has the name that is its own. -/
theorem World.getValue_self {device name : Name} {v : Name × V}
    (h : w.getValue device name = some v) : w.getValue device v.1 = some v := by
  rw [← World.getValue_congr (World.getValue_spec h).2]
  exact h

theorem find_distinct {name : Name} {l : List (Name × V)} {v : Name × V} (hv : v ∈ l)
    (hl : l.Pairwise fun a b => isValue a.1 b.1 = false) (hname : isValue name v.1 = true) :
    l.find? (fun v => isValue name v.1) = some v := by
  induction l with
  | nil => cases hv
  | cons u l ih =>
    obtain ⟨hu, hl⟩ := List.pairwise_cons.mp hl
    rcases List.mem_cons.mp hv with rfl | hv
    · exact List.find?_cons_of_pos hname
    · have hother : isValue name u.1 = false := by
        rw [isValue_congr hname, isValue_comm]
        exact hu v hv
      rw [List.find?_cons_of_neg (by rw [hother]; exact Bool.false_ne_true)]
      exact ih hv hl

theorem World.getValue_of_mem {device : Name} {v : Name × V} (h : v ∈ w.values device) :
    w.getValue device v.1 = some v :=
  find_distinct h (w.distinct device) (isValue_refl v.1)

/-- What is found after a value has changed. -/
theorem World.getValue_apply (device name : Name) (content : V) (d n : Name) :
    (w.apply (.value device name content)).getValue d n =
      if d = device ∧ isValue n name = true then (w.getValue d n).map fun v => (v.1, content)
      else w.getValue d n := by
  by_cases hd : d = device
  · subst hd
    have hfound : (w.apply (.value d name content)).getValue d n =
        (w.getValue d n).map (changed name content) := by
      unfold World.getValue World.apply
      simp only [if_true, List.find?_map]
      refine congrArg _ (congrArg (fun p => (w.values d).find? p) (funext fun v => ?_))
      exact congrArg (isValue n) (changed_fst name content v)
    rw [hfound]
    cases hv : w.getValue d n with
    | none => simp
    | some v =>
      have hname := (World.getValue_spec hv).2
      by_cases hn : isValue n name = true
      · have hsame : isValue name v.1 = true := by rw [← isValue_congr hn]; exact hname
        simp [changed, hsame, hn]
      · have hother : isValue name v.1 = false := by
          rw [isValue_comm, ← isValue_congr hname]
          exact Bool.eq_false_iff.mpr hn
        simp [changed, hother, hn]
  · rw [if_neg fun h => hd h.1]
    unfold World.getValue World.apply
    simp only [if_neg hd]

/-! ## What the last messages say -/

theorem getLast_of_eq {α : Type} {l : List α} {a : α} (h : ∀ x ∈ l, x = a) (hne : l ≠ []) :
    l.getLast? = some a := by
  rw [List.getLast?_eq_some_getLast hne, h _ (List.getLast_mem hne)]

/-- The message says what the devices are. -/
def Message.Present (w : World V) : Message V → Prop
  | .state device progress => progress = w.state device
  | .value device name content => w.getValue device name = some (name, content)

section
variable {log : Log V} (h : ∀ m ∈ log, m.1.Present w)
include h

theorem lastState_present {device : Name} (hsent : ∃ m ∈ log, m.1 = .state device (w.state device)) :
    lastState log device = some (w.state device) := by
  obtain ⟨m, hm, hmessage⟩ := hsent
  refine getLast_of_eq ?_ ?_
  · intro progress hp
    obtain ⟨⟨message, sent⟩, hmem, hsome⟩ := List.mem_filterMap.mp hp
    have hpresent := h _ hmem
    cases message with
    | state d p =>
      simp only [Message.stateOf] at hsome
      split at hsome
      case isTrue hd =>
        cases hsome
        rw [← hd]
        exact hpresent
      case isFalse => cases hsome
    | value d n content => cases hsome
  · refine List.ne_nil_of_mem (List.mem_filterMap.mpr ⟨m, hm, ?_⟩) (a := w.state device)
    rw [hmessage]
    exact if_pos rfl

theorem lastValue_present {device name : Name}
    (hsent : ∀ v, w.getValue device name = some v → ∃ m ∈ log, m.1 = .value device v.1 v.2) :
    lastValue log device name = (w.getValue device name).map Prod.snd := by
  have hcontent : ∀ content ∈ log.filterMap (fun m => m.1.valueOf device name),
      (w.getValue device name).map Prod.snd = some content := by
    intro content hc
    obtain ⟨⟨message, sent⟩, hmem, hsome⟩ := List.mem_filterMap.mp hc
    have hpresent := h _ hmem
    cases message with
    | state d p => cases hsome
    | value d n c =>
      simp only [Message.valueOf] at hsome
      split at hsome
      case isTrue hd =>
        cases hsome
        have hvalue : w.getValue d n = some (n, content) := hpresent
        rw [World.getValue_congr hd.2, ← hd.1, hvalue]
        rfl
      case isFalse => cases hsome
  cases hv : w.getValue device name with
  | none =>
    have hnil : log.filterMap (fun m => m.1.valueOf device name) = [] := by
      refine List.eq_nil_iff_forall_not_mem.mpr fun content hc => ?_
      have hnone := hcontent content hc
      rw [hv] at hnone
      cases hnone
    unfold lastValue
    rw [hnil]
    rfl
  | some v =>
    obtain ⟨m, hm, hmessage⟩ := hsent v hv
    rw [hv] at hcontent
    refine getLast_of_eq (fun content hc => (Option.some.inj (hcontent content hc)).symm) ?_
    refine List.ne_nil_of_mem (List.mem_filterMap.mpr ⟨m, hm, ?_⟩) (a := v.2)
    rw [hmessage]
    exact if_pos ⟨rfl, (World.getValue_spec hv).2⟩

end

section
variable (log : Log V) (device : Name) (sent : Bool) (d : Name)

theorem lastState_state (progress : Progress) :
    lastState (log ++ [(.state device progress, sent)]) d =
      if device = d then some progress else lastState log d := by
  unfold lastState
  rw [List.filterMap_append]
  by_cases h : device = d
  · simp [Message.stateOf, h]
  · simp [Message.stateOf, h]

theorem lastState_value (name : Name) (content : V) :
    lastState (log ++ [(.value device name content, sent)]) d = lastState log d := by
  unfold lastState
  simp [Message.stateOf]

theorem lastValue_state (progress : Progress) (n : Name) :
    lastValue (log ++ [(.state device progress, sent)]) d n = lastValue log d n := by
  unfold lastValue
  simp [Message.valueOf]

theorem lastValue_value (name : Name) (content : V) (n : Name) :
    lastValue (log ++ [(.value device name content, sent)]) d n =
      if device = d ∧ isValue n name = true then some content else lastValue log d n := by
  unfold lastValue
  rw [List.filterMap_append]
  by_cases h : device = d ∧ isValue n name = true
  · simp [Message.valueOf, h]
  · simp only [Message.valueOf, List.filterMap_cons, if_neg h, List.filterMap_nil, List.append_nil]

end

/-! ## Sending values -/

/-- `s'` comes of `s` by sending the messages, until the source is lost. -/
structure Sent (s s' : Api V) (messages : List (Message V)) : Prop where
  states : s'.states = s.states
  devices : s'.devices = s.devices
  values : s'.values = s.values
  lost : LostLast s → LostLast s'
  all : s'.source = true → s.source = true ∧ s'.log = s.log ++ messages.map fun m => (m, true)

theorem Sent.refl (s : Api V) : Sent s s [] where
  states := rfl
  devices := rfl
  values := rfl
  lost h := h
  all h := ⟨h, (List.append_nil _).symm⟩

theorem Sent.trans {s t u : Api V} {messages messages' : List (Message V)} (h : Sent s t messages)
    (h' : Sent t u messages') : Sent s u (messages ++ messages') where
  states := h'.states.trans h.states
  devices := h'.devices.trans h.devices
  values := h'.values.trans h.values
  lost hs := h'.lost (h.lost hs)
  all hu := by
    obtain ⟨ht, hlog'⟩ := h'.all hu
    obtain ⟨hs, hlog⟩ := h.all ht
    refine ⟨hs, ?_⟩
    rw [hlog', hlog, List.map_append, List.append_assoc]

theorem LostLast.sendValue {s : Api V} (h : LostLast s) (device : Name) (value : Name × V) :
    LostLast (AsyncValue.sendValue ok device s value) := by
  unfold AsyncValue.sendValue
  split
  case isTrue hs =>
    rcases h with ⟨-, hall⟩ | ⟨hlost, -⟩
    · cases hok : ok s.log.length with
      | true =>
        refine .inl ⟨rfl, fun m hm => ?_⟩
        rcases List.mem_append.mp hm with hm | hm
        · exact hall m hm
        · rw [List.mem_singleton.mp hm]
      | false => exact .inr ⟨rfl, s.log, _, rfl, hall⟩
    · rw [hs] at hlost
      cases hlost
  case isFalse => exact h

theorem sendValue_sent (device : Name) (s : Api V) (value : Name × V) :
    Sent s (sendValue ok device s value) [.value device value.1 value.2] where
  states := by unfold sendValue; split <;> rfl
  devices := by unfold sendValue; split <;> rfl
  values := by unfold sendValue; split <;> rfl
  lost h := h.sendValue device value
  all h := by
    unfold sendValue at h ⊢
    split at h
    case isTrue hs =>
      have hok : ok s.log.length = true := h
      simp [hs, hok]
    case isFalse hs => exact absurd h hs

theorem foldl_sent (device : Name) (values : List (Name × V)) (s : Api V) :
    Sent s (values.foldl (sendValue ok device) s) (values.map fun v => .value device v.1 v.2) := by
  induction values generalizing s with
  | nil => exact .refl s
  | cons v values ih => exact (sendValue_sent device s v).trans (ih _)

/-- The single values are found and sent. -/
theorem sendValues_sent {values : List (Name × Name)} (s : Api V)
    (h : ∀ v ∈ values, (v.1 = cfg.ownName ∨ v.1 ∈ cfg.opened) ∧ (w.getValue v.1 v.2).isSome = true) :
    (sendValues cfg w ok values s).2 = none ∧
      Sent s (sendValues cfg w ok values s).1 (values.filterMap fun v =>
        (w.getValue v.1 v.2).map fun value => .value v.1 value.1 value.2) := by
  induction values generalizing s with
  | nil => exact ⟨rfl, .refl s⟩
  | cons v values ih =>
    obtain ⟨hv, hvalues⟩ := List.forall_mem_cons.mp h
    obtain ⟨value, hvalue⟩ := Option.isSome_iff_exists.mp hv.2
    have hdevice : (if v.1 = cfg.ownName then some v.1 else cfg.getOpenConnection v.1) = some v.1 := by
      by_cases hown : v.1 = cfg.ownName
      · exact if_pos hown
      · rw [if_neg hown]
        exact if_pos (hv.1.resolve_left hown)
    obtain ⟨hnone, hsent⟩ := ih (sendValue ok v.1 s value) hvalues
    have hturn : sendValues cfg w ok (v :: values) s =
        sendValues cfg w ok values (sendValue ok v.1 s value) := by
      rw [sendValues, hdevice]
      simp only [hvalue]
    rw [hturn, List.filterMap_cons, hvalue]
    exact ⟨hnone, (sendValue_sent v.1 s value).trans hsent⟩

/-! ## Sending states -/

theorem AsyncState.same_iff {astate : AsyncState} {progress : Progress} :
    astate.same progress = true ↔ ¬Tells astate.last progress := by
  unfold AsyncState.same Tells
  rw [Bool.and_eq_true, Bool.and_eq_true, decide_eq_true_iff, Option.isSome_iff_ne_none,
    Option.isSome_iff_ne_none, not_or, not_or, ne_eq, not_not, and_assoc]

theorem sendState_same {device : Name} {astate : AsyncState} (h : ¬Tells astate.last (w.state device))
    (log : Log V) : sendState w ok device astate log = (astate, log) :=
  if_pos (AsyncState.same_iff.mpr h)

theorem sendState_tells {device : Name} {astate : AsyncState} (h : Tells astate.last (w.state device))
    (log : Log V) : sendState w ok device astate log =
      (⟨astate.name, w.state device⟩, log ++ [(.state device (w.state device), ok log.length)]) :=
  if_neg fun hsame => AsyncState.same_iff.mp hsame h

/-- The first message about a state is sent. -/
theorem AsyncState.new_tells (name : Name) (progress : Progress) :
    Tells (AsyncState.new name).last progress := by
  by_cases h : (AsyncState.new name).last = progress
  · refine .inr (.inl ?_)
    rw [← h]
    rfl
  · exact .inl h

theorem connection_self {name : Name} (h : name = centrald ∨ name ∈ cfg.opened) :
    cfg.connection name = some name := by
  unfold Config.connection
  by_cases hc : name = centrald
  · rw [if_pos hc, hc]
  · rw [if_neg hc]
    exact if_pos (h.resolve_left hc)

/-- All states are sent, when none fails. -/
theorem sendStates_new {names : List Name} (log : Log V)
    (h : ∀ name ∈ names, name = centrald ∨ name ∈ cfg.opened)
    (hok : ∀ i < log.length + names.length, ok i = true) :
    sendStates cfg w ok (names.map AsyncState.new) log =
      (names.map fun name => ⟨name, w.state name⟩,
        log ++ names.map fun name => (.state name (w.state name), true), none) := by
  induction names generalizing log with
  | nil => exact congrArg (fun l => ([], l, none)) (List.append_nil log).symm
  | cons name names ih =>
    obtain ⟨hname, hnames⟩ := List.forall_mem_cons.mp h
    have hconn : cfg.connection (AsyncState.new name).name = some name := connection_self hname
    have hsent := hok log.length (by simp)
    have hrest := ih (log ++ [(.state name (w.state name), true)]) hnames (by
      intro i hi
      rw [List.length_append] at hi
      exact hok i (by simpa [Nat.add_assoc, Nat.add_comm 1] using hi))
    rw [List.map_cons, sendStates]
    simp only [hconn, sendState_tells (AsyncState.new_tells name (w.state name)), hsent]
    rw [hrest]
    simp [AsyncState.new]

/-! ## After the request -/

/-- What holds of a client while it is served. -/
structure Serving (params : List (Name × Name)) (s : System V) : Prop where
  names : s.api.states.map AsyncState.name = (params.filter isState).map Prod.fst
  devices : s.api.devices = (params.filter isAll).map Prod.fst
  values : s.api.values = params.filter fun p => !isState p
  lost : LostLast s.api
  remembered : s.api.source = true → ∀ a ∈ s.api.states, a.last = s.world.state a.name
  shows : s.api.source = true → Shows params s.world s.api.log

theorem isState_of_isAll {p : Name × Name} (h : isAll p = true) : isState p = true :=
  Bool.or_eq_true_iff.mpr (.inr h)

/-- The states, before the values are sent. -/
def Api.told (w : World V) (params : List (Name × Name)) : Api V :=
  { (Api.new params : Api V) with
    states := ((params.filter isState).map Prod.fst).map fun name => ⟨name, w.state name⟩
    log := ((params.filter isState).map Prod.fst).map fun name => (.state name (w.state name), true) }

theorem sendAll_told (h : StartFits cfg ok w params) :
    (Api.new params).sendAll cfg w ok = sendDevices cfg w ok (Api.told w params) := by
  have hstates : (Api.new params : Api V).states =
      ((params.filter isState).map Prod.fst).map AsyncState.new := by
    rw [List.map_map]
    rfl
  have hconn : ∀ name ∈ (params.filter isState).map Prod.fst, name = centrald ∨ name ∈ cfg.opened := by
    intro name hname
    obtain ⟨p, hp, rfl⟩ := List.mem_map.mp hname
    exact h.states p (List.mem_of_mem_filter hp) (List.mem_filter.mp hp).2
  have hok : ∀ i < ([] : Log V).length + ((params.filter isState).map Prod.fst).length, ok i = true :=
    fun i hi => h.sent i (by simpa using hi)
  have hsent := @sendStates_new V cfg ok w _ [] hconn hok
  unfold Api.sendAll
  rw [hstates]
  simp only [show (Api.new params : Api V).log = [] from rfl, hsent]
  rfl

theorem Api.told_lost : LostLast (Api.told w params) := by
  refine .inl ⟨rfl, fun m hm => ?_⟩
  obtain ⟨name, -, rfl⟩ := List.mem_map.mp hm
  rfl

/-- The values that `sendAll` sends: of what is asked for, all that there is. -/
theorem sendDevices_sent (h : StartFits cfg ok w params) :
    ∃ messages, (sendDevices cfg w ok (Api.told w params)).2 = none ∧
      Sent (Api.told w params) (sendDevices cfg w ok (Api.told w params)).1 messages ∧
      (∀ m ∈ messages, m.Present w) ∧
      ∀ device name v, ValueOf params device name → w.getValue device name = some v →
        .value device v.1 v.2 ∈ messages := by
  have hdevices : (Api.told w params).devices = (params.filter isAll).map Prod.fst := rfl
  cases hfirst : (params.filter isAll).map Prod.fst with
  | nil =>
    have hnone : ∀ p ∈ params, isAll p = false := by
      intro p hp
      have hempty := List.map_eq_nil_iff.mp hfirst
      exact Bool.eq_false_iff.mpr (List.filter_eq_nil_iff.mp hempty p hp)
    have hfound : ∀ p ∈ params.filter fun p => !isState p,
        (p.1 = cfg.ownName ∨ p.1 ∈ cfg.opened) ∧ (w.getValue p.1 p.2).isSome = true := by
      intro p hp
      obtain ⟨hp, hstate⟩ := List.mem_filter.mp hp
      exact h.values hnone p hp (Bool.not_eq_true' _ ▸ hstate)
    have hvalues := @sendValues_sent V cfg ok w _ (Api.told w params) hfound
    have hsend : sendDevices cfg w ok (Api.told w params) =
        sendValues cfg w ok (params.filter fun p => !isState p) (Api.told w params) := by
      unfold sendDevices
      rw [hdevices, hfirst]
      rfl
    rw [hsend]
    refine ⟨_, hvalues.1, hvalues.2, ?_, ?_⟩
    · intro m hm
      obtain ⟨p, -, hp⟩ := List.mem_filterMap.mp hm
      obtain ⟨value, hvalue, rfl⟩ := Option.map_eq_some_iff.mp hp
      exact World.getValue_self hvalue
    · intro device name v hof hv
      obtain ⟨p, hp, rfl, hof⟩ := hof
      obtain ⟨hstate, hname⟩ := hof.resolve_left (by rw [hnone p hp]; exact Bool.false_ne_true)
      refine List.mem_filterMap.mpr ⟨p, List.mem_filter.mpr ⟨hp, by rw [hstate]; rfl⟩, ?_⟩
      rw [World.getValue_congr hname, hv]
      rfl
  | cons first rest =>
    have hmem : first ∈ (params.filter isAll).map Prod.fst := by
      rw [hfirst]
      exact List.mem_cons_self
    have hconn : cfg.connection first = some first := by
      obtain ⟨p, hp, rfl⟩ := List.mem_map.mp hmem
      obtain ⟨hp, hall⟩ := List.mem_filter.mp hp
      exact connection_self (h.states p hp (isState_of_isAll hall))
    have hsend : sendDevices cfg w ok (Api.told w params) =
        ((w.values first).foldl (sendValue ok first) (Api.told w params), none) := by
      unfold sendDevices
      rw [hdevices, hfirst]
      simp only [hconn]
    rw [hsend]
    refine ⟨_, rfl, foldl_sent first (w.values first) (Api.told w params), ?_, ?_⟩
    · intro m hm
      obtain ⟨v, hv, rfl⟩ := List.mem_map.mp hm
      exact World.getValue_of_mem hv
    · intro device name v hof hv
      obtain ⟨p, hp, rfl, hof⟩ := hof
      have hin := (World.getValue_spec hv).1
      have hone : p.1 = first := by
        refine h.single first (by rw [hfirst]; rfl) p hp ?_
        exact hof.imp (fun hall => ⟨hall, List.ne_nil_of_mem hin⟩) And.left
      rw [hone] at hin ⊢
      exact List.mem_map.mpr ⟨v, hin, rfl⟩

theorem serving_start (h : StartFits cfg ok w params) :
    ((Api.new params).sendAll cfg w ok).2 = none ∧ Serving params (.start cfg ok w params) := by
  obtain ⟨messages, hnone, hsent, hpresent, hall⟩ := sendDevices_sent h
  rw [← sendAll_told h] at hnone hsent
  refine ⟨hnone, ?_⟩
  have hstates : (System.start cfg ok w params).api.states =
      ((params.filter isState).map Prod.fst).map fun name => ⟨name, w.state name⟩ := hsent.states
  refine ⟨?_, hsent.devices, hsent.values, hsent.lost Api.told_lost, ?_, ?_⟩
  · rw [hstates, List.map_map]
    exact List.map_id _
  · intro _ a ha
    rw [hstates] at ha
    obtain ⟨name, -, rfl⟩ := List.mem_map.mp ha
    rfl
  · intro hsource
    have hlog : (System.start cfg ok w params).api.log =
        (Api.told w params).log ++ messages.map fun m => (m, true) := (hsent.all hsource).2
    have hlogPresent : ∀ m ∈ (System.start cfg ok w params).api.log, m.1.Present w := by
      intro m hm
      rw [hlog] at hm
      rcases List.mem_append.mp hm with hm | hm
      · obtain ⟨name, -, rfl⟩ := List.mem_map.mp hm
        exact rfl
      · obtain ⟨message, hmessage, rfl⟩ := List.mem_map.mp hm
        exact hpresent message hmessage
    refine ⟨?_, ?_⟩
    · intro device hof
      obtain ⟨p, hp, hstate, rfl⟩ := hof
      refine lastState_present hlogPresent ⟨(.state p.1 (w.state p.1), true), ?_, rfl⟩
      rw [hlog]
      refine List.mem_append_left _ (List.mem_map.mpr ⟨p.1, ?_, rfl⟩)
      exact List.mem_map_of_mem (List.mem_filter.mpr ⟨hp, hstate⟩)
    · intro device name hof
      refine lastValue_present hlogPresent fun v hv => ⟨(.value device v.1 v.2, true), ?_, rfl⟩
      rw [hlog]
      exact List.mem_append_right _ (List.mem_map_of_mem (hall device name v hof hv))

/-! ## A change of a state -/

section
variable (log : Log V) (device : Name)

/-- Nothing is sent when no state of the device is told anew. -/
theorem walkStates_none {states : List AsyncState}
    (h : ∀ a ∈ states, a.name = cfg.connName device ∨ device = centrald ∧ a.name = centrald →
      ¬Tells a.last (w.state device)) :
    walkStates cfg w ok device states log = (states, log) := by
  induction states with
  | nil => rfl
  | cons a states ih =>
    obtain ⟨ha, hstates⟩ := List.forall_mem_cons.mp h
    unfold walkStates
    split
    case isTrue hname => simp only [sendState_same (ha hname), ih hstates]
    case isFalse => simp only [ih hstates]

theorem walkStates_append (states states' : List AsyncState) :
    walkStates cfg w ok device (states ++ states') log =
      ((walkStates cfg w ok device states log).1 ++
        (walkStates cfg w ok device states' (walkStates cfg w ok device states log).2).1,
      (walkStates cfg w ok device states' (walkStates cfg w ok device states log).2).2) := by
  induction states generalizing log with
  | nil => rfl
  | cons a states ih =>
    by_cases hname : a.name = cfg.connName device ∨ device = centrald ∧ a.name = centrald
    · simp only [List.cons_append, walkStates, if_pos hname, ih]
    · simp only [List.cons_append, walkStates, if_neg hname, ih]

/-- One message is sent when one state of the device is told anew. -/
theorem walkStates_one {before after : List AsyncState} {a : AsyncState}
    (hname : a.name = cfg.connName device ∨ device = centrald ∧ a.name = centrald)
    (ha : Tells a.last (w.state device))
    (hothers : ∀ b ∈ before ++ after,
      ¬(b.name = cfg.connName device ∨ device = centrald ∧ b.name = centrald)) :
    walkStates cfg w ok device (before ++ a :: after) log =
      (before ++ ⟨a.name, w.state device⟩ :: after,
        log ++ [(.state device (w.state device), ok log.length)]) := by
  have hbefore : ∀ log : Log V, walkStates cfg w ok device before log = (before, log) := fun log =>
    walkStates_none log device fun b hb hb' => absurd hb' (hothers b (List.mem_append_left _ hb))
  have hafter : ∀ log : Log V, walkStates cfg w ok device after log = (after, log) := fun log =>
    walkStates_none log device fun b hb hb' => absurd hb' (hothers b (List.mem_append_right _ hb))
  have hone : walkStates cfg w ok device (a :: after) log =
      (⟨a.name, w.state device⟩ :: after,
        log ++ [(.state device (w.state device), ok log.length)]) := by
    rw [walkStates, if_pos hname]
    simp only [sendState_tells ha, hafter]
  rw [walkStates_append, hbefore]
  simp only [hone]

end

/-! ## Steps -/

variable {s : System V}

/-- Nothing is sent once the source is lost. -/
theorem step_lost (h : s.api.source = false) (e : Event V) : (s.step cfg ok e).api = s.api := by
  have hnot : ¬s.api.source = true := by
    rw [h]
    exact Bool.false_ne_true
  cases e with
  | state device progress => exact if_neg hnot
  | value device name content => exact if_neg hnot

/-- A value is sent when it was asked for by the name of the connection. -/
theorem valueChanged_eq (h : Serving params s) (hsource : s.api.source = true) (device : Name)
    (value : Name × V) :
    s.api.valueChanged cfg ok device value =
      if ValueOf params (cfg.connName device) value.1 then
        sendValue ok (cfg.connName device) s.api value
      else s.api := by
  unfold Api.valueChanged
  rw [if_pos hsource]
  cases hdevice : s.api.devices.find? fun name => decide (name = cfg.connName device) with
  | some name =>
    have hfound := List.find?_some hdevice
    have hname : name = cfg.connName device := of_decide_eq_true hfound
    have hin := List.mem_of_find?_eq_some hdevice
    rw [h.devices] at hin
    obtain ⟨p, hp, hpname⟩ := List.mem_map.mp hin
    obtain ⟨hp, hall⟩ := List.mem_filter.mp hp
    rw [if_pos ⟨p, hp, hpname.trans hname, .inl hall⟩, hname]
  | none =>
    have hnotAll : ∀ p ∈ params, isAll p = true → p.1 ≠ cfg.connName device := by
      intro p hp hall
      have hnone := List.find?_eq_none.mp hdevice p.1 (by
        rw [h.devices]
        exact List.mem_map_of_mem (List.mem_filter.mpr ⟨hp, hall⟩))
      exact fun heq => hnone (decide_eq_true heq)
    cases hvalue : s.api.values.find? fun v =>
        decide (v.1 = cfg.connName device) && isValue v.2 value.1 with
    | some v =>
      have hfound := List.find?_some hvalue
      obtain ⟨hv, hname⟩ := Bool.and_eq_true_iff.mp hfound
      have hin := List.mem_of_find?_eq_some hvalue
      rw [h.values] at hin
      obtain ⟨hp, hstate⟩ := List.mem_filter.mp hin
      have hstate : isState v = false := Bool.not_eq_true' _ ▸ hstate
      rw [if_pos ⟨v, hp, of_decide_eq_true hv, .inr ⟨hstate, hname⟩⟩]
      simp only [of_decide_eq_true hv]
    | none =>
      rw [if_neg]
      intro hof
      obtain ⟨p, hp, hpname, hof⟩ := hof
      obtain ⟨hstate, hname⟩ := hof.resolve_left fun hall => hnotAll p hp hall hpname
      refine List.find?_eq_none.mp hvalue p ?_ ?_
      · rw [h.values]
        exact List.mem_filter.mpr ⟨hp, by rw [hstate]; rfl⟩
      · rw [hname, hpname, decide_eq_true rfl]
        rfl

theorem Serving.same (h : Serving params s) {s' : System V} (hapi : s'.api = s.api)
    (hremembered : s.api.source = true → ∀ a ∈ s.api.states, a.last = s'.world.state a.name)
    (hshows : s.api.source = true → Shows params s'.world s.api.log) : Serving params s' := by
  obtain ⟨world, api⟩ := s'
  cases hapi
  exact ⟨h.names, h.devices, h.values, h.lost, hremembered, hshows⟩

/-- What a change of a value does. -/
theorem step_value (h : Serving params s) (hsource : s.api.source = true) {device name : Name}
    {content : V} (hfits : StepFits cfg ok params s (.value device name content)) :
    (s.step cfg ok (.value device name content)).api =
      if ValueOf params device name then sendValue ok device s.api (name, content) else s.api := by
  obtain ⟨-, hname⟩ := hfits hsource
  have heq := @valueChanged_eq V cfg ok params s h hsource device (name, content)
  rcases hname with hname | ⟨hnot, hnot'⟩
  · rw [hname] at heq
    exact heq
  · rw [if_neg hnot'] at heq
    rw [if_neg hnot]
    exact heq

theorem Shows.value_other {log : Log V} (h : Shows params w log) {device name : Name} {content : V}
    (hnot : ¬ValueOf params device name) : Shows params (w.apply (.value device name content)) log where
  state := h.state
  value d n hof := by
    rw [h.value d n hof, World.getValue_apply, if_neg]
    intro hsame
    obtain ⟨p, hp, hdevice, hname⟩ := hof
    refine hnot ⟨p, hp, hdevice.trans hsame.1, hname.imp_right fun hn => ⟨hn.1, ?_⟩⟩
    rw [isValue_congr hn.2]
    exact hsame.2

theorem Shows.value_sent {log : Log V} (h : Shows params w log) {device name : Name} {content : V}
    (hvalue : (w.getValue device name).isSome = true) (sent : Bool) :
    Shows params (w.apply (.value device name content))
      (log ++ [(.value device name content, sent)]) where
  state d hof := by
    rw [lastState_value]
    exact h.state d hof
  value d n hof := by
    rw [lastValue_value, World.getValue_apply, h.value d n hof]
    by_cases hsame : d = device ∧ isValue n name = true
    · obtain ⟨v, hv⟩ := Option.isSome_iff_exists.mp hvalue
      rw [if_pos ⟨hsame.1.symm, hsame.2⟩, if_pos hsame, hsame.1, World.getValue_congr hsame.2, hv]
      rfl
    · rw [if_neg fun hs => hsame ⟨hs.1.symm, hs.2⟩, if_neg hsame]

theorem Serving.step_value (h : Serving params s) (hsource : s.api.source = true) {device name : Name}
    {content : V} (hfits : StepFits cfg ok params s (.value device name content)) :
    Serving params (s.step cfg ok (.value device name content)) := by
  have hvalue := (hfits hsource).1
  have hstep := AsyncValue.step_value h hsource hfits
  by_cases hof : ValueOf params device name
  · rw [if_pos hof] at hstep
    have hsent := @sendValue_sent V ok device s.api (name, content)
    rw [← hstep] at hsent
    refine ⟨?_, hsent.devices.trans h.devices, hsent.values.trans h.values, hsent.lost h.lost, ?_, ?_⟩
    · rw [hsent.states]
      exact h.names
    · intro _
      rw [hsent.states]
      exact h.remembered hsource
    · intro hstill
      rw [(hsent.all hstill).2]
      exact (h.shows hsource).value_sent hvalue true
  · rw [if_neg hof] at hstep
    exact h.same hstep (fun hs => h.remembered hs) fun hs => (h.shows hs).value_other hof

theorem stateOf_iff (h : Serving params s) {device : Name} :
    StateOf params device ↔ device ∈ s.api.states.map AsyncState.name := by
  rw [h.names, List.mem_map]
  constructor
  · intro hof
    obtain ⟨p, hp, hstate, hname⟩ := hof
    exact ⟨p, List.mem_filter.mpr ⟨hp, hstate⟩, hname⟩
  · intro hmem
    obtain ⟨p, hp, hname⟩ := hmem
    exact ⟨p, List.mem_of_mem_filter hp, (List.mem_filter.mp hp).2, hname⟩

/-- The states that `stateChanged` looks at are those of the device. -/
theorem looked_iff (h : Serving params s) {device : Name} {a : AsyncState} (ha : a ∈ s.api.states)
    (hcentral : device = centrald → StateOf params cfg.centralName → cfg.centralName = centrald) :
    (a.name = cfg.connName device ∨ device = centrald ∧ a.name = centrald) ↔ a.name = device := by
  unfold Config.connName
  by_cases hd : device = centrald
  · rw [if_pos hd]
    constructor
    · intro hlooked
      rcases hlooked with hname | ⟨-, hname⟩
      · have hof := (stateOf_iff h).mpr (List.mem_map_of_mem ha)
        rw [hname] at hof ⊢
        exact (hcentral hd hof).trans hd.symm
      · exact hname.trans hd.symm
    · exact fun hname => .inr ⟨hd, hname.trans hd⟩
  · rw [if_neg hd]
    exact ⟨fun hlooked => hlooked.resolve_right fun hc => hd hc.1, .inl⟩

theorem mem_with {α : Type} (a : α) {b : α} {before after : List α} (h : b ∈ before ++ after) :
    b ∈ before ++ a :: after := by
  rcases List.mem_append.mp h with hb | hb
  · exact List.mem_append_left _ hb
  · exact List.mem_append_right _ (List.mem_cons_of_mem _ hb)

/-- What a change of a state does: nothing, or one message and one state that is remembered. -/
theorem step_state (h : Serving params s) (hsource : s.api.source = true) {device : Name}
    {progress : Progress} (hfits : StepFits cfg ok params s (.state device progress)) :
    (s.step cfg ok (.state device progress)).api = s.api ∧
        ¬(StateOf params device ∧ Tells (s.world.state device) progress) ∨
      StateOf params device ∧ Tells (s.world.state device) progress ∧ ∃ before a after,
        s.api.states = before ++ a :: after ∧ a.name = device ∧
          (∀ b ∈ before ++ after, b.name ≠ device) ∧
          (s.step cfg ok (.state device progress)).api =
            { s.api with
              states := before ++ ⟨device, progress⟩ :: after
              log := s.api.log ++ [(.state device progress, true)] } := by
  obtain ⟨hcentral, hone⟩ := hfits hsource
  have hnow : (s.world.apply (.state device progress)).state device = progress := if_pos rfl
  have hstep : (s.step cfg ok (.state device progress)).api =
      s.api.stateChanged cfg (s.world.apply (.state device progress)) ok device := rfl
  rw [hstep]
  unfold Api.stateChanged
  rw [if_pos hsource]
  by_cases htold : StateOf params device ∧ Tells (s.world.state device) progress
  · obtain ⟨hof, htells⟩ := htold
    obtain ⟨hcount, hok⟩ := hone htells
    obtain ⟨a, ha, hname⟩ := List.mem_map.mp ((stateOf_iff h).mp hof)
    obtain ⟨before, after, hsplit⟩ := List.append_of_mem ha
    have hothers : ∀ b ∈ before ++ after, b.name ≠ device := by
      intro b hb hb'
      rw [← h.names, hsplit, List.map_append, List.map_cons, List.count_append, hname,
        List.count_cons_self, ← Nat.add_assoc, ← List.count_append, ← List.map_append] at hcount
      have hpos := List.count_pos_iff.mpr (List.mem_map_of_mem (f := AsyncState.name) hb)
      rw [hb'] at hpos
      omega
    have hlooked : ∀ b ∈ before ++ a :: after,
        ((b.name = cfg.connName device ∨ device = centrald ∧ b.name = centrald) ↔ b.name = device) :=
      fun b hb => looked_iff h (hsplit ▸ hb) hcentral
    have htells' : Tells a.last ((s.world.apply (.state device progress)).state device) := by
      rw [hnow, h.remembered hsource a ha, hname]
      exact htells
    have hnot : ∀ b ∈ before ++ after,
        ¬(b.name = cfg.connName device ∨ device = centrald ∧ b.name = centrald) := by
      intro b hb hb'
      exact hothers b hb ((hlooked b (mem_with a hb)).mp hb')
    have hlook := (hlooked a (List.mem_append_right _ List.mem_cons_self)).mpr hname
    have hwalk := @walkStates_one V cfg ok _ s.api.log device before after a hlook htells' hnot
    refine .inr ⟨hof, htells, before, a, after, hsplit, hname, hothers, ?_⟩
    rw [hsplit, hwalk, hnow, hok hof, hname]
  · refine .inl ⟨?_, htold⟩
    rw [walkStates_none s.api.log device fun a ha hlooked htells => htold ?_]
    have hname := (looked_iff h ha hcentral).mp hlooked
    rw [hnow, h.remembered hsource a ha, hname] at htells
    exact ⟨(stateOf_iff h).mpr (hname ▸ List.mem_map_of_mem ha), htells⟩

theorem Shows.state_sent {log : Log V} (h : Shows params w log) (device : Name) (progress : Progress)
    (sent : Bool) :
    Shows params (w.apply (.state device progress)) (log ++ [(.state device progress, sent)]) where
  state d hof := by
    rw [lastState_state]
    by_cases hd : d = device
    · rw [if_pos hd.symm]
      exact congrArg some (if_pos hd).symm
    · rw [if_neg fun hs => hd hs.symm, h.state d hof]
      exact congrArg some (if_neg hd).symm
  value d n hof := by
    rw [lastValue_state]
    exact h.value d n hof

theorem Shows.state_same {log : Log V} (h : Shows params w log) {device : Name} {progress : Progress}
    (hnot : ¬(StateOf params device ∧ Tells (w.state device) progress)) :
    Shows params (w.apply (.state device progress)) log where
  state d hof := by
    rw [h.state d hof]
    by_cases hd : d = device
    · have hsame : w.state device = progress := by
        rw [hd] at hof
        exact Classical.not_not.mp fun hne => hnot ⟨hof, .inl hne⟩
      rw [hd, hsame]
      exact congrArg some (if_pos rfl).symm
    · exact congrArg some (if_neg hd).symm
  value d n hof := h.value d n hof

theorem Serving.step_state (h : Serving params s) (hsource : s.api.source = true) {device : Name}
    {progress : Progress} (hfits : StepFits cfg ok params s (.state device progress)) :
    Serving params (s.step cfg ok (.state device progress)) := by
  have hworld : ∀ d, (s.step cfg ok (.state device progress)).world.state d =
      if d = device then progress else s.world.state d := fun d => rfl
  rcases AsyncValue.step_state h hsource hfits with
    ⟨hstep, hnot⟩ | ⟨-, htells, before, a, after, hsplit, hname, hothers, hstep⟩
  · refine h.same hstep (fun _ b hb => ?_) fun hs => (h.shows hs).state_same hnot
    rw [hworld, h.remembered hsource b hb]
    by_cases hd : b.name = device
    · have hof := (stateOf_iff h).mpr (List.mem_map_of_mem hb)
      rw [hd] at hof
      rw [if_pos hd, hd]
      exact Classical.not_not.mp fun hne => hnot ⟨hof, .inl hne⟩
    · rw [if_neg hd]
  · have hnames := h.names
    rw [hsplit] at hnames
    refine ⟨?_, ?_, ?_, ?_, ?_, ?_⟩
    · rw [hstep, ← hnames, List.map_append, List.map_append, List.map_cons, List.map_cons, hname]
    · rw [hstep]; exact h.devices
    · rw [hstep]; exact h.values
    · rw [hstep]
      rcases h.lost with ⟨-, hall⟩ | ⟨hlost, -⟩
      · refine .inl ⟨hsource, fun m hm => ?_⟩
        rcases List.mem_append.mp hm with hm | hm
        · exact hall m hm
        · rw [List.mem_singleton.mp hm]
      · rw [hsource] at hlost
        cases hlost
    · rw [hstep]
      intro _ b hb
      rw [hworld]
      have hother : b ∈ before ++ after →
          b.last = if b.name = device then progress else s.world.state b.name := by
        intro hb
        rw [if_neg (hothers b hb)]
        refine h.remembered hsource b ?_
        rw [hsplit]
        exact mem_with a hb
      rcases List.mem_append.mp hb with hb | hb
      · exact hother (List.mem_append_left _ hb)
      · rcases List.mem_cons.mp hb with rfl | hb
        · exact (if_pos rfl).symm
        · exact hother (List.mem_append_right _ hb)
    · rw [hstep]
      intro _
      exact (h.shows hsource).state_sent device progress true

/-- **Step**: a change that fits is told to the client. -/
theorem Serving.step (h : Serving params s) {e : Event V} (hfits : StepFits cfg ok params s e) :
    Serving params (s.step cfg ok e) := by
  cases hsource : s.api.source with
  | true =>
    cases e with
    | state device progress => exact h.step_state hsource hfits
    | value device name content => exact h.step_value hsource hfits
  | false =>
    have hnot : ¬s.api.source = true := by
      rw [hsource]
      exact Bool.false_ne_true
    exact h.same (step_lost hsource e) (fun hs => absurd hs hnot) fun hs => absurd hs hnot

theorem Serving.sentOnce (h : Serving params s) {e : Event V} (hfits : StepFits cfg ok params s e) :
    SentOnce cfg ok params s e := by
  unfold SentOnce
  cases hsource : s.api.source with
  | false => rw [step_lost hsource e, if_neg Bool.false_ne_true]
  | true =>
    rw [if_pos rfl]
    cases e with
    | state device progress =>
      rcases AsyncValue.step_state h hsource hfits with
        ⟨hstep, hnot⟩ | ⟨hof, htells, _, _, _, -, -, -, hstep⟩
      · rw [hstep, message, if_neg hnot]
        exact (List.append_nil _).symm
      · have hok := ((hfits hsource).2 htells).2 hof
        rw [hstep, message, if_pos ⟨hof, htells⟩, hok]
        rfl
    | value device name content =>
      rw [AsyncValue.step_value h hsource hfits, message]
      by_cases hof : ValueOf params device name
      · rw [if_pos hof, if_pos hof]
        unfold sendValue
        rw [if_pos hsource]
        rfl
      · rw [if_neg hof, if_neg hof]
        exact (List.append_nil _).symm

/-! ## Runs -/

theorem serving_run (hstart : StartFits cfg ok w params) {events : List (Event V)}
    (hfits : Along (System.step cfg ok) (StepFits cfg ok params) (.start cfg ok w params) events) :
    Serving params (run (System.step cfg ok) (.start cfg ok w params) events) :=
  hfits.invariant (serving_start hstart).2 fun _ _ h => h.step

/-- **Run**: `sendAll` does not throw, the last message about everything that was asked for shows
what it is, a change is sent once, and no send follows one that failed. -/
theorem pushed_shows (cfg : Config) (ok : Nat → Bool) (w : World V) (params : List (Name × Name))
    (events : List (Event V)) (hstart : StartFits cfg ok w params)
    (hfits : Along (System.step cfg ok) (StepFits cfg ok params) (.start cfg ok w params) events) :
    ((Api.new params).sendAll cfg w ok).2 = none ∧
      (∀ before after, events = before ++ after →
        let s := run (System.step cfg ok) (.start cfg ok w params) before
        LostLast s.api ∧ (s.api.source = true → Shows params s.world s.api.log)) ∧
      ∀ before e after, events = before ++ e :: after →
        SentOnce cfg ok params (run (System.step cfg ok) (.start cfg ok w params) before) e := by
  refine ⟨(serving_start hstart).1, ?_, ?_⟩
  · intro before after hsplit
    rw [hsplit, along_append] at hfits
    have hserving := serving_run hstart hfits.1
    exact ⟨hserving.lost, hserving.shows⟩
  · intro before e after hsplit
    rw [hsplit, along_append, along_cons] at hfits
    exact (serving_run hstart hfits.1).sentOnce hfits.2.1

/-! ## A camera and a telescope -/

/-- A camera with an exposure, and a telescope with a right ascension. -/
def night : World Nat where
  state := fun _ => ⟨0, none, none⟩
  values := fun device =>
    if device = ['C', '0'] then [(['e', 'x', 'p'], 10)]
    else if device = ['T', '0'] then [(['R', 'A'], 120)] else []
  distinct := by
    intro device
    split
    · exact List.pairwise_singleton _ _
    · split
      · exact List.pairwise_singleton _ _
      · exact List.Pairwise.nil

def nightConfig : Config := ⟨['H', 'T', 'T', 'P'], [['C', '0'], ['T', '0']], []⟩

/-- The camera and the state of the telescope are pushed, until a send fails. -/
theorem pushed_shows_night :
    let params := [(['C', '0'], ['*']), (['T', '0'], ['_', '_', 'S', '_', '_'])]
    let events : List (Event Nat) := [.value ['C', '0'] ['E', 'X', 'P'] 20,
      .state ['T', '0'] ⟨2, none, none⟩, .value ['T', '0'] ['R', 'A'] 130,
      .value ['C', '0'] ['e', 'x', 'p'] 30, .state ['C', '0'] ⟨1, none, none⟩]
    ((Api.new params).sendAll nightConfig night (· ≠ 5)).2 = none ∧
      (∀ before after, events = before ++ after →
        let s := run (System.step nightConfig (· ≠ 5)) (.start nightConfig (· ≠ 5) night params) before
        LostLast s.api ∧ (s.api.source = true → Shows params s.world s.api.log)) ∧
      ∀ before e after, events = before ++ e :: after →
        SentOnce nightConfig (· ≠ 5) params
          (run (System.step nightConfig (· ≠ 5)) (.start nightConfig (· ≠ 5) night params) before) e := by
  refine pushed_shows nightConfig _ night _ _ ⟨?_, ?_, ?_, ?_⟩ ?_
  · decide
  · decide
  · decide
  · decide
  · decide +kernel

/-- Of two devices with all their values, the values of the second one are not sent. -/
theorem second_device_not_sent :
    ¬∀ (cfg : Config) (ok : Nat → Bool) (w : World Nat) (params : List (Name × Name)),
      (∀ p ∈ params, p.1 ∈ cfg.opened) → (∀ i, ok i = true) →
        Shows params w (System.start cfg ok w params).api.log := by
  intro h
  have hshows := h nightConfig (fun _ => true) night [(['C', '0'], ['*']), (['T', '0'], ['*'])]
    (by decide) fun _ => rfl
  have hvalue := hshows.value ['T', '0'] ['R', 'A'] (by decide)
  exact absurd hvalue (by decide)

end Rts2.Rts2json.AsyncValue

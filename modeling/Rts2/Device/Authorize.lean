import Rts2.Connection.CommandQue
import Rts2.Lib.Run

/-! # Authorization of incoming connections

A client that connects to a device sends `auth id centraldNum key`. The device
notes the id on the connection and asks the central server of that number with
`authorize id key`. The answer, `A authorization_ok id` or
`A authorization_failed id`, names the id alone, and the device gives it to the
first connection in its list that holds the id. The queries and the answers
under way are lists from which any member may be taken next, so every order in
which the central servers answer is a run. -/
namespace Rts2.Authorize
open Rts2.Lib
open Rts2.CommandQue (ConnState)

/-! ## The device and its connections -/

/-- What a connection supplies with `auth`. -/
structure AuthRequest where
  authId : Int
  centraldNum : Int
  authKey : Int
  deriving DecidableEq, Repr

/-- An incoming `DevConnection`. `supplied` are the requests made over it; the
device keeps only the last id and key. -/
structure DevConnection where
  centraldId : Int
  key : Int
  connState : ConnState
  supplied : List AuthRequest
  deriving DecidableEq, Repr

/-- A connection `accept` has just returned. -/
def DevConnection.accepted : DevConnection := ⟨-1, 0, .connected, []⟩

/-- `setCentraldId` and `setKey` with the parameters of `auth`. -/
def DevConnection.claim (c : DevConnection) (r : AuthRequest) : DevConnection :=
  { c with centraldId := r.authId, key := r.authKey, supplied := r :: c.supplied }

/-- `setConnState`. A failed authorization goes through `connectionError`, and a
`DevConnection` can always be deleted. -/
def DevConnection.setConnState (c : DevConnection) (new : ConnState) : DevConnection :=
  { c with connState := if new = .authFailed then .delete else new }

/-- `DevConnection::authorizationOK`. -/
def DevConnection.authorizationOK (c : DevConnection) : DevConnection :=
  c.setConnState .authOk

/-- `DevConnection::authorizationFailed`. -/
def DevConnection.authorizationFailed (c : DevConnection) : DevConnection :=
  { c with centraldId := -1 }.setConnState .delete

/-- The texts after `A`. -/
inductive AValue where
  | authorizationOk
  | authorizationFailed
  deriving DecidableEq, Repr

/-- An `A` line on its way to the device. The line carries `about.authId` and
nothing else of the request it answers. -/
structure AReply where
  value : AValue
  about : AuthRequest
  deriving DecidableEq, Repr

/-- The device, the queries its central servers have not answered, their answers
under way, and the requests they have accepted. -/
structure Device where
  connections : List DevConnection
  centraldConns : List Int
  queries : List AuthRequest
  replies : List AReply
  accepted : List AuthRequest
  deriving DecidableEq, Repr

/-- A device with these central servers and no connection. -/
def Device.start (centraldConns : List Int) : Device := ⟨[], centraldConns, [], [], []⟩

/-- `Block::findCentralId`. -/
def Device.findCentralId (s : Device) (id : Int) : Option Nat :=
  s.connections.findIdx? fun c => c.centraldId = id

/-- `Device::authorize`: the query is queued on the connection to the central
server of that number, if there is one. -/
def Device.authorize (s : Device) (r : AuthRequest) : Option Device :=
  if r.centraldNum ∈ s.centraldConns then some { s with queries := s.queries ++ [r] } else none

/-- Changes the connection at a place of the list. -/
def Device.modify (s : Device) (i : Nat) (f : DevConnection → DevConnection) : Device :=
  { s with connections := s.connections.modify i f }

/-- The `auth` branch of `DevConnection::command`. -/
def Device.auth (s : Device) (i : Nat) (r : AuthRequest) : Device :=
  let claimed := s.modify i fun c => c.claim r
  match claimed.authorize r with
  | none => claimed.modify i fun c => c.setConnState .authFailed
  | some asked => asked.modify i fun c => c.setConnState .authPending

/-- The `authorize` branch of `ConnCentrald::commandDevice`. `key` is the key of
the client with that id, `none` when it has vanished. -/
def commandDevice (r : AuthRequest) (key : Option Int) : Option AValue :=
  if r.authId < 0 then none
  else match key with
    | none => none
    | some key =>
      if key = 0 then some .authorizationFailed
      else if key ≠ r.authKey then some .authorizationFailed
      else some .authorizationOk

/-- A central server answers one of the queries. -/
def Device.answer (s : Device) (r : AuthRequest) (key : Option Int) : Device :=
  let asked := { s with queries := s.queries.erase r }
  match commandDevice r key with
  | none => asked
  | some .authorizationFailed =>
    { asked with replies := s.replies ++ [⟨.authorizationFailed, r⟩] }
  | some .authorizationOk =>
    { asked with
      replies := s.replies ++ [⟨.authorizationOk, r⟩]
      accepted := r :: s.accepted }

/-- The `A` branch of `DevConnectionMaster::command`. -/
def Device.commandA (s : Device) (a : AReply) : Device :=
  let taken := { s with replies := s.replies.erase a }
  match s.findCentralId a.about.authId with
  | none => taken
  | some i =>
    match a.value with
    | .authorizationOk => taken.modify i DevConnection.authorizationOK
    | .authorizationFailed => taken.modify i DevConnection.authorizationFailed

/-! ## Runs -/

/-- What happens around the device: clients connect, authorize, break and are
deleted, central servers answer, and a broken central connection loses what is
under way on it. -/
inductive Event where
  | connect
  | auth (i : Nat) (r : AuthRequest)
  | answer (r : AuthRequest) (key : Option Int)
  | reply (a : AReply)
  | connectionError (i : Nat)
  | deleteConnection (i : Nat)
  | queryLost (r : AuthRequest)
  | replyLost (a : AReply)
  deriving DecidableEq, Repr

/-- One event. An event about a connection, a query or a reply that does not
exist changes nothing. -/
def step (s : Device) : Event → Device
  | .connect => { s with connections := s.connections ++ [.accepted] }
  | .auth i r => if i < s.connections.length then s.auth i r else s
  | .answer r key => if r ∈ s.queries then s.answer r key else s
  | .reply a => if a ∈ s.replies then s.commandA a else s
  | .connectionError i => s.modify i fun c => c.setConnState .delete
  | .deleteConnection i =>
    match s.connections[i]? with
    | some c => if c.connState = .delete then
        { s with connections := s.connections.eraseIdx i } else s
    | none => s
  | .queryLost r => { s with queries := s.queries.erase r }
  | .replyLost a => { s with replies := s.replies.erase a }

/-! ## Authorised by an own request -/

/-- A central server has accepted a request the connection itself supplied. -/
def DevConnection.Vouched (c : DevConnection) (accepted : List AuthRequest) : Prop :=
  ∃ r ∈ c.supplied, r ∈ accepted

/-- The request is the connection's own, or the connection needs no other. -/
def DevConnection.Owns (c : DevConnection) (accepted : List AuthRequest)
    (r : AuthRequest) : Prop :=
  r ∈ c.supplied ∨ c.Vouched accepted

instance (c : DevConnection) (accepted : List AuthRequest) : Decidable (c.Vouched accepted) :=
  inferInstanceAs (Decidable (∃ r ∈ c.supplied, r ∈ accepted))

instance (c : DevConnection) (accepted : List AuthRequest) (r : AuthRequest) :
    Decidable (c.Owns accepted r) :=
  inferInstanceAs (Decidable (r ∈ c.supplied ∨ c.Vouched accepted))

/-- Only connections with an accepted request of their own are authorised. -/
def Device.Sound (s : Device) : Prop :=
  ∀ c ∈ s.connections, c.connState = .authOk → c.Vouched s.accepted

instance (s : Device) : Decidable s.Sound :=
  inferInstanceAs (Decidable (∀ c ∈ s.connections, c.connState = .authOk → c.Vouched s.accepted))

/-- The requests that can still bring an `authorization_ok`: the query is
unanswered or the answer is under way. -/
def Device.openRequests (s : Device) : List AuthRequest :=
  s.queries ++ (s.replies.filter fun a => a.value = .authorizationOk).map (·.about)

@[simp] theorem mem_openRequests {s : Device} {r : AuthRequest} :
    r ∈ s.openRequests ↔ r ∈ s.queries ∨ ⟨.authorizationOk, r⟩ ∈ s.replies := by
  simp only [Device.openRequests, List.mem_append, List.mem_map, List.mem_filter,
    decide_eq_true_eq]
  refine or_congr_right ⟨?_, fun h => ⟨_, ⟨h, rfl⟩, rfl⟩⟩
  rintro ⟨⟨value, about⟩, ⟨hin, rfl⟩, rfl⟩
  exact hin

/-- No two connections are after one id. A request names an id no other
connection holds, unless with this very request, and no query about the id is
open but this connection's own. -/
def Unambiguous (s : Device) : Event → Prop
  | .auth i r =>
    (0 ≤ r.authId → r.centraldNum ∈ s.centraldConns →
      ∀ c ∈ s.connections.eraseIdx i, c.centraldId = r.authId → c.Owns s.accepted r) ∧
    ∀ c ∈ s.connections[i]?, ∀ q ∈ s.openRequests, 0 ≤ q.authId → q.authId = r.authId →
      q = r ∨ c.Owns s.accepted q
  | _ => True

instance (s : Device) : DecidablePred (Unambiguous s)
  | .auth _ _ => inferInstanceAs (Decidable (_ ∧ _))
  | .connect => isTrue trivial
  | .answer _ _ => isTrue trivial
  | .reply _ => isTrue trivial
  | .connectionError _ => isTrue trivial
  | .deleteConnection _ => isTrue trivial
  | .queryLost _ => isTrue trivial
  | .replyLost _ => isTrue trivial

/-- Whoever holds the id of an open request owns the request. -/
structure Matched (s : Device) : Prop where
  answered : ∀ r, ⟨.authorizationOk, r⟩ ∈ s.replies → r ∈ s.accepted ∧ 0 ≤ r.authId
  holder : ∀ c ∈ s.connections, ∀ r ∈ s.openRequests, 0 ≤ r.authId →
    c.centraldId = r.authId → c.Owns s.accepted r
  sound : s.Sound

theorem DevConnection.Vouched.mono {c : DevConnection} {rs rs' : List AuthRequest}
    (h : c.Vouched rs) (hsub : rs ⊆ rs') : c.Vouched rs' := by
  obtain ⟨r, hr, hin⟩ := h
  exact ⟨r, hr, hsub hin⟩

theorem DevConnection.Owns.mono {c : DevConnection} {rs rs' : List AuthRequest} {r : AuthRequest}
    (h : c.Owns rs r) (hsub : rs ⊆ rs') : c.Owns rs' r :=
  h.imp_right fun hv => hv.mono hsub

/-- An accepted request is owned only by a vouched connection. -/
theorem DevConnection.Owns.vouched {c : DevConnection} {rs : List AuthRequest} {r : AuthRequest}
    (h : c.Owns rs r) (hr : r ∈ rs) : c.Vouched rs :=
  h.elim (fun hown => ⟨r, hown, hr⟩) id

theorem mem_modify {α : Type*} {l : List α} {i : Nat} {f : α → α} {c : α}
    (h : c ∈ l.modify i f) : c ∈ l.eraseIdx i ∨ ∃ a ∈ l[i]?, c = f a := by
  obtain ⟨j, hj⟩ := List.mem_iff_getElem?.mp h
  rw [List.getElem?_modify] at hj
  by_cases hij : i = j
  · subst hij
    simp only [if_pos] at hj
    obtain ⟨a, ha, rfl⟩ := Option.map_eq_some_iff.mp hj
    exact .inr ⟨a, ha, rfl⟩
  · simp only [hij, if_false, id_map'] at hj
    exact .inl (List.mem_eraseIdx_iff_getElem?.mpr ⟨j, fun he => hij he.symm, by simpa using hj⟩)

/-- `c` is the connection `old` after a step that is no new claim. -/
structure Stays (accepted : List AuthRequest) (old c : DevConnection) : Prop where
  supplied : c.supplied = old.supplied
  centraldId : c.centraldId = old.centraldId ∨ c.centraldId = -1
  authOk : c.connState = .authOk → old.connState = .authOk ∨ old.Vouched accepted

theorem Stays.refl (accepted : List AuthRequest) (c : DevConnection) : Stays accepted c c :=
  ⟨rfl, .inl rfl, .inl⟩

theorem stays_delete (accepted : List AuthRequest) (c : DevConnection) :
    Stays accepted c (c.setConnState .delete) := by
  refine ⟨rfl, .inl rfl, fun h => ?_⟩
  simp [DevConnection.setConnState] at h

theorem stays_authorizationFailed (accepted : List AuthRequest) (c : DevConnection) :
    Stays accepted c c.authorizationFailed := by
  refine ⟨rfl, .inr rfl, fun h => ?_⟩
  simp [DevConnection.authorizationFailed, DevConnection.setConnState] at h

theorem stays_authorizationOK {accepted : List AuthRequest} {c : DevConnection}
    (h : c.Vouched accepted) : Stays accepted c c.authorizationOK :=
  ⟨rfl, .inl rfl, fun _ => .inr h⟩

/-- What opens no query, claims no id and authorises only vouched connections
keeps the matching. -/
theorem Matched.transfer {s t : Device} (h : Matched s) (hacc : t.accepted = s.accepted)
    (hqueries : t.queries ⊆ s.queries) (hreplies : t.replies ⊆ s.replies)
    (hconn : ∀ c ∈ t.connections, ∃ old ∈ s.connections, Stays s.accepted old c) :
    Matched t := by
  have hopen : t.openRequests ⊆ s.openRequests := by
    intro r ho
    rw [mem_openRequests] at ho ⊢
    exact ho.imp (fun hq => hqueries hq) fun ha => hreplies ha
  constructor
  · intro r hr
    rw [hacc]
    exact h.answered r (hreplies hr)
  · intro c hc r ho hid hheld
    obtain ⟨old, hold, hstays⟩ := hconn c hc
    have hown : old.Owns s.accepted r := by
      rcases hstays.centraldId with heq | hnone
      · exact h.holder old hold r (hopen ho) hid (heq ▸ hheld)
      · omega
    simpa [DevConnection.Owns, DevConnection.Vouched, hacc, hstays.supplied] using hown
  · intro c hc hok
    obtain ⟨old, hold, hstays⟩ := hconn c hc
    have hv : old.Vouched s.accepted := (hstays.authOk hok).elim (h.sound old hold) id
    simpa [DevConnection.Vouched, hacc, hstays.supplied] using hv

/-- Changing a connection in a way that claims nothing keeps the matching. -/
theorem Matched.modify {s : Device} (h : Matched s) {i : Nat}
    {f : DevConnection → DevConnection}
    (hf : ∀ c ∈ s.connections[i]?, Stays s.accepted c (f c)) : Matched (s.modify i f) := by
  refine h.transfer rfl (List.Subset.refl _) (List.Subset.refl _) fun c hc => ?_
  rcases mem_modify hc with hold | ⟨a, ha, rfl⟩
  · exact ⟨c, List.mem_of_mem_eraseIdx hold, .refl _ _⟩
  · exact ⟨a, List.mem_of_getElem? ha, hf a ha⟩

theorem Matched.connect {s : Device} (h : Matched s) : Matched (step s .connect) := by
  constructor
  · exact h.answered
  · intro c hc r ho hid hheld
    rcases List.mem_append.mp hc with hold | hnew
    · exact h.holder c hold r ho hid hheld
    · rw [List.mem_singleton.mp hnew] at hheld
      simp only [DevConnection.accepted] at hheld
      omega
  · intro c hc hok
    rcases List.mem_append.mp hc with hold | hnew
    · exact h.sound c hold hok
    · rw [List.mem_singleton.mp hnew] at hok
      cases hok

/-- `auth` marks the connection and queues at most one query. -/
theorem auth_eq (s : Device) (i : Nat) (r : AuthRequest) :
    ∃ st, st ≠ .authOk ∧ s.auth i r =
      { s with
        connections := s.connections.modify i fun c => { c.claim r with connState := st }
        queries := s.queries ++ if r.centraldNum ∈ s.centraldConns then [r] else [] } := by
  by_cases hnum : r.centraldNum ∈ s.centraldConns
  · refine ⟨.authPending, by decide, ?_⟩
    simp [Device.auth, Device.authorize, Device.modify, hnum, List.modify_modify_eq,
      Function.comp_def, DevConnection.setConnState]
  · refine ⟨.delete, by decide, ?_⟩
    simp [Device.auth, Device.authorize, Device.modify, hnum, List.modify_modify_eq,
      Function.comp_def, DevConnection.setConnState]

theorem Matched.auth {s : Device} (h : Matched s) {i : Nat} {r : AuthRequest}
    (hok : Unambiguous s (.auth i r)) : Matched (s.auth i r) := by
  obtain ⟨st, hst, heq⟩ := auth_eq s i r
  obtain ⟨hothers, hmine⟩ := hok
  rw [heq]
  have hopen : ∀ q, q ∈ Device.openRequests { s with
      connections := s.connections.modify i fun c => { c.claim r with connState := st }
      queries := s.queries ++ if r.centraldNum ∈ s.centraldConns then [r] else [] } →
      q ∈ s.openRequests ∨ q = r ∧ r.centraldNum ∈ s.centraldConns := by
    intro q ho
    rw [mem_openRequests] at ho ⊢
    rcases ho with hq | ha
    · rcases List.mem_append.mp hq with hold | hnew
      · exact .inl (.inl hold)
      · split at hnew
        · exact .inr ⟨List.mem_singleton.mp hnew, ‹_›⟩
        · cases hnew
    · exact .inl (.inr ha)
  constructor
  · exact h.answered
  · intro c hc q ho hid hheld
    rcases mem_modify hc with hother | ⟨a, ha, rfl⟩
    · rcases hopen q ho with hq | ⟨rfl, hnum⟩
      · exact h.holder c (List.mem_of_mem_eraseIdx hother) q hq hid hheld
      · exact hothers hid hnum c hother hheld
    · have hown : q = r ∨ a.Owns s.accepted q := by
        rcases hopen q ho with hq | ⟨rfl, -⟩
        · exact hmine a ha q hq hid hheld.symm
        · exact .inl rfl
      rcases hown with rfl | hsup | ⟨p, hp, hpa⟩
      · exact .inl (List.mem_cons_self ..)
      · exact .inl (List.mem_cons_of_mem _ hsup)
      · exact .inr ⟨p, List.mem_cons_of_mem _ hp, hpa⟩
  · intro c hc hauth
    rcases mem_modify hc with hother | ⟨a, -, rfl⟩
    · exact h.sound c (List.mem_of_mem_eraseIdx hother) hauth
    · exact absurd hauth hst

/-- A central server accepts only requests for a client it knows. -/
theorem commandDevice_ok {r : AuthRequest} {key : Option Int}
    (h : commandDevice r key = some .authorizationOk) : 0 ≤ r.authId ∧ key = some r.authKey := by
  unfold commandDevice at h
  split at h
  · cases h
  · rename_i hneg
    cases key with
    | none => cases h
    | some key =>
      simp only at h
      split at h
      · cases h
      · split at h
        · cases h
        · rename_i hkey
          exact ⟨by omega, by rw [not_not.mp hkey]⟩

theorem Matched.answer {s : Device} (h : Matched s) {r : AuthRequest} {key : Option Int}
    (hr : r ∈ s.queries) : Matched (s.answer r key) := by
  have herase : s.queries.erase r ⊆ s.queries := List.erase_subset
  have hself : ∀ c ∈ s.connections, ∃ old ∈ s.connections, Stays s.accepted old c :=
    fun c hc => ⟨c, hc, .refl _ _⟩
  unfold Device.answer
  cases hval : commandDevice r key with
  | none => exact h.transfer rfl herase (List.Subset.refl _) hself
  | some value =>
    cases value with
    | authorizationFailed =>
      -- the refusal authorises nobody, so it opens nothing
      constructor
      · intro q hq
        exact h.answered q (by simpa using hq)
      · intro c hc q ho
        refine h.holder c hc q ?_
        rw [mem_openRequests] at ho ⊢
        exact ho.imp (fun hq => herase hq) fun ha => by simpa using ha
      · exact h.sound
    | authorizationOk =>
      have hsub : s.accepted ⊆ r :: s.accepted := List.subset_cons_self _ _
      constructor
      · intro q hq
        rcases List.mem_append.mp hq with hold | hnew
        · exact ⟨hsub (h.answered q hold).1, (h.answered q hold).2⟩
        · obtain rfl : q = r := by simpa using hnew
          exact ⟨List.mem_cons_self .., (commandDevice_ok hval).1⟩
      · intro c hc q ho hid hheld
        have hbefore : q ∈ s.openRequests := by
          rw [mem_openRequests] at ho ⊢
          rcases ho with hq | ha
          · exact .inl (herase hq)
          · rcases List.mem_append.mp ha with hold | hnew
            · exact .inr hold
            · obtain rfl : q = r := by simpa using hnew
              exact .inl hr
        exact (h.holder c hc q hbefore hid hheld).mono hsub
      · intro c hc hauth
        exact (h.sound c hc hauth).mono hsub

/-- The connection an `authorization_ok` is given to is vouched for. -/
theorem Matched.reply {s : Device} (h : Matched s) {a : AReply} (ha : a ∈ s.replies) :
    Matched (s.commandA a) := by
  have htaken : Matched { s with replies := s.replies.erase a } :=
    h.transfer rfl (List.Subset.refl _) List.erase_subset fun c hc => ⟨c, hc, .refl _ _⟩
  unfold Device.commandA
  cases hfind : s.findCentralId a.about.authId with
  | none => exact htaken
  | some i =>
    obtain ⟨value, r⟩ := a
    cases value with
    | authorizationFailed => exact htaken.modify fun c _ => stays_authorizationFailed _ c
    | authorizationOk =>
      refine htaken.modify fun c hc => stays_authorizationOK ?_
      obtain ⟨hacc, hid⟩ := h.answered r ha
      have hheld : c.centraldId = r.authId := by
        obtain ⟨hlt, hp, -⟩ := List.findIdx?_eq_some_iff_getElem.mp hfind
        obtain rfl : s.connections[i] = c := by simpa [hlt] using hc
        simpa using hp
      exact (h.holder c (List.mem_of_getElem? hc) r (mem_openRequests.mpr (.inr ha)) hid hheld).vouched hacc

theorem Matched.step {s : Device} (h : Matched s) {e : Event} (hok : Unambiguous s e) :
    Matched (step s e) := by
  have hself : ∀ c ∈ s.connections, ∃ old ∈ s.connections, Stays s.accepted old c :=
    fun c hc => ⟨c, hc, .refl _ _⟩
  cases e with
  | connect => exact h.connect
  | auth i r =>
    simp only [Authorize.step]
    split
    · exact h.auth hok
    · exact h
  | answer r key =>
    simp only [Authorize.step]
    split
    · exact h.answer ‹_›
    · exact h
  | reply a =>
    simp only [Authorize.step]
    split
    · exact h.reply ‹_›
    · exact h
  | connectionError i => exact h.modify fun c _ => stays_delete _ c
  | deleteConnection i =>
    simp only [Authorize.step]
    split
    · split
      · exact h.transfer rfl (List.Subset.refl _) (List.Subset.refl _) fun c hc =>
          hself c (List.mem_of_mem_eraseIdx hc)
      · exact h
    · exact h
  | queryLost r => exact h.transfer rfl List.erase_subset (List.Subset.refl _) hself
  | replyLost a => exact h.transfer rfl (List.Subset.refl _) List.erase_subset hself

theorem matched_start (centraldConns : List Int) : Matched (Device.start centraldConns) := by
  constructor <;> simp [Device.start, Device.Sound]

/-- **Own requests**: as long as no two connections are after one id, whatever
the central servers answer and in whatever order, every authorised connection
has itself supplied a request that was accepted. -/
theorem authorised_by_own_request (centraldConns : List Int) (events : List Event)
    (h : Along step Unambiguous (Device.start centraldConns) events) :
    (run step (Device.start centraldConns) events).Sound :=
  (h.invariant (matched_start centraldConns) fun _ _ hs hok => hs.step hok).sound

/-- Two clients, 5 and 6, authorise themselves; the answers come in the other
order. -/
theorem authorised_by_own_request_two :
    (run step (Device.start [0])
      [.connect, .connect, .auth 0 ⟨5, 0, 111⟩, .auth 1 ⟨6, 0, 222⟩,
        .answer ⟨5, 0, 111⟩ (some 111), .answer ⟨6, 0, 222⟩ (some 222),
        .reply ⟨.authorizationOk, ⟨6, 0, 222⟩⟩, .reply ⟨.authorizationOk, ⟨5, 0, 111⟩⟩]).Sound :=
  authorised_by_own_request [0] _ (by decide)

/-- The first connection claims id 5 with a wrong key, the second one with the
right key. The acceptance of the second authorises the first. -/
theorem wrong_key_authorised :
    ¬ ∀ (centraldConns : List Int) (events : List Event),
      (run step (Device.start centraldConns) events).Sound := by
  intro h
  have hrun := h [0]
    [.connect, .connect, .auth 1 ⟨5, 0, 111⟩, .auth 0 ⟨5, 0, 999⟩,
      .answer ⟨5, 0, 111⟩ (some 111), .reply ⟨.authorizationOk, ⟨5, 0, 111⟩⟩]
  exact absurd hrun (by decide)

end Rts2.Authorize

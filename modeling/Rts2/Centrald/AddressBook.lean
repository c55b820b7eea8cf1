import Rts2.Centrald.Registry
import Rts2.Connection.BinaryTransfer

/-! # What a block knows of the others

Once it has read what is under way, a block that has asked for `info` knows every client and every
device that is connected. It knows no client that is not. A device that is gone stays on its list of
addresses, unless the number it registered with is its id: `delete_device` names the id, and the list
has the number. -/
namespace Rts2.Registry
open Rts2.Lib Rts2.Connection Rts2.Centrald

/-! ## Reading words -/

theorem spaced_head (ws : List (List Byte)) :
    ∀ b ∈ (ws.flatMap fun w => (32 : Byte) :: w).head?, isspace b = true := by
  intro b hb
  cases ws with
  | nil => cases hb
  | cons w ws =>
    obtain rfl : (32 : Byte) = b := Option.some.inj hb
    rfl

theorem spaced_drop (ws : List (List Byte)) :
    (ws.flatMap fun w => (32 : Byte) :: w).drop 1 = spaced ws := by
  cases ws <;> rfl

/-- The first word of a line, and the line of the others. -/
theorem paramNextString_spaced {w : List Byte} (hw : IsWord w) (ws : List (List Byte)) :
    paramNextString (spaced (w :: ws)) [] = some (w, spaced ws) := by
  have h := paramNextString_word (ws.flatMap fun w => (32 : Byte) :: w) [] hw.ne_nil
    (fun b hb => ⟨hw.noSpace b hb, List.not_mem_nil⟩) hw.unquoted (spaced_head ws)
  rw [spaced_drop] at h
  exact h

theorem paramNextInteger_spaced {n : Int} (hl : -2 ^ 31 ≤ n) (hu : n < 2 ^ 31)
    (ws : List (List Byte)) :
    paramNextInteger (spaced (decimal n :: ws)) = some (n, spaced ws) := by
  have h := paramNextInteger_printed hl hu _ (spaced_head ws)
  rw [spaced_drop] at h
  exact h

theorem paramNextInteger_int32 (n : Int32) (ws : List (List Byte)) :
    paramNextInteger (spaced (decimal n.toInt :: ws)) = some (n.toInt, spaced ws) := by
  have hl := n.le_toInt
  have hu := n.toInt_lt
  exact paramNextInteger_spaced (by omega) (by omega) ws

theorem paramNextInteger_id {id : Nat} (h : id < 2 ^ 31) (ws : List (List Byte)) :
    paramNextInteger (spaced (decimal id :: ws)) = some ((id : Int), spaced ws) :=
  paramNextInteger_spaced (by omega) (by omega) ws

theorem paramEnd_spaced : paramEnd (spaced []) = true := rfl

theorem isWord_commands :
    IsWord clientWord ∧ IsWord deleteClientWord ∧ IsWord deviceWord ∧ IsWord deleteDeviceWord := by
  decide

/-- Names and hosts that are read as they are, and an id that is an `int`. -/
structure Named (c : ConnCentrald) : Prop where
  id : c.centraldId < 2 ^ 31
  client : c.type = .clientServer → IsWord c.login ∧ IsWord c.name
  device : c.type = .deviceServer →
    IsWord c.name ∧ c.name.length < deviceNameSize ∧ IsWord c.hostname

/-- What the lines about a connection do to the lists of a block. -/
def Block.told (hostNum : Int) (b : Block) (c : ConnCentrald) : Block :=
  c.connectedInfo.foldl (Block.command hostNum) b

/-- What the lines about a removed connection do. -/
def Block.untold (hostNum : Int) (b : Block) (c : ConnCentrald) : Block :=
  c.removedInfo.foldl (Block.command hostNum) b

section Lines
variable {hostNum : Int} {b : Block} {c : ConnCentrald}

theorem told_undefined (htype : c.type = .notDefinedServer) : b.told hostNum c = b := by
  simp only [Block.told, ConnCentrald.connectedInfo, htype, List.foldl_nil]

theorem told_client (hc : Named c) (htype : c.type = .clientServer) :
    b.told hostNum c = b.addClient c.centraldId c.login c.name := by
  obtain ⟨hlogin, hname⟩ := hc.client htype
  have hread : readNotice (spaced [clientWord, decimal c.centraldId, c.login, c.name]) =
      some (.client c.centraldId c.login c.name) := by
    have hne : clientWord ≠ deviceWord ∧ clientWord ≠ deleteDeviceWord := by decide
    simp only [readNotice, paramNextString_spaced isWord_commands.1, if_neg hne.1, if_neg hne.2,
      if_true, readClient, Option.bind_eq_bind, paramNextInteger_id hc.id, Option.bind_some,
      paramNextString_spaced hlogin, paramNextString_spaced hname, paramEnd_spaced]
  simp only [Block.told, ConnCentrald.connectedInfo, htype, List.foldl_cons, List.foldl_nil,
    Block.command, hread, Block.notice]

theorem told_device (hc : Named c) (htype : c.type = .deviceServer) :
    b.told hostNum c = b.addAddress hostNum c.centraldNum.toInt c.centraldId c.name c.hostname
      c.port.toInt c.deviceType.toInt := by
  obtain ⟨hname, -, hhost⟩ := hc.device htype
  have hread : readNotice (spaced [deviceWord, decimal c.centraldNum.toInt, decimal c.centraldId,
      c.name, c.hostname, decimal c.port.toInt, decimal c.deviceType.toInt]) =
      some (.device c.centraldNum.toInt c.centraldId c.name c.hostname c.port.toInt
        c.deviceType.toInt) := by
    simp only [readNotice, paramNextString_spaced isWord_commands.2.2.1, if_true, readDevice,
      Option.bind_eq_bind, paramNextInteger_int32, paramNextInteger_id hc.id, Option.bind_some,
      paramNextString_spaced hname, paramNextString_spaced hhost, paramEnd_spaced]
  simp only [Block.told, ConnCentrald.connectedInfo, htype, List.foldl_cons, List.foldl_nil,
    Block.command, hread, Block.notice]

theorem untold_undefined (htype : c.type = .notDefinedServer) : b.untold hostNum c = b := by
  simp only [Block.untold, ConnCentrald.removedInfo, htype, List.foldl_nil]

theorem untold_client (hc : Named c) (htype : c.type = .clientServer) :
    b.untold hostNum c = b.deleteClient c.centraldId := by
  have hread : readNotice (spaced [deleteClientWord, decimal c.centraldId]) =
      some (.deleteClient c.centraldId) := by
    have hne : deleteClientWord ≠ deviceWord ∧ deleteClientWord ≠ deleteDeviceWord ∧
        deleteClientWord ≠ clientWord := by decide
    simp only [readNotice, paramNextString_spaced isWord_commands.2.1, if_neg hne.1, if_neg hne.2.1,
      if_neg hne.2.2, if_true, readDeleteClient, Option.bind_eq_bind, paramNextInteger_id hc.id,
      Option.bind_some, paramEnd_spaced]
  simp only [Block.untold, ConnCentrald.removedInfo, htype, List.foldl_cons, List.foldl_nil,
    Block.command, hread, Block.notice]

theorem untold_device (hc : Named c) (htype : c.type = .deviceServer) :
    b.untold hostNum c = b.deleteAddress c.centraldId c.name := by
  obtain ⟨hname, -, -⟩ := hc.device htype
  have hread : readNotice (spaced [deleteDeviceWord, decimal c.centraldId, c.name]) =
      some (.deleteDevice c.centraldId c.name) := by
    have hne : deleteDeviceWord ≠ deviceWord := by decide
    simp only [readNotice, paramNextString_spaced isWord_commands.2.2.2, if_neg hne, if_true,
      readDeleteDevice, Option.bind_eq_bind, paramNextInteger_id hc.id, Option.bind_some,
      paramNextString_spaced hname, paramEnd_spaced]
  simp only [Block.untold, ConnCentrald.removedInfo, htype, List.foldl_cons, List.foldl_nil,
    Block.command, hread, Block.notice]

end Lines

/-! ## What is right to know -/

def userOf (c : ConnCentrald) : ConnUser := ⟨c.centraldId, c.login, c.name⟩

/-- The address of a device, as it registered. -/
structure Describes (hostNum : Int) (a : NetworkAddress) (d : ConnCentrald) : Prop where
  hostNum : a.hostNum = hostNum
  centraldNum : a.centraldNum = d.centraldNum.toInt
  name : a.name = d.name
  host : a.host = d.hostname
  port : a.port = d.port.toInt
  type : a.type = d.deviceType.toInt

def addressKey (a : NetworkAddress) : Int × List Byte := (a.centraldNum, a.name)

theorem isUser_iff (id : Int) (u : ConnUser) : decide (u.centralId = id) = true ↔ u.centralId = id :=
  decide_eq_true_iff

theorem isAddress_iff (n : Int) (name : List Byte) (a : NetworkAddress) :
    a.isAddress n name = true ↔ addressKey a = (n, name) := by
  simp only [NetworkAddress.isAddress, addressKey, Bool.and_eq_true, decide_eq_true_eq,
    Prod.mk.injEq]

/-- A user that is a client, and an address that is the one of a device. -/
def IsUser (u : ConnUser) (c : ConnCentrald) : Prop := c.type = .clientServer ∧ u = userOf c

def IsAddress (hostNum : Int) (a : NetworkAddress) (d : ConnCentrald) : Prop :=
  d.type = .deviceServer ∧ Describes hostNum a d

/-- Devices that are connected, or that registered with a number other than their id. -/
def Listed (conns gone : List ConnCentrald) (d : ConnCentrald) : Prop :=
  d ∈ conns ∨ d ∈ gone ∧ d.centraldNum.toInt ≠ d.centraldId

/-- The block knows of this connection. -/
structure KnowsOf (hostNum : Int) (b : Block) (c : ConnCentrald) : Prop where
  client : c.type = .clientServer → ∃ u ∈ b.blockUsers, IsUser u c
  device : c.type = .deviceServer → ∃ a ∈ b.blockAddress, IsAddress hostNum a c

/-- The users that a block knows are clients that are connected, and its addresses those of devices
that are listed; a block that was informed knows of every connection. -/
structure Knows (conns gone : List ConnCentrald) (hostNum : Int) (informed : Bool) (b : Block) :
    Prop where
  users : Tracks (·.centralId) IsUser (· ∈ conns) b.blockUsers
  addresses : Tracks addressKey (IsAddress hostNum) (Listed conns gone) b.blockAddress
  informed : informed = true → ∀ c ∈ conns, KnowsOf hostNum b c

/-- The connections of the daemon: one for an id, and one device for a name. -/
structure Roster (conns : List ConnCentrald) : Prop where
  named : ∀ c ∈ conns, Named c
  ids : ∀ c ∈ conns, ∀ d ∈ conns, c.centraldId = d.centraldId → c = d
  names : ∀ c ∈ conns, ∀ d ∈ conns, c.type = .deviceServer → d.type = .deviceServer →
    c.name = d.name → c = d

/-- A connection is put in the place of the one with its id, if there is one. -/
theorem Roster.put {conns conns' : List ConnCentrald} {c : ConnCentrald} (h : Roster conns)
    (hc : Named c) (hfree : c.type = .deviceServer → ∀ x ∈ conns, x.name ≠ c.name)
    (hmem : ∀ x ∈ conns', x = c ∨ (x ∈ conns ∧ x.centraldId ≠ c.centraldId)) : Roster conns' := by
  refine ⟨fun x hx => ?_, fun x hx y hy hxy => ?_, fun x hx y hy hxtype hytype hxy => ?_⟩
  · rcases hmem x hx with rfl | ⟨hx, -⟩
    · exact hc
    · exact h.named x hx
  · rcases hmem x hx with rfl | ⟨hx, hxne⟩ <;> rcases hmem y hy with rfl | ⟨hy, hyne⟩
    · rfl
    · exact absurd hxy.symm hyne
    · exact absurd hxy hxne
    · exact h.ids x hx y hy hxy
  · rcases hmem x hx with rfl | ⟨hx, -⟩ <;> rcases hmem y hy with rfl | ⟨hy, -⟩
    · rfl
    · exact absurd hxy.symm (hfree hxtype y hy)
    · exact absurd hxy (hfree hytype x hx)
    · exact h.names x hx y hy hxtype hytype hxy

section Told
variable {conns gone : List ConnCentrald} {hostNum : Int} {informed : Bool} {b : Block}
  {c : ConnCentrald}

theorem describes_new (hnamed : Named c) (htype : c.type = .deviceServer) :
    Describes hostNum (.new hostNum c.centraldNum.toInt c.centraldId c.name c.hostname
      c.port.toInt c.deviceType.toInt) c := by
  obtain ⟨-, hlen, -⟩ := hnamed.device htype
  exact ⟨rfl, rfl, List.take_of_length_le (Nat.le_sub_one_of_lt hlen), rfl, rfl, rfl⟩

/-- The lines about a connection keep what is known right, and add the client or the device. -/
theorem Knows.told (h : Knows conns gone hostNum informed b) (hroster : Roster conns)
    (hc : c ∈ conns) :
    Knows conns gone hostNum informed (b.told hostNum c) ∧ KnowsOf hostNum (b.told hostNum c) c ∧
      ∀ d ∈ conns, KnowsOf hostNum b d → KnowsOf hostNum (b.told hostNum c) d := by
  have hnamed := hroster.named c hc
  cases htype : c.type with
  | notDefinedServer =>
    rw [told_undefined htype]
    exact ⟨h, ⟨by simp [htype], by simp [htype]⟩, fun _ _ hd => hd⟩
  | clientServer =>
    rw [told_client hnamed htype]
    have hupdated : ∀ u ∈ b.blockUsers, u.centralId = (c.centraldId : Int) →
        IsUser { u with login := c.login, name := c.name } c := by
      intro u hu hid
      obtain ⟨x, hx, -, rfl⟩ := h.users.sound u hu
      obtain rfl := hroster.ids x hx c hc (Int.ofNat_inj.mp hid)
      exact ⟨htype, rfl⟩
    obtain ⟨husers, hof, hkeep⟩ := h.users.put (isUser_iff c.centraldId)
      (fun u => { u with login := c.login, name := c.name }) (userOf c) (fun _ => rfl) rfl hc
      ⟨htype, rfl⟩ hupdated
    have hall : ∀ d ∈ conns, KnowsOf hostNum b d →
        KnowsOf hostNum (b.addClient c.centraldId c.login c.name) d := by
      intro d hd hb
      refine ⟨fun hdtype => hkeep d ?_ (hb.client hdtype), hb.device⟩
      rintro u - ⟨-, rfl⟩ hid
      exact hroster.ids d hd c hc (Int.ofNat_inj.mp hid)
    exact ⟨⟨husers, h.addresses, fun hinf d hd => hall d hd (h.informed hinf d hd)⟩,
      ⟨fun _ => hof, by simp [htype]⟩, hall⟩
  | deviceServer =>
    rw [told_device hnamed htype]
    have hnew : Describes hostNum _ c := describes_new hnamed htype
    -- an address that is updated becomes the one of the device
    have hupdated : ∀ a ∈ b.blockAddress, addressKey a = (c.centraldNum.toInt, c.name) →
        IsAddress hostNum (a.update c.hostname c.port.toInt c.deviceType.toInt) c := by
      intro a ha hkey
      obtain ⟨d, -, -, hd⟩ := h.addresses.sound a ha
      exact ⟨htype, hd.hostNum, congrArg Prod.fst hkey, congrArg Prod.snd hkey, rfl, rfl, rfl⟩
    obtain ⟨haddresses, hof, hkeep⟩ := h.addresses.put (isAddress_iff c.centraldNum.toInt c.name)
      (·.update c.hostname c.port.toInt c.deviceType.toInt) _ (fun _ => rfl)
      (congrArg₂ Prod.mk hnew.centraldNum hnew.name) (.inl hc) ⟨htype, hnew⟩ hupdated
    have hall : ∀ d ∈ conns, KnowsOf hostNum b d →
        KnowsOf hostNum (b.addAddress hostNum c.centraldNum.toInt c.centraldId c.name c.hostname
          c.port.toInt c.deviceType.toInt) d := by
      intro d hd hb
      refine ⟨hb.client, fun hdtype => hkeep d ?_ (hb.device hdtype)⟩
      rintro a - ⟨-, hdesc⟩ hkey
      have hname : d.name = c.name := hdesc.name.symm.trans (congrArg Prod.snd hkey)
      exact hroster.names d hd c hc hdtype htype hname
    exact ⟨⟨h.users, haddresses, fun hinf d hd => hall d hd (h.informed hinf d hd)⟩,
      ⟨by simp [htype], fun _ => hof⟩, hall⟩

/-- Connections that are neither clients nor devices yet do not count. -/
theorem Knows.weaken (h : Knows conns gone hostNum informed b) {conns' : List ConnCentrald}
    (hsub : ∀ c ∈ conns, c.type ≠ .notDefinedServer → c ∈ conns') :
    Knows conns' gone hostNum false b := by
  refine ⟨h.users.mono fun u _ c hc hu => ?_, h.addresses.mono fun a _ d hd ha => ?_, nofun⟩
  · exact hsub c hc (by simp [hu.1])
  · exact hd.imp_left fun hd => hsub d hd (by simp [ha.1])

/-- The lines about some connections add what they are about. -/
theorem Knows.toldEach (hroster : Roster conns) {cs : List ConnCentrald} :
    (∀ c ∈ cs, c ∈ conns) → ∀ {b : Block}, Knows conns gone hostNum false b →
      Knows conns gone hostNum false (cs.foldl (Block.told hostNum) b) ∧
        (∀ d ∈ conns, KnowsOf hostNum b d →
          KnowsOf hostNum (cs.foldl (Block.told hostNum) b) d) ∧
        ∀ d ∈ cs, KnowsOf hostNum (cs.foldl (Block.told hostNum) b) d := by
  induction cs with
  | nil => exact fun _ _ hb => ⟨hb, fun _ _ hd => hd, nofun⟩
  | cons c cs ih =>
    intro hsub b hb
    obtain ⟨hc, hcs⟩ := List.forall_mem_cons.mp hsub
    obtain ⟨hknows, hof, hkeep⟩ := hb.told hroster hc
    obtain ⟨hknows, hkeep', hall⟩ := ih hcs hknows
    refine ⟨hknows, fun d hd hb => hkeep' d hd (hkeep d hd hb), ?_⟩
    exact List.forall_mem_cons.mpr ⟨hkeep' c hc hof, hall⟩

/-- After the lines about all connections, a block knows of all. -/
theorem Knows.toldAll (h : Knows conns gone hostNum informed b) (hroster : Roster conns) :
    Knows conns gone hostNum true (conns.foldl (Block.told hostNum) b) := by
  obtain ⟨hknows, -, hall⟩ := Knows.toldEach hroster (fun _ hc => hc) (h.weaken fun _ hc _ => hc)
  exact ⟨hknows.users, hknows.addresses, fun _ => hall⟩

theorem Knows.mono (h : Knows conns gone hostNum informed b) {conns' : List ConnCentrald}
    (hsub : ∀ c ∈ conns, c.type ≠ .notDefinedServer → c ∈ conns')
    (hnew : ∀ c ∈ conns', c.type ≠ .notDefinedServer → c ∈ conns) :
    Knows conns' gone hostNum informed b := by
  have hweak := h.weaken hsub
  refine ⟨hweak.users, hweak.addresses, fun hinf c hc => ?_⟩
  by_cases htype : c.type = .notDefinedServer
  · exact ⟨by simp [htype], by simp [htype]⟩
  · exact h.informed hinf c (hnew c hc htype)

/-- A connection becomes a client or a device, and everybody is told. -/
theorem Knows.join (h : Knows conns gone hostNum informed b) {conns' : List ConnCentrald}
    (hroster : Roster conns')
    (hmem : ∀ x, x ∈ conns' ↔ x = c ∨ (x ∈ conns ∧ x.centraldId ≠ c.centraldId))
    (hold : ∀ x ∈ conns, x.centraldId = c.centraldId → x.type = .notDefinedServer) :
    Knows conns' gone hostNum informed (b.told hostNum c) := by
  have hweak := h.weaken fun x hx htype => (hmem x).mpr (.inr ⟨hx, fun hid => htype (hold x hx hid)⟩)
  obtain ⟨htold, hof, hkeep⟩ := hweak.told hroster ((hmem c).mpr (.inl rfl))
  refine ⟨htold.users, htold.addresses, fun hinf x hx => ?_⟩
  rcases (hmem x).mp hx with rfl | ⟨hxc, -⟩
  · exact hof
  · exact hkeep x hx (h.informed hinf x hxc)

/-- A connection is gone, and everybody left is told. A device whose number is not its id stays among
the addresses. -/
theorem Knows.leave (h : Knows conns gone hostNum informed b) (hroster : Roster conns)
    (hc : c ∈ conns) {left : List ConnCentrald}
    (hleft : ∀ x, x ∈ left ↔ x ∈ conns ∧ x.centraldId ≠ c.centraldId) :
    Knows left (if c.type = .deviceServer then c :: gone else gone) hostNum informed
      (b.untold hostNum c) := by
  have hnamed := hroster.named c hc
  have hstay : ∀ d ∈ conns, d ≠ c → d ∈ left := fun d hd hne =>
    (hleft d).mpr ⟨hd, fun hid => hne (hroster.ids d hd c hc hid)⟩
  have hlive : ∀ d ∈ left, d ∈ conns ∧ d ≠ c := fun d hd =>
    ⟨((hleft d).mp hd).1, fun heq => ((hleft d).mp hd).2 (congrArg _ heq)⟩
  have husers : c.type ≠ .clientServer → Tracks (·.centralId) IsUser (· ∈ left) b.blockUsers := by
    intro hctype
    refine h.users.mono fun u _ d hd hu => hstay d hd ?_
    rintro rfl
    exact hctype hu.1
  have haddresses : c.type ≠ .deviceServer →
      Tracks addressKey (IsAddress hostNum) (Listed left gone) b.blockAddress := by
    intro hctype
    refine h.addresses.mono fun a _ d hd ha => hd.imp_left fun hd => hstay d hd ?_
    rintro rfl
    exact hctype ha.1
  have hinformed := fun hinf d hd => h.informed hinf d (hlive d hd).1
  cases htype : c.type with
  | notDefinedServer =>
    rw [untold_undefined htype]
    exact ⟨husers (by simp [htype]), haddresses (by simp [htype]), hinformed⟩
  | clientServer =>
    rw [untold_client hnamed htype]
    obtain ⟨herased, hkeep⟩ := h.users.erase (isUser_iff c.centraldId) (· ∈ left)
      fun u _ hne d hd hu => hstay d hd fun heq => hne (by rw [hu.2, heq]; rfl)
    refine ⟨herased, haddresses (by simp [htype]), fun hinf d hd =>
      ⟨fun hdtype => hkeep d ?_ ((hinformed hinf d hd).client hdtype), (hinformed hinf d hd).device⟩⟩
    rintro u - ⟨-, rfl⟩ hid
    exact ((hleft d).mp hd).2 (Int.ofNat_inj.mp hid)
  | deviceServer =>
    rw [untold_device hnamed htype]
    obtain ⟨herased, hkeep⟩ := h.addresses.erase (isAddress_iff c.centraldId c.name)
      (Listed left (c :: gone)) fun a _ hne d hd ha => by
        by_cases hdc : d = c
        · subst hdc
          refine .inr ⟨List.mem_cons_self, fun hnum => hne ?_⟩
          exact Prod.ext (ha.2.centraldNum.trans hnum) ha.2.name
        · exact hd.imp (hstay d · hdc) fun hd => ⟨List.mem_cons_of_mem _ hd.1, hd.2⟩
    refine ⟨husers (by simp [htype]), herased, fun hinf d hd =>
      ⟨(hinformed hinf d hd).client, fun hdtype => hkeep d ?_ ((hinformed hinf d hd).device hdtype)⟩⟩
    rintro a - ⟨-, hdesc⟩ hkey
    have hname : d.name = c.name := hdesc.name.symm.trans (congrArg Prod.snd hkey)
    exact (hlive d hd).2 (hroster.names d (hlive d hd).1 c hc hdtype htype hname)

end Told

/-! ## Every run -/

def Centrald.conns (s : Centrald) : List ConnCentrald := s.connections.map (·.conn)

/-- Every block will know what is right. -/
structure Right (s : Centrald) : Prop where
  roster : Roster s.conns
  ids : ∀ c ∈ s.conns, c.centraldId ≤ s.connNum
  peers : ∀ p ∈ s.connections, Knows s.conns s.gone p.hostNum p.informed p.settled

section Steps
variable {s : Centrald} {p : Peer}

theorem settled_send (p : Peer) (lines : List (List Byte)) :
    (p.send lines).settled = lines.foldl (Block.command p.hostNum) p.settled :=
  Link.settled_send _ p.link lines

theorem find_some {id : Nat} (h : s.find id = some p) :
    p ∈ s.connections ∧ p.conn.centraldId = id :=
  ⟨List.mem_of_find?_eq_some h, of_decide_eq_true (List.find?_eq_some_iff_append.mp h).1⟩

theorem conn_mem (hp : p ∈ s.connections) : p.conn ∈ s.conns := List.mem_map_of_mem hp

theorem conns_modify (id : Nat) {f : Peer → Peer} (hf : ∀ p, (f p).conn = p.conn) :
    (s.modify id f).conns = s.conns := by
  simp only [Centrald.conns, Centrald.modify, List.map_map]
  refine List.map_congr_left fun p _ => ?_
  simp only [Function.comp_apply]
  split
  · exact hf p
  · rfl

/-- A step of one block. -/
theorem Right.modify (h : Right s) (id : Nat) {f : Peer → Peer} (hf : ∀ p, (f p).conn = p.conn)
    (hknows : ∀ p ∈ s.connections, p.conn.centraldId = id →
      Knows s.conns s.gone (f p).hostNum (f p).informed (f p).settled) :
    Right (s.modify id f) := by
  have hconns := conns_modify (s := s) id hf
  refine ⟨hconns ▸ h.roster, hconns ▸ h.ids, fun q hq => ?_⟩
  rw [hconns]
  obtain ⟨p, hp, rfl⟩ := List.mem_map.mp hq
  split
  · next hid => exact hknows p hp hid
  · exact h.peers p hp

theorem foldl_connectedInfo (hostNum : Int) (b : Block) (peers : List Peer) :
    (peers.flatMap fun c => c.conn.connectedInfo).foldl (Block.command hostNum) b =
      (peers.map (·.conn)).foldl (Block.told hostNum) b := by
  induction peers generalizing b with
  | nil => rfl
  | cons p peers ih =>
    rw [List.flatMap_cons, List.foldl_append, ih]
    rfl

theorem Right.sendInfo (h : Right s) (id : Nat) : Right (s.sendInfo id) := by
  refine h.modify id (fun _ => rfl) fun p hp _ => ?_
  have hsettled := settled_send p (s.connections.flatMap fun c => c.conn.connectedInfo)
  rw [foldl_connectedInfo] at hsettled
  have hall := (h.peers p hp).toldAll h.roster
  show Knows s.conns s.gone p.hostNum true (p.send _).settled
  rw [hsettled]
  exact hall

/-- The connections after one of them has become a client or a device. -/
theorem mem_conns_replace (hp : p ∈ s.connections) {added : ConnCentrald}
    (hid : p.conn.centraldId = added.centraldId) (x : ConnCentrald) :
    x ∈ (s.replace added).conns ↔
      x = added ∨ (x ∈ s.conns ∧ x.centraldId ≠ added.centraldId) := by
  have hmem : x ∈ (s.replace added).conns ↔ ∃ q ∈ s.connections,
      (if q.conn.centraldId = added.centraldId then added else q.conn) = x := by
    simp only [Centrald.conns, Centrald.replace, Centrald.modify, List.map_map, List.mem_map,
      Function.comp_apply]
    refine exists_congr fun q => and_congr_right fun _ => ?_
    split <;> rfl
  rw [hmem]
  constructor
  · rintro ⟨q, hq, rfl⟩
    split
    · exact .inl rfl
    · next hne => exact .inr ⟨conn_mem hq, hne⟩
  · rintro (rfl | ⟨hx, hne⟩)
    · exact ⟨p, hp, if_pos hid⟩
    · obtain ⟨q, hq, rfl⟩ := List.mem_map.mp hx
      exact ⟨q, hq, if_neg hne⟩

/-- A connection becomes a client or a device: everybody is told. -/
theorem Right.join (h : Right s) (hp : p ∈ s.connections)
    (htype : p.conn.type = .notDefinedServer) {added : ConnCentrald}
    (hid : p.conn.centraldId = added.centraldId) (hnamed : Named added)
    (hname : added.type = .deviceServer → ∀ q ∈ s.connections, q.conn.name ≠ added.name) :
    Right ((s.replace added).connAdded added) := by
  have hmem := mem_conns_replace hp hid
  have hconns : ((s.replace added).connAdded added).conns = (s.replace added).conns := by
    simp only [Centrald.conns, Centrald.connAdded, Centrald.sendAll, List.map_map]
    rfl
  have hfree : added.type = .deviceServer → ∀ x ∈ s.conns, x.name ≠ added.name := by
    intro hdev x hx
    obtain ⟨q, hq, rfl⟩ := List.mem_map.mp hx
    exact hname hdev q hq
  have hroster := h.roster.put hnamed hfree fun x => (hmem x).mp
  have hold : ∀ x ∈ s.conns, x.centraldId = added.centraldId → x.type = .notDefinedServer := by
    intro x hx hxid
    rw [h.roster.ids x hx p.conn (conn_mem hp) (hxid.trans hid.symm), htype]
  refine ⟨hconns ▸ hroster, hconns ▸ fun c hc => ?_, fun r hr => ?_⟩
  · rcases (hmem c).mp hc with rfl | ⟨hc, -⟩
    · exact hid ▸ h.ids p.conn (conn_mem hp)
    · exact h.ids c hc
  · rw [hconns]
    obtain ⟨joined, hjoined, rfl⟩ := List.mem_map.mp hr
    obtain ⟨q, hq, rfl⟩ := List.mem_map.mp hjoined
    have hknows := (h.peers q hq).join hroster hmem hold
    rw [settled_send]
    split
    · exact hknows
    · exact hknows

theorem Right.login (h : Right s) (hp : p ∈ s.connections) {in_login in_name : List Byte}
    (hlogin : IsWord in_login) (hname : IsWord in_name) :
    Right (s.login p.conn in_login in_name) := by
  unfold Centrald.login
  split
  · next htype =>
    have hid := (h.roster.named _ (conn_mem hp)).id
    exact h.join hp htype rfl ⟨hid, fun _ => ⟨hlogin, hname⟩, nofun⟩ nofun
  · exact h

theorem Right.register (h : Right s) (hp : p ∈ s.connections) (centraldNum device_type port : Int32)
    {reg_device in_hostname : List Byte}
    (hname : IsWord reg_device ∧ reg_device.length < deviceNameSize) (hhost : IsWord in_hostname)
    (hsize : in_hostname.length < hostNameMax) :
    Right (s.register p.conn centraldNum reg_device device_type in_hostname port) := by
  unfold Centrald.register
  split
  · next htype =>
    split
    · exact h
    · next hfree =>
      have hid := (h.roster.named _ (conn_mem hp)).id
      have htake : in_hostname.take hostNameMax = in_hostname :=
        List.take_of_length_le hsize.le
      apply Right.sendInfo
      refine h.join hp htype rfl ⟨hid, nofun, fun _ => ⟨hname.1, hname.2, ?_⟩⟩ ?_
      · exact htake.symm ▸ hhost
      · exact fun _ q hq heq => hfree ⟨q, hq, heq⟩
  · exact h

theorem Right.removeConnection (h : Right s) (hp : p ∈ s.connections) :
    Right (s.removeConnection p.conn) := by
  have hleft : ∀ x, x ∈ (s.removeConnection p.conn).conns ↔
      x ∈ s.conns ∧ x.centraldId ≠ p.conn.centraldId := by
    intro x
    simp only [Centrald.conns, Centrald.removeConnection, Centrald.sendAll, List.map_map,
      List.mem_map, List.mem_filter, decide_eq_true_eq, Function.comp_apply]
    constructor
    · rintro ⟨q, ⟨hq, hne⟩, rfl⟩
      exact ⟨⟨q, hq, rfl⟩, hne⟩
    · rintro ⟨⟨q, hq, rfl⟩, hne⟩
      exact ⟨q, ⟨hq, hne⟩, rfl⟩
  have hsub : ∀ c ∈ (s.removeConnection p.conn).conns, c ∈ s.conns := fun c hc => ((hleft c).mp hc).1
  refine ⟨⟨fun c hc => h.roster.named c (hsub c hc), fun c hc d hd => ?_, fun c hc d hd => ?_⟩,
    fun c hc => h.ids c (hsub c hc), fun r hr => ?_⟩
  · exact h.roster.ids c (hsub c hc) d (hsub d hd)
  · exact h.roster.names c (hsub c hc) d (hsub d hd)
  · obtain ⟨q, hq, rfl⟩ := List.mem_map.mp hr
    rw [settled_send]
    exact (h.peers q (List.mem_filter.mp hq).1).leave h.roster (conn_mem hp) hleft

theorem Right.accept (h : Right s) (hostNum : Int) (hnum : s.connNum + 1 < 2 ^ 31) :
    Right (step s (.accept hostNum)) := by
  have hmem : ∀ x, x ∈ (step s (.accept hostNum)).conns ↔
      x ∈ s.conns ∨ x = .new (s.connNum + 1) := by
    intro x
    simp [Centrald.conns, step, Peer.new]
  have hfresh : ∀ c ∈ s.conns, c.centraldId ≠ s.connNum + 1 := fun c hc => by
    have := h.ids c hc
    omega
  have hknows : ∀ {q : Peer}, q ∈ s.connections → Knows (step s (.accept hostNum)).conns s.gone
      q.hostNum q.informed q.settled := by
    intro q hq
    refine (h.peers q hq).mono (fun c hc _ => (hmem c).mpr (.inl hc)) fun c hc htype => ?_
    rcases (hmem c).mp hc with hc | rfl
    · exact hc
    · exact absurd rfl htype
  have hnew : Named (.new (s.connNum + 1)) := ⟨hnum, nofun, nofun⟩
  refine ⟨h.roster.put hnew nofun fun c hc => ?_, fun c hc => ?_, fun r hr => ?_⟩
  · exact ((hmem c).mp hc).symm.imp_right fun hc => ⟨hc, hfresh c hc⟩
  · rcases (hmem c).mp hc with hc | rfl
    · exact (h.ids c hc).trans (Nat.le_succ _)
    · exact Nat.le_refl _
  · rcases List.mem_append.mp hr with hr | hr
    · exact hknows hr
    · obtain rfl := List.mem_singleton.mp hr
      exact ⟨⟨List.nodup_nil, nofun⟩, ⟨List.nodup_nil, nofun⟩, nofun⟩

theorem step_none {id : Nat} (h : s.find id = none) (event : ConnEvent) :
    step s (.connection id event) = s := by
  simp only [step, h]

theorem step_some {id : Nat} (h : s.find id = some p) (event : ConnEvent) :
    step s (.connection id event) = s.connEvent p event := by
  simp only [step, h]

theorem Right.step (h : Right s) {e : Event} (he : Ordinary s e) : Right (step s e) := by
  cases e with
  | accept hostNum => exact h.accept hostNum he
  | connection id event =>
    cases hfind : s.find id with
    | none =>
      rw [step_none hfind]
      exact h
    | some p =>
      obtain ⟨hp, -⟩ := find_some hfind
      rw [step_some hfind]
      cases event with
      | login in_login in_name => exact h.login hp he.1 he.2
      | register centraldNum reg_device device_type in_hostname port =>
        exact h.register hp centraldNum device_type port he.1 he.2.1 he.2.2
      | password passwd =>
        show Right (s.password p.conn passwd)
        unfold Centrald.password
        split
        · exact h.modify _ (fun _ => rfl) fun q hq _ => h.peers q hq
        · exact h
      | info =>
        show Right (s.info p)
        unfold Centrald.info
        split
        · exact h.sendInfo _
        · exact h
      | sendMsg line =>
        refine h.modify _ (fun _ => rfl) fun q hq _ => ?_
        have hnone : readNotice line = none := he
        rw [settled_send, List.foldl_cons, List.foldl_nil, Block.command, hnone]
        exact h.peers q hq
      | receive =>
        refine h.modify _ (fun _ => rfl) fun q hq _ => ?_
        have hsame := Link.settled_receive (Block.command q.hostNum) q.link
        show Knows s.conns s.gone q.hostNum q.informed
          ((q.link.receive (Block.command q.hostNum)).settled (Block.command q.hostNum))
        rw [hsame]
        exact h.peers q hq
      | removed => exact h.removeConnection hp

theorem right_start : Right Centrald.start :=
  ⟨⟨nofun, nofun, nofun⟩, nofun, nofun⟩

theorem right_run {events : List Event} (h : Along step Ordinary .start events) :
    Right (run step .start events) :=
  h.invariant right_start fun _ _ hs he => hs.step he

end Steps

/-! ## What a block knows -/

/-- The users that a block will know are clients that are connected, each once, and all of them if
the block was informed. -/
structure KnowsClients (s : Centrald) (p : Peer) : Prop where
  once : (p.settled.blockUsers.map (·.centralId)).Nodup
  connected : ∀ u ∈ p.settled.blockUsers, ∃ q ∈ s.connections,
    q.conn.type = .clientServer ∧ u = userOf q.conn
  all : p.informed = true → ∀ q ∈ s.connections, q.conn.type = .clientServer →
    userOf q.conn ∈ p.settled.blockUsers

/-- The addresses that a block will know are those of devices that are connected, or of ones that
are gone and had not registered with their id for a number; each once. The connected ones are all
there if the block was informed. -/
structure KnowsDevices (s : Centrald) (p : Peer) : Prop where
  once : (p.settled.blockAddress.map addressKey).Nodup
  registered : ∀ a ∈ p.settled.blockAddress,
    (∃ q ∈ s.connections, q.conn.type = .deviceServer ∧ Describes p.hostNum a q.conn) ∨
      ∃ d ∈ s.gone, Describes p.hostNum a d ∧ d.centraldNum.toInt ≠ d.centraldId
  all : p.informed = true → ∀ q ∈ s.connections, q.conn.type = .deviceServer →
    ∃ a ∈ p.settled.blockAddress, Describes p.hostNum a q.conn

/-- **The users are the clients**, in every run. -/
theorem users_settled {events : List Event} (h : Along step Ordinary .start events) :
    ∀ p ∈ (run step .start events).connections, KnowsClients (run step .start events) p := by
  intro p hp
  have hknows := (right_run h).peers p hp
  refine ⟨hknows.users.nodup, fun u hu => ?_, fun hinf q hq htype => ?_⟩
  · obtain ⟨c, hc, huser⟩ := hknows.users.sound u hu
    obtain ⟨q, hq, rfl⟩ := List.mem_map.mp hc
    exact ⟨q, hq, huser⟩
  · obtain ⟨u, hu, -, rfl⟩ := (hknows.informed hinf _ (conn_mem hq)).client htype
    exact hu

/-- A device with the number 0 registers, a client logs in and asks for `info`, and the device
goes. -/
def deviceGone : List Event :=
  [.accept 0, .connection 1 (.register 0 [84, 48] 2 [104] 617), .accept 0,
    .connection 2 (.login [97] [98]), .connection 2 (.password [97]), .connection 2 .info,
    .connection 2 .receive, .connection 1 .removed]

theorem users_settled_deviceGone :
    (run step .start deviceGone).connections.map (·.settled.blockUsers) = [[⟨2, [97], [98]⟩]] ∧
      ∀ p ∈ (run step .start deviceGone).connections,
        KnowsClients (run step .start deviceGone) p :=
  ⟨by decide +kernel, users_settled (by decide +kernel)⟩

/-- **The addresses are those of the devices**, in every run: a device that left stays unless it had
registered with its id for a number. -/
theorem addresses_settled {events : List Event} (h : Along step Ordinary .start events) :
    ∀ p ∈ (run step .start events).connections, KnowsDevices (run step .start events) p := by
  intro p hp
  have hknows := (right_run h).peers p hp
  refine ⟨hknows.addresses.nodup, fun a ha => ?_, fun hinf q hq htype => ?_⟩
  · obtain ⟨d, hd | hd, htype, hdesc⟩ := hknows.addresses.sound a ha
    · obtain ⟨q, hq, rfl⟩ := List.mem_map.mp hd
      exact .inl ⟨q, hq, htype, hdesc⟩
    · exact .inr ⟨d, hd.1, hdesc, hd.2⟩
  · obtain ⟨a, ha, -, hdesc⟩ := (hknows.informed hinf _ (conn_mem hq)).device htype
    exact ⟨a, ha, hdesc⟩

/-- The device is gone, and the client keeps its address. -/
theorem addresses_settled_deviceGone :
    (run step .start deviceGone).connections.map (·.settled.blockAddress.map (·.name)) =
        [[[84, 48]]] ∧
      ∀ p ∈ (run step .start deviceGone).connections,
        KnowsDevices (run step .start deviceGone) p :=
  ⟨by decide +kernel, addresses_settled (by decide +kernel)⟩

end Rts2.Registry

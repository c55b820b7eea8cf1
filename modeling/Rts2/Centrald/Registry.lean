import Rts2.Centrald.Conditions
import Rts2.Connection.ValueLine
import Rts2.Lib.Keyed
import Rts2.Lib.Link

/-! # Who is connected to the central daemon

A client logs in and a device registers. `Centrald` tells every connection of it, tells a
connection that asks for `info` of all the others, and tells those that stay when a connection is
gone. At the other end a `Block` keeps a list of users and a list of addresses, from the lines it
reads. What a block does to the connections it makes to these addresses is left out. -/
namespace Rts2.Registry
open Rts2.Lib Rts2.Connection Rts2.Centrald

/-! ## Lines of words -/

/-- Words with a space between them. -/
def spaced : List (List Byte) → List Byte
  | [] => []
  | w :: ws => w ++ ws.flatMap fun w => 32 :: w

/-- "client" -/
def clientWord : List Byte := [99, 108, 105, 101, 110, 116]

/-- "delete_client" -/
def deleteClientWord : List Byte :=
  [100, 101, 108, 101, 116, 101, 95, 99, 108, 105, 101, 110, 116]

/-- "device" -/
def deviceWord : List Byte := [100, 101, 118, 105, 99, 101]

/-- "delete_device" -/
def deleteDeviceWord : List Byte :=
  [100, 101, 108, 101, 116, 101, 95, 100, 101, 118, 105, 99, 101]

/-! ## The lists of a block -/

/-- `ConnUser`. -/
structure ConnUser where
  centralId : Int
  login : List Byte
  name : List Byte
  deriving DecidableEq, Repr

/-- `NetworkAddress`. -/
structure NetworkAddress where
  hostNum : Int
  centraldNum : Int
  centraldId : Int
  name : List Byte
  host : List Byte
  port : Int
  type : Int
  deriving DecidableEq, Repr

/-- `DEVICE_NAME_SIZE`. -/
def deviceNameSize : Nat := 50

/-- `NetworkAddress::NetworkAddress`, which cuts the name. -/
def NetworkAddress.new (hostNum centraldNum centraldId : Int) (name host : List Byte)
    (port type : Int) : NetworkAddress where
  hostNum := hostNum
  centraldNum := centraldNum
  centraldId := centraldId
  name := name.take (deviceNameSize - 1)
  host := host
  port := port
  type := type

/-- `NetworkAddress::isAddress`. -/
def NetworkAddress.isAddress (a : NetworkAddress) (centraldNum : Int) (name : List Byte) : Bool :=
  a.centraldNum = centraldNum && a.name = name

/-- `NetworkAddress::update`. -/
def NetworkAddress.update (a : NetworkAddress) (host : List Byte) (port type : Int) :
    NetworkAddress :=
  { a with host, port, type }

/-- `Block`, the blocks it knows of. -/
structure Block where
  blockUsers : List ConnUser
  blockAddress : List NetworkAddress
  deriving DecidableEq, Repr

/-- `Block::addClient`. -/
def Block.addClient (b : Block) (centraldId : Int) (login name : List Byte) : Block :=
  { b with
    blockUsers := putFirst (fun u => u.centralId = centraldId) (fun u => { u with login, name })
      ⟨centraldId, login, name⟩ b.blockUsers }

/-- `Block::deleteClient`. -/
def Block.deleteClient (b : Block) (centraldId : Int) : Block :=
  { b with blockUsers := b.blockUsers.eraseP fun u => u.centralId = centraldId }

/-- `Block::addAddress`. -/
def Block.addAddress (b : Block) (hostNum centraldNum centraldId : Int) (name host : List Byte)
    (port type : Int) : Block :=
  { b with
    blockAddress := putFirst (·.isAddress centraldNum name) (·.update host port type)
      (.new hostNum centraldNum centraldId name host port type) b.blockAddress }

/-- `Block::deleteAddress`. -/
def Block.deleteAddress (b : Block) (centraldNum : Int) (name : List Byte) : Block :=
  { b with blockAddress := b.blockAddress.eraseP (·.isAddress centraldNum name) }

/-! ## Reading a line -/

/-- What a line says about other blocks. -/
inductive Notice where
  | device (centraldNum centraldId : Int) (name host : List Byte) (port deviceType : Int)
  | deleteDevice (centraldNum : Int) (name : List Byte)
  | client (centraldId : Int) (login name : List Byte)
  | deleteClient (centraldId : Int)
  deriving DecidableEq, Repr

/-- The parameters of `device`. -/
def readDevice (s : List Byte) : Option Notice := do
  let (centraldNum, s) ← paramNextInteger s
  let (centraldId, s) ← paramNextInteger s
  let (name, s) ← paramNextString s []
  let (host, s) ← paramNextString s []
  let (port, s) ← paramNextInteger s
  let (deviceType, s) ← paramNextInteger s
  if paramEnd s then some (.device centraldNum centraldId name host port deviceType) else none

/-- The parameters of `delete_device`. -/
def readDeleteDevice (s : List Byte) : Option Notice := do
  let (centraldNum, s) ← paramNextInteger s
  let (name, s) ← paramNextString s []
  if paramEnd s then some (.deleteDevice centraldNum name) else none

/-- The parameters of `client`. -/
def readClient (s : List Byte) : Option Notice := do
  let (centraldId, s) ← paramNextInteger s
  let (login, s) ← paramNextString s []
  let (name, s) ← paramNextString s []
  if paramEnd s then some (.client centraldId login name) else none

/-- The parameters of `delete_client`. -/
def readDeleteClient (s : List Byte) : Option Notice := do
  let (centraldId, s) ← paramNextInteger s
  if paramEnd s then some (.deleteClient centraldId) else none

/-- The branches of `Connection::command` for other blocks, up to what they call. -/
def readNotice (line : List Byte) : Option Notice :=
  match paramNextString line [] with
  | none => none
  | some (command, params) =>
    if command = deviceWord then readDevice params
    else if command = deleteDeviceWord then readDeleteDevice params
    else if command = clientWord then readClient params
    else if command = deleteClientWord then readDeleteClient params
    else none

/-- What these branches call; `hostNum` is `getCentraldNum ()` of the connection. -/
def Block.notice (hostNum : Int) (b : Block) : Notice → Block
  | .device centraldNum centraldId name host port deviceType =>
    b.addAddress hostNum centraldNum centraldId name host port deviceType
  | .deleteDevice centraldNum name => b.deleteAddress centraldNum name
  | .client centraldId login name => b.addClient centraldId login name
  | .deleteClient centraldId => b.deleteClient centraldId

/-- A line from the central daemon. -/
def Block.command (hostNum : Int) (b : Block) (line : List Byte) : Block :=
  match readNotice line with
  | none => b
  | some n => b.notice hostNum n

/-! ## The central daemon -/

/-- `ConnCentrald`, what it keeps of the block at the other end. -/
structure ConnCentrald where
  centraldId : Nat
  centraldNum : Int32
  type : ConnType
  login : List Byte
  name : List Byte
  hostname : List Byte
  port : Int32
  deviceType : Int32
  deriving DecidableEq

/-- `new ConnCentrald`. -/
def ConnCentrald.new (centraldId : Nat) : ConnCentrald where
  centraldId := centraldId
  centraldNum := -1
  type := .notDefinedServer
  login := []
  name := []
  hostname := []
  port := 0
  deviceType := 0

/-- `ConnCentrald::sendConnectedInfo`, what it sends. -/
def ConnCentrald.connectedInfo (c : ConnCentrald) : List (List Byte) :=
  match c.type with
  | .clientServer => [spaced [clientWord, decimal c.centraldId, c.login, c.name]]
  | .deviceServer =>
    [spaced [deviceWord, decimal c.centraldNum.toInt, decimal c.centraldId, c.name, c.hostname,
      decimal c.port.toInt, decimal c.deviceType.toInt]]
  | .notDefinedServer => []

/-- What `Centrald::connectionRemoved` sends. -/
def ConnCentrald.removedInfo (c : ConnCentrald) : List (List Byte) :=
  match c.type with
  | .clientServer => [spaced [deleteClientWord, decimal c.centraldId]]
  | .deviceServer => [spaced [deleteDeviceWord, decimal c.centraldId, c.name]]
  | .notDefinedServer => []

/-- A connection of the daemon, the lines under way on it and the block at its other end.
`authorized` is the member of `ConnCentrald`, `hostNum` the number the block gave to the daemon;
`informed` tells that the daemon has answered an `info` of the block. -/
structure Peer where
  conn : ConnCentrald
  authorized : Bool
  link : Link (List Byte) Block
  hostNum : Int
  informed : Bool

def Peer.new (centraldId : Nat) (hostNum : Int) : Peer where
  conn := .new centraldId
  authorized := false
  link := ⟨[], ⟨[], []⟩⟩
  hostNum := hostNum
  informed := false

def Peer.send (p : Peer) (lines : List (List Byte)) : Peer := { p with link := p.link.send lines }

/-- What the block knows when it has read all that is under way. -/
def Peer.settled (p : Peer) : Block := p.link.settled (Block.command p.hostNum)

/-- `Centrald`. `gone` are the devices whose connections were removed. -/
structure Centrald where
  connNum : Nat
  connections : List Peer
  gone : List ConnCentrald

def Centrald.start : Centrald := ⟨0, [], []⟩

def Centrald.find (s : Centrald) (id : Nat) : Option Peer :=
  s.connections.find? fun p => p.conn.centraldId = id

def Centrald.modify (s : Centrald) (id : Nat) (f : Peer → Peer) : Centrald :=
  { s with connections := s.connections.map fun p => if p.conn.centraldId = id then f p else p }

/-- The connection with this id is changed. -/
def Centrald.replace (s : Centrald) (c : ConnCentrald) : Centrald :=
  s.modify c.centraldId fun p => { p with conn := c }

/-- `sendMsg` on every connection. -/
def Centrald.sendAll (s : Centrald) (lines : List (List Byte)) : Centrald :=
  { s with connections := s.connections.map (·.send lines) }

/-- `Centrald::connAdded`. -/
def Centrald.connAdded (s : Centrald) (added : ConnCentrald) : Centrald :=
  s.sendAll added.connectedInfo

/-- `ConnCentrald::sendInfo`, the lines about connections. -/
def Centrald.sendInfo (s : Centrald) (id : Nat) : Centrald :=
  s.modify id fun p =>
    { p.send (s.connections.flatMap fun c => c.conn.connectedInfo) with informed := true }

/-- The `login` branch of `ConnCentrald::command`. -/
def Centrald.login (s : Centrald) (c : ConnCentrald) (in_login in_name : List Byte) : Centrald :=
  if c.type = .notDefinedServer then
    let added := { c with
      login := in_login
      centraldNum := Int32.ofNat c.centraldId
      name := in_name
      type := .clientServer }
    (s.replace added).connAdded added
  else s

/-- `HOST_NAME_MAX`. -/
def hostNameMax : Nat := 64

/-- The `register` branch of `ConnCentrald::command`. -/
def Centrald.register (s : Centrald) (c : ConnCentrald) (centraldNum : Int32)
    (reg_device : List Byte) (device_type : Int32) (in_hostname : List Byte) (port : Int32) :
    Centrald :=
  if c.type = .notDefinedServer then
    if ∃ p ∈ s.connections, p.conn.name = reg_device then s
    else
      let added := { c with
        centraldNum := centraldNum
        name := reg_device
        deviceType := device_type
        hostname := in_hostname.take hostNameMax
        port := port
        type := .deviceServer }
      ((s.replace added).connAdded added).sendInfo c.centraldId
  else s

/-- `password`, of a client. -/
def Centrald.password (s : Centrald) (c : ConnCentrald) (passwd : List Byte) : Centrald :=
  if c.type = .clientServer ∧ c.login = passwd then
    s.modify c.centraldId fun p => { p with authorized := true }
  else s

/-- `info`, of a device or of a client that is authorized. -/
def Centrald.info (s : Centrald) (p : Peer) : Centrald :=
  if p.conn.type = .deviceServer ∨ (p.conn.type = .clientServer ∧ p.authorized = true) then
    s.sendInfo p.conn.centraldId
  else s

/-- The connection is erased, and `Centrald::connectionRemoved` called. -/
def Centrald.removeConnection (s : Centrald) (c : ConnCentrald) : Centrald :=
  Centrald.sendAll
    { s with
      connections := s.connections.filter fun p => p.conn.centraldId ≠ c.centraldId
      gone := if c.type = .deviceServer then c :: s.gone else s.gone }
    c.removedInfo

/-! ## Runs -/

/-- What happens on a connection. `sendMsg` is any other line of the daemon. -/
inductive ConnEvent where
  | login (in_login in_name : List Byte)
  | password (passwd : List Byte)
  | register (centraldNum : Int32) (reg_device : List Byte) (device_type : Int32)
      (in_hostname : List Byte) (port : Int32)
  | info
  | sendMsg (line : List Byte)
  | receive
  | removed

inductive Event where
  /-- A socket is accepted and its connection taken in. -/
  | accept (hostNum : Int)
  | connection (id : Nat) (event : ConnEvent)

def Centrald.connEvent (s : Centrald) (p : Peer) : ConnEvent → Centrald
  | .login in_login in_name => s.login p.conn in_login in_name
  | .password passwd => s.password p.conn passwd
  | .register centraldNum reg_device device_type in_hostname port =>
    s.register p.conn centraldNum reg_device device_type in_hostname port
  | .info => s.info p
  | .sendMsg line => s.modify p.conn.centraldId (·.send [line])
  | .receive => s.modify p.conn.centraldId fun p =>
      { p with link := p.link.receive (Block.command p.hostNum) }
  | .removed => s.removeConnection p.conn

def step (s : Centrald) : Event → Centrald
  | .accept hostNum =>
    { s with
      connNum := s.connNum + 1
      connections := s.connections ++ [.new (s.connNum + 1) hostNum] }
  | .connection id event =>
    match s.find id with
    | none => s
    | some p => s.connEvent p event

/-! ## Ordinary names -/

/-- A word that is read as it is: not empty, without spaces, not quoted. -/
structure IsWord (w : List Byte) : Prop where
  ne_nil : w ≠ []
  noSpace : ∀ b ∈ w, isspace b = false
  unquoted : w.head? ≠ some quote

theorem isWord_iff (w : List Byte) :
    IsWord w ↔ w ≠ [] ∧ (∀ b ∈ w, isspace b = false) ∧ w.head? ≠ some quote :=
  ⟨fun h => ⟨h.ne_nil, h.noSpace, h.unquoted⟩, fun h => ⟨h.1, h.2.1, h.2.2⟩⟩

instance (w : List Byte) : Decidable (IsWord w) :=
  haveI : Decidable (∀ b ∈ w, isspace b = false) := List.decidableBAll _ w
  decidable_of_iff _ (isWord_iff w).symm

/-- Names are words, those of devices and hosts fit where they are kept, and no other line is taken
for one about a block. The numbers of connections are `int`s. -/
def Ordinary (s : Centrald) : Event → Prop
  | .accept _ => s.connNum + 1 < 2 ^ 31
  | .connection _ (.login in_login in_name) => IsWord in_login ∧ IsWord in_name
  | .connection _ (.register _ reg_device _ in_hostname _) =>
    (IsWord reg_device ∧ reg_device.length < deviceNameSize) ∧
      IsWord in_hostname ∧ in_hostname.length < hostNameMax
  | .connection _ (.sendMsg line) => readNotice line = none
  | _ => True

instance (s : Centrald) : DecidablePred (Ordinary s)
  | .accept _ => inferInstanceAs (Decidable (s.connNum + 1 < 2 ^ 31))
  | .connection _ (.login in_login in_name) =>
    inferInstanceAs (Decidable (IsWord in_login ∧ IsWord in_name))
  | .connection _ (.register _ reg_device _ in_hostname _) =>
    inferInstanceAs (Decidable ((IsWord reg_device ∧ reg_device.length < deviceNameSize) ∧
      IsWord in_hostname ∧ in_hostname.length < hostNameMax))
  | .connection _ (.sendMsg line) => inferInstanceAs (Decidable (readNotice line = none))
  | .connection _ (.password _) => inferInstanceAs (Decidable True)
  | .connection _ .info => inferInstanceAs (Decidable True)
  | .connection _ .receive => inferInstanceAs (Decidable True)
  | .connection _ .removed => inferInstanceAs (Decidable True)

end Rts2.Registry

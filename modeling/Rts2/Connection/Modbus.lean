import Mathlib.Logic.Function.Basic
import Rts2.Lib.Crc

/-! # Modbus over TCP with a check

`ConnModbusRTUTCP` sends a request with a check behind it and waits for as many bytes as the reply has.
An error closes the connection for good. So of a sequence of calls those that return were served once
and in order, and nothing is sent after a call was lost. -/
namespace Rts2.Modbus
open Rts2.Lib.Crc

/-- A byte on the wire. -/
abbrev Octet := BitVec 8

/-! ## The check -/

/-- `CRC_16`. -/
def CRC_16 : BitVec 16 := 0xA001

/-- The inner loop of `getMsgBufCRC16`, over `ret` and `ch`; a `char` is shifted with its sign. -/
def crcBit (s : BitVec 16 × Octet) : BitVec 16 × Octet :=
  if (s.1 ^^^ s.2.signExtend 16) &&& 1#16 = 1#16 then ((s.1 >>> 1) ^^^ CRC_16, s.2.sshiftRight 1)
  else (s.1 >>> 1, s.2.sshiftRight 1)

/-- `getMsgBufCRC16`. -/
def getMsgBufCRC16 (msgBuf : List Octet) : BitVec 16 :=
  msgBuf.foldl (fun ret ch => (crcBit^[8] (ret, ch)).1) 0xffff

example : getMsgBufCRC16 [0x14, 0x03, 0x00, 0x01, 0x00, 0x02] = 0x0e97 := by decide +kernel

/-- The bits of bytes, in the order in which the check takes them. -/
def bits (bytes : List Octet) : List Bool := bytes.flatMap (lowBits 8)

theorem bits_cons (b : Octet) (bytes : List Octet) :
    bits (b :: bytes) = lowBits 8 b ++ bits bytes := List.flatMap_cons

/-- `htole16`, as two bytes. -/
def littleEndian (x : BitVec 16) : List Octet := [x.setWidth 8, (x >>> 8).setWidth 8]

/-- The word that stands in two bytes. -/
def leWord (lo hi : Octet) : BitVec 16 := hi.setWidth 16 <<< 8 ||| lo.setWidth 16

theorem low_bit_iff (x y : BitVec 16) :
    (x ^^^ y) &&& 1#16 = 1#16 ↔ (x.getLsbD 0 ^^ y.getLsbD 0) = true := by
  rw [BitVec.and_one_eq_setWidth_ofBool_getLsbD, BitVec.getLsbD_xor]
  cases x.getLsbD 0 <;> cases y.getLsbD 0 <;> decide

theorem crcBit_iterate (ret : BitVec 16) (ch : Octet) {n : ℕ} (hn : n ≤ 8) :
    crcBit^[n] (ret, ch) = (crc CRC_16 ret (lowBits n ch), ch.sshiftRight n) := by
  induction n with
  | zero => simp [crc, lowBits]
  | succ n ih =>
    have hlow : ((ch.sshiftRight n).signExtend 16).getLsbD 0 = ch.getLsbD n := by
      rw [BitVec.getLsbD_signExtend, BitVec.getLsbD_sshiftRight]
      simp [show n < 8 by omega]
    have hch : (ch.sshiftRight n).sshiftRight 1 = ch.sshiftRight (n + 1) := by
      rw [BitVec.sshiftRight_add]
    rw [Function.iterate_succ_apply', ih (by omega), crcBit, lowBits_succ, crc_append]
    simp only [low_bit_iff, hlow, hch, crc, List.foldl_cons, List.foldl_nil, step]
    split <;> rfl

theorem getMsgBufCRC16_eq (msgBuf : List Octet) :
    getMsgBufCRC16 msgBuf = crc CRC_16 0xffff (bits msgBuf) := by
  rw [getMsgBufCRC16]
  generalize (0xffff : BitVec 16) = s
  induction msgBuf generalizing s with
  | nil => rfl
  | cons ch msgBuf ih =>
    rw [List.foldl_cons, ih, crcBit_iterate s ch (Nat.le_refl 8), bits_cons, crc_append]

/-- The low byte goes first, as the bits do. -/
theorem bits_pair (lo hi : Octet) : bits [lo, hi] = lowBits 16 (leWord lo hi) := by
  have hlo : ∀ i < 8, (leWord lo hi).getLsbD i = lo.getLsbD i := by
    intro i hi'
    simp [leWord, hi', show i < 16 by omega]
  have hhi : ∀ i < 8, (leWord lo hi).getLsbD (8 + i) = hi.getLsbD i := by
    intro i hi'
    simp [leWord, show 8 + i < 16 by omega]
  have hrange : List.range 16 = List.range 8 ++ (List.range 8).map (8 + ·) :=
    @List.range_add 8 8
  rw [bits, List.flatMap_cons, List.flatMap_singleton, lowBits, lowBits, lowBits, hrange,
    List.map_append, List.map_map]
  refine congrArg₂ _ ?_ ?_
  · exact List.map_congr_left fun i hi' => (hlo i (List.mem_range.mp hi')).symm
  · exact List.map_congr_left fun i hi' => (hhi i (List.mem_range.mp hi')).symm

theorem leWord_littleEndian (x : BitVec 16) :
    leWord (x.setWidth 8) ((x >>> 8).setWidth 8) = x := by
  refine BitVec.eq_of_getLsbD_eq fun i hi => ?_
  rcases Nat.lt_or_ge i 8 with h | h
  · simp [leWord, h, hi]
  · simp [leWord, hi, Nat.not_lt.mpr h,
      show i - 8 < 8 by omega, show 8 + (i - 8) = i by omega]

/-! ## Frames -/

/-- A payload with its check behind it, as `exchangeData` sends it. -/
def sealed (payload : List Octet) : List Octet := payload ++ littleEndian (getMsgBufCRC16 payload)

/-- The comparison of the check of all but the last two bytes with these. -/
def checks (frame : List Octet) : Bool :=
  match frame.drop (frame.length - 2) with
  | [lo, hi] => getMsgBufCRC16 (frame.take (frame.length - 2)) = leWord lo hi
  | _ => false

/-- What of a frame is turned around, byte by byte. -/
def damaged (frame damage : List Octet) : List Octet := List.zipWith (· ^^^ ·) frame damage

theorem checks_append (payload : List Octet) (lo hi : Octet) :
    checks (payload ++ [lo, hi]) = decide (getMsgBufCRC16 payload = leWord lo hi) := by
  have hlen : (payload ++ [lo, hi]).length - 2 = payload.length := by
    rw [List.length_append]
    rfl
  rw [checks, hlen, List.drop_left, List.take_left]

theorem checks_sealed (payload : List Octet) : checks (sealed payload) = true := by
  rw [sealed, littleEndian, checks_append, leWord_littleEndian, decide_eq_true_eq]

/-- A frame checks exactly when its own check is zero. -/
theorem checks_append_iff (payload : List Octet) (lo hi : Octet) :
    checks (payload ++ [lo, hi]) = true ↔
      crc CRC_16 0xffff (bits (payload ++ [lo, hi])) = 0 := by
  have hsplit : bits (payload ++ [lo, hi]) = bits payload ++ lowBits 16 (leWord lo hi) := by
    rw [← bits_pair]
    exact List.flatMap_append
  rw [checks_append, decide_eq_true_eq, getMsgBufCRC16_eq, hsplit,
    crc_append_eq_zero_iff (by decide)]

theorem bits_length (bytes : List Octet) : (bits bytes).length = 8 * bytes.length := by
  induction bytes with
  | nil => rfl
  | cons b bytes ih =>
    rw [bits_cons, List.length_append, ih, List.length_cons, lowBits, List.length_map,
      List.length_range]
    omega

theorem bits_damaged {frame damage : List Octet} (h : frame.length = damage.length) :
    bits (damaged frame damage) = List.zipWith xor (bits frame) (bits damage) := by
  induction frame generalizing damage with
  | nil =>
    obtain rfl := List.length_eq_zero_iff.mp h.symm
    rfl
  | cons b frame ih =>
    cases damage with
    | nil => cases h
    | cons d damage =>
      have hbyte : lowBits 8 (b ^^^ d) = List.zipWith xor (lowBits 8 b) (lowBits 8 d) := by
        refine List.ext_getElem (by simp [lowBits]) fun i _ _ => ?_
        simp [lowBits]
      have hrest := ih (Nat.succ.inj h)
      rw [damaged] at hrest ⊢
      rw [List.zipWith_cons_cons, bits_cons, hrest, hbyte, bits_cons, bits_cons,
        List.zipWith_append (by simp [lowBits])]

/-- A frame of which up to sixteen bits on end, or an odd number of bits, are turned around does not
check, whatever the frame. -/
theorem damaged_frame_rejected (payload damage : List Octet)
    (hlen : damage.length = payload.length + 2) (h : Damage 16 (bits damage)) :
    checks (damaged (sealed payload) damage) = false := by
  have hsealed : (sealed payload).length = payload.length + 2 := List.length_append
  have hsize : (damaged (sealed payload) damage).length = payload.length + 2 := by
    rw [damaged, List.length_zipWith, hsealed, hlen, Nat.min_self]
  obtain ⟨kept, tail, hsplit, htail⟩ : ∃ kept tail, damaged (sealed payload) damage = kept ++ tail ∧
      tail.length = 2 :=
    ⟨_, _, (List.take_append_drop payload.length _).symm, by
      rw [List.length_drop, hsize, Nat.add_sub_cancel_left]⟩
  obtain ⟨lo, hi, rfl⟩ := List.length_eq_two.mp htail
  have hvalid := (checks_append_iff payload _ _).mp (checks_sealed payload)
  have hbits : (bits (sealed payload)).length = (bits damage).length := by
    rw [bits_length, bits_length, hsealed, hlen]
  have hxor := crc_xor CRC_16 0xffff 0 hbits
  rw [← bits_damaged (hsealed.trans hlen.symm), hsplit] at hxor
  rw [hsplit, Bool.eq_false_iff]
  intro hchecks
  have hzero := (checks_append_iff kept lo hi).mp hchecks
  have hne : crc CRC_16 0 (bits damage) ≠ 0 := h.crc_ne_zero (by decide) (by decide)
  refine hne ?_
  rw [sealed, littleEndian, hvalid, show (0xffff ^^^ 0 : BitVec 16) = 0xffff by decide, hzero] at hxor
  exact (hxor.trans BitVec.zero_xor).symm

/-! ## The slave -/

/-- `htons`, as two bytes. -/
def bigEndian (x : BitVec 16) : List Octet := [(x >>> 8).setWidth 8, x.setWidth 8]

/-- `ntohs` of two bytes. -/
def beWord (hi lo : Octet) : BitVec 16 := leWord lo hi

theorem beWord_bigEndian (x : BitVec 16) :
    beWord ((x >>> 8).setWidth 8) (x.setWidth 8) = x := leWord_littleEndian x

/-- A device with registers. -/
structure Slave where
  id : Octet
  holding : ℕ → BitVec 16
  inputs : ℕ → BitVec 16

/-- The registers from one on. -/
def registersFrom (registers : ℕ → BitVec 16) (start qty : ℕ) : List (BitVec 16) :=
  (List.range qty).map fun i => registers (start + i)

/-- Registers that are overwritten from one on. -/
def overwrite (registers : ℕ → BitVec 16) (start : ℕ) (vals : List (BitVec 16)) (reg : ℕ) : BitVec 16 :=
  if start ≤ reg then vals.getD (reg - start) (registers reg) else registers reg

/-- How many registers may be asked for. -/
def Readable (start : BitVec 16) (qty : ℕ) : Prop := 1 ≤ qty ∧ qty ≤ 125 ∧ start.toNat + qty ≤ 65536

instance (start : BitVec 16) (qty : ℕ) : Decidable (Readable start qty) :=
  inferInstanceAs (Decidable (_ ∧ _))

/-- How many registers may be written. -/
def Writable (start : BitVec 16) (qty : ℕ) : Prop := 1 ≤ qty ∧ qty ≤ 123 ∧ start.toNat + qty ≤ 65536

instance (start : BitVec 16) (qty : ℕ) : Decidable (Writable start qty) :=
  inferInstanceAs (Decidable (_ ∧ _))

/-- What the protocol has a device answer to a request. -/
def Slave.serve (s : Slave) : List Octet → Slave × Option (List Octet)
  | [id, func, a1, a0, q1, q0] =>
    let start := beWord a1 a0
    let word := beWord q1 q0
    if id ≠ s.id then (s, none)
    else if func = 6 then
      ({ s with holding := overwrite s.holding start.toNat [word] }, some [id, func, a1, a0, q1, q0])
    else if func = 3 ∨ func = 4 then
      if Readable start word.toNat then
        let registers := if func = 3 then s.holding else s.inputs
        (s, some (id :: func :: BitVec.ofNat 8 (2 * word.toNat) ::
          (registersFrom registers start.toNat word.toNat).flatMap bigEndian))
      else (s, some [id, func ||| 0x80, if 1 ≤ word.toNat ∧ word.toNat ≤ 125 then 2 else 3])
    else (s, some [id, func ||| 0x80, 1])
  | id :: func :: a1 :: a0 :: q1 :: q0 :: count :: data =>
    let start := beWord a1 a0
    let qty := (beWord q1 q0).toNat
    if id ≠ s.id then (s, none)
    else if func = 16 ∧ count.toNat = 2 * qty ∧ data.length = 2 * qty ∧ Writable start qty then
      ({ s with holding := overwrite s.holding start.toNat ((List.range qty).map fun i =>
          beWord (data.getD (2 * i) 0) (data.getD (2 * i + 1) 0)) },
        some [id, func, a1, a0, q1, q0])
    else (s, some [id, func ||| 0x80, 3])
  | id :: func :: _ => if id ≠ s.id then (s, none) else (s, some [id, func ||| 0x80, 3])
  | _ => (s, none)

/-- A device does not answer what does not check. -/
def Slave.receive (s : Slave) (frame : List Octet) : Slave × Option (List Octet) :=
  if checks frame then
    let served := s.serve (frame.take (frame.length - 2))
    (served.1, served.2.map sealed)
  else (s, none)

/-! ## The client -/

/-- What `exchangeData` and `callFunction` throw. -/
inductive ModbusError where
  /-- "socket does not exists" -/
  | noSocket
  /-- "timeout during receiving data" -/
  | timeout
  /-- "invalid CRC" -/
  | invalidCrc
  /-- "invalid reply ID " -/
  | invalidReplyId (reply slaveId : Octet)
  /-- "Error executing function " -/
  | executing (func reply : Octet)
  /-- "Invalid reply from modbus read, reply function is 0x" -/
  | invalidReply (reply func : Octet)
  /-- "invalid lenght in read reply: " -/
  | invalidLength (reply expected : ℕ)
  deriving DecidableEq, Repr

/-- A way for frames: a frame is lost, or arrives, or arrives with damage. -/
structure Channel where
  carry : List Octet → Option (List Octet)
  fault : ∀ frame, carry frame = none ∨ carry frame = some frame ∨
    ∃ damage, damage.length = frame.length ∧ Damage 16 (bits damage) ∧
      carry frame = some (damaged frame damage)

/-- The connection, what is in its socket, the device, and how many requests were sent. -/
structure World where
  connected : Bool
  input : List Octet
  slave : Slave
  sent : ℕ

/-- A call that throws or returns. -/
abbrev Call (α : Type) := ExceptT ModbusError (StateM World) α

/-- A request is on its way to the device, which serves it if it arrives. -/
def Slave.request (s : Slave) (there : Channel) (payload : List Octet) :
    Slave × Option (List Octet) :=
  match there.carry (sealed payload) with
  | none => (s, none)
  | some frame => s.receive frame

/-- `old_value &= ~mask; old_value |= (val & mask);` -/
def masked (old_value mask val : BitVec 16) : BitVec 16 := (old_value &&& ~~~mask) ||| (val &&& mask)

section Client
variable (there back : ℕ → Channel)

/-- `ConnModbusRTUTCP::exchangeData`: an error closes the socket, and there is no time to reconnect. -/
def exchangeData (payloadData : List Octet) (replySize : ℕ) : Call (List Octet) := fun w =>
  if w.connected then
    let served := w.slave.request (there w.sent) payloadData
    let input := w.input ++ (served.2.bind (back w.sent).carry).getD []
    if input.length < replySize + 2 then (.error .timeout, ⟨false, [], served.1, w.sent + 1⟩)
    else if checks (input.take (replySize + 2)) then
      (.ok (input.take replySize), ⟨true, input.drop (replySize + 2), served.1, w.sent + 1⟩)
    else (.error .invalidCrc, ⟨false, [], served.1, w.sent + 1⟩)
  else (.error .noSocket, w)

/-- `ConnModbus::callFunction`. -/
def callFunction (slaveId func : Octet) (data : List Octet) (reply_size : ℕ) : Call (List Octet) := do
  let reply_data ← exchangeData there back (slaveId :: func :: data) (2 + reply_size)
  let replyId := reply_data.getD 0 0
  let replyFunc := reply_data.getD 1 0
  if replyId ≠ slaveId then throw (.invalidReplyId replyId slaveId)
  else if replyFunc &&& 0x80 ≠ 0 then throw (.executing func replyFunc)
  else if replyFunc ≠ func then throw (.invalidReply replyFunc func)
  else pure (reply_data.drop 2)

/-- `ConnModbus::callFunction16`. -/
def callFunction16 (slaveId func : Octet) (p1 p2 : BitVec 16) (qty : ℕ) : Call (List (BitVec 16)) := do
  let reply ← callFunction there back slaveId func (bigEndian p1 ++ bigEndian p2) (1 + qty * 2)
  let size := (reply.getD 0 0).toNat
  if qty * 2 ≠ size then throw (.invalidLength size (qty * 2))
  else pure ((List.range qty).map fun i =>
    beWord (reply.getD (1 + 2 * i) 0) (reply.getD (2 + 2 * i) 0))

/-- `ConnModbus::readHoldingRegisters`. -/
def readHoldingRegisters (slaveId : Octet) (start : BitVec 16) (qty : ℕ) : Call (List (BitVec 16)) :=
  callFunction16 there back slaveId 3 start (BitVec.ofNat 16 qty) qty

/-- `ConnModbus::readInputRegisters`. -/
def readInputRegisters (slaveId : Octet) (start : BitVec 16) (qty : ℕ) : Call (List (BitVec 16)) :=
  callFunction16 there back slaveId 4 start (BitVec.ofNat 16 qty) qty

/-- `ConnModbus::writeHoldingRegister`. -/
def writeHoldingRegister (slaveId : Octet) (reg val : BitVec 16) : Call Unit := do
  let _ ← callFunction there back slaveId 6 (bigEndian reg ++ bigEndian val) 4
  pure ()

/-- `ConnModbus::writeHoldingRegisters`: the values are copied as they are in memory. -/
def writeHoldingRegisters (slaveId : Octet) (start : BitVec 16) (vals : List (BitVec 16)) :
    Call Unit := do
  let len := vals.length
  let _ ← callFunction there back slaveId 0x10 (bigEndian start ++ bigEndian (BitVec.ofNat 16 len) ++
    BitVec.ofNat 8 (len * 2) :: vals.flatMap littleEndian) 4
  pure ()

/-- `ConnModbus::writeHoldingRegisterMask`. -/
def writeHoldingRegisterMask (slaveId : Octet) (reg mask val : BitVec 16) : Call Unit := do
  let old ← readHoldingRegisters there back slaveId reg 1
  let old_value := old.getD 0 0
  writeHoldingRegister there back slaveId reg (masked old_value mask val)

/-! ## One exchange -/

/-- Nothing is left over from a call before. -/
def World.Open (w : World) : Prop := w.connected = true ∧ w.input = []

/-- The call failed and closed the connection; the request was served or not. -/
def Lost {α : Type} (w : World) (s : Slave) (out : Except ModbusError α × World) : Prop :=
  (∃ e, out.1 = .error e) ∧ out.2.connected = false ∧ (out.2.slave = w.slave ∨ out.2.slave = s)

/-- The request was served and the call has its outcome from the reply, or the call is lost. -/
def Answered {α : Type} (w : World) (s : Slave) (value : Except ModbusError α)
    (out : Except ModbusError α × World) : Prop :=
  out.1 = value ∧ out.2.Open ∧ out.2.slave = s ∨ Lost w s out

theorem bind_ok {α β : Type} {x : Call α} {f : α → Call β} {w w' : World} {a : α}
    (h : x w = (.ok a, w')) : (x >>= f) w = f a w' := by
  simp only [bind, ExceptT.bind, ExceptT.mk, StateT.bind, h]
  rfl

theorem bind_of_fst {α β : Type} {x : Call α} {f : α → Call β} {w : World} {a : α}
    (h : (x w).1 = .ok a) : (x >>= f) w = f a (x w).2 := bind_ok (Prod.ext h rfl)

theorem bind_error {α β : Type} {x : Call α} {f : α → Call β} {w w' : World} {e : ModbusError}
    (h : x w = (.error e, w')) : (x >>= f) w = (.error e, w') := by
  simp only [bind, ExceptT.bind, ExceptT.mk, StateT.bind, h]
  rfl

theorem sealed_length (payload : List Octet) : (sealed payload).length = payload.length + 2 :=
  List.length_append

theorem sealed_take (payload : List Octet) : (sealed payload).take payload.length = payload :=
  List.take_left

theorem Slave.request_of_carry {c : Channel} {s s' : Slave} {payload : List Octet}
    {r : Option (List Octet)} (h : c.carry (sealed payload) = some (sealed payload))
    (hserve : s.serve payload = (s', r)) : s.request c payload = (s', r.map sealed) := by
  have hsize : (sealed payload).length - 2 = payload.length := by
    rw [sealed_length, Nat.add_sub_cancel]
  simp only [Slave.request, h, Slave.receive, checks_sealed, if_true, hsize, sealed_take, hserve]

/-- A request arrives as it was sent, or the device does not answer. -/
theorem Slave.request_cases (c : Channel) {s s' : Slave} {payload : List Octet}
    {r : Option (List Octet)} (hserve : s.serve payload = (s', r)) :
    s.request c payload = (s, none) ∨ s.request c payload = (s', r.map sealed) := by
  rcases c.fault (sealed payload) with h | h | ⟨damage, hlen, hdamage, h⟩
  · left
    simp only [Slave.request, h]
  · exact .inr (Slave.request_of_carry h hserve)
  · left
    have hbad := damaged_frame_rejected payload damage (hlen.trans (sealed_length payload)) hdamage
    simp only [Slave.request, h, Slave.receive, hbad, Bool.false_eq_true, if_false]

/-- The reply is returned as it was sent, or the exchange fails and closes the socket. -/
theorem exchangeData_cases {w : World} (hopen : w.Open) {payload r : List Octet} {n : ℕ} {s : Slave}
    (hreq : w.slave.request (there w.sent) payload = (s, some (sealed r))) (hlen : r.length ≤ n) :
    (exchangeData there back payload n w = (.ok r, ⟨true, [], s, w.sent + 1⟩) ∧ r.length = n ∧
        (back w.sent).carry (sealed r) = some (sealed r)) ∨
      (exchangeData there back payload n w = (.error .timeout, ⟨false, [], s, w.sent + 1⟩) ∧
        (r.length = n → (back w.sent).carry (sealed r) = none)) ∨
      (exchangeData there back payload n w = (.error .invalidCrc, ⟨false, [], s, w.sent + 1⟩) ∧
        ∃ frame, (back w.sent).carry (sealed r) = some frame ∧ frame ≠ sealed r) := by
  have hout : exchangeData there back payload n w =
      if (((back w.sent).carry (sealed r)).getD []).length < n + 2 then
        (.error .timeout, ⟨false, [], s, w.sent + 1⟩)
      else if checks ((((back w.sent).carry (sealed r)).getD []).take (n + 2)) then
        (.ok ((((back w.sent).carry (sealed r)).getD []).take n),
          ⟨true, (((back w.sent).carry (sealed r)).getD []).drop (n + 2), s, w.sent + 1⟩)
      else (.error .invalidCrc, ⟨false, [], s, w.sent + 1⟩) := by
    rw [exchangeData, if_pos hopen.1, hreq, hopen.2]
    rfl
  rw [hout]
  have hsealed := sealed_length r
  cases hback : (back w.sent).carry (sealed r) with
  | none => exact .inr (.inl ⟨if_pos (Nat.succ_pos _), fun _ => rfl⟩)
  | some frame =>
    simp only [Option.getD_some]
    have hframe : frame.length = r.length + 2 ∧ (frame = sealed r ∨ checks frame = false) := by
      rcases (back w.sent).fault (sealed r) with h | h | ⟨damage, hdlen, hdamage, h⟩
      · rw [hback] at h
        cases h
      · obtain rfl := Option.some.inj (hback.symm.trans h)
        exact ⟨hsealed, .inl rfl⟩
      · obtain rfl := Option.some.inj (hback.symm.trans h)
        refine ⟨?_, .inr (damaged_frame_rejected r damage (hdlen.trans hsealed) hdamage)⟩
        rw [damaged, List.length_zipWith, hdlen, hsealed, Nat.min_self]
    rcases Nat.lt_or_eq_of_le hlen with hlt | rfl
    · exact .inr (.inl ⟨if_pos (by omega), fun heq => absurd heq (Nat.ne_of_lt hlt)⟩)
    · rw [if_neg (by omega), ← hframe.1, List.take_length, List.drop_length]
      rcases hframe.2 with rfl | hbad
      · exact .inl ⟨by rw [if_pos (checks_sealed r), sealed_take], rfl, rfl⟩
      · refine .inr (.inr ⟨if_neg (by rw [hbad]; exact Bool.false_ne_true), frame, rfl, ?_⟩)
        rintro rfl
        rw [checks_sealed] at hbad
        cases hbad

theorem exchangeData_answered {w : World} (hopen : w.Open) {payload r : List Octet} {n : ℕ}
    {s : Slave} (hserve : w.slave.serve payload = (s, some r)) (hlen : r.length ≤ n) :
    exchangeData there back payload n w = (.ok r, ⟨true, [], s, w.sent + 1⟩) ∨
      Lost w s (exchangeData there back payload n w) := by
  rcases Slave.request_cases (there w.sent) hserve with hreq | hreq
  · right
    rw [exchangeData, if_pos hopen.1, hreq, hopen.2]
    exact ⟨⟨_, rfl⟩, rfl, .inl rfl⟩
  · rcases exchangeData_cases there back hopen hreq hlen with ⟨hout, -⟩ | ⟨hout, -⟩ | ⟨hout, -⟩
    · exact .inl hout
    · exact .inr (hout ▸ ⟨⟨_, rfl⟩, rfl, .inr rfl⟩)
    · exact .inr (hout ▸ ⟨⟨_, rfl⟩, rfl, .inr rfl⟩)

/-! ## Calls -/

/-- A call that was refused: the device is as it was. -/
def Refused {α : Type} (w : World) (out : Except ModbusError α × World) : Prop :=
  (∃ e, out.1 = .error e) ∧ (out.2.Open ∨ out.2.connected = false) ∧ out.2.slave = w.slave

theorem Lost.refused {α : Type} {w : World} {out : Except ModbusError α × World}
    (h : Lost w w.slave out) : Refused w out :=
  ⟨h.1, .inr h.2.1, h.2.2.elim id id⟩

/-- A call that is lost in its first part is lost. -/
theorem Lost.bind {α β : Type} {x : Call α} {f : α → Call β} {w : World} {s : Slave}
    (h : Lost w s (x w)) : Lost w s ((x >>= f) w) := by
  obtain ⟨⟨e, he⟩, hrest⟩ := h
  have hpair : x w = (.error e, (x w).2) := Prod.ext he rfl
  rw [bind_error hpair]
  exact ⟨⟨e, rfl⟩, hrest⟩

theorem Refused.bind {α β : Type} {x : Call α} {f : α → Call β} {w : World} (h : Refused w (x w)) :
    Refused w ((x >>= f) w) := by
  obtain ⟨⟨e, he⟩, hrest⟩ := h
  have hpair : x w = (.error e, (x w).2) := Prod.ext he rfl
  rw [bind_error hpair]
  exact ⟨⟨e, rfl⟩, hrest⟩

/-- A call of which only the outcome is looked at. -/
theorem Answered.bind_pure {α β : Type} {x : Call α} {w : World} {s : Slave} {a : α} {b : β}
    (h : Answered w s (.ok a) (x w)) : Answered w s (.ok b) ((x >>= fun _ => pure b) w) := by
  rcases h with ⟨hval, hrest⟩ | hlost
  · left
    rw [bind_of_fst hval]
    exact ⟨rfl, hrest⟩
  · exact .inr hlost.bind

theorem callFunction_answered {w : World} (hopen : w.Open) {slaveId func : Octet}
    (hfunc : func &&& 0x80 = 0) {data body : List Octet} {n : ℕ} {s : Slave}
    (hserve : w.slave.serve (slaveId :: func :: data) = (s, some (slaveId :: func :: body)))
    (hlen : body.length = n) :
    Answered w s (.ok body) (callFunction there back slaveId func data n w) := by
  rcases exchangeData_answered there back (n := 2 + n) hopen hserve
    (by simp only [List.length_cons]; omega) with hok | hlost
  · left
    rw [callFunction, bind_ok hok]
    simp only [List.getD_cons_zero, List.getD_cons_succ, ne_eq, not_true_eq_false, if_false, hfunc,
      List.drop_succ_cons, List.drop_zero]
    exact ⟨rfl, ⟨rfl, rfl⟩, rfl⟩
  · exact .inr hlost.bind

theorem callFunction_refused {w : World} (hopen : w.Open) {slaveId func code : Octet}
    {data : List Octet} {n : ℕ} (hn : 1 ≤ n)
    (hserve : w.slave.serve (slaveId :: func :: data) =
      (w.slave, some [slaveId, func ||| 0x80, code])) :
    Refused w (callFunction there back slaveId func data n w) := by
  rcases exchangeData_answered there back (n := 2 + n) hopen hserve
    (by simp only [List.length_cons, List.length_nil]; omega) with hok | hlost
  · have hbit : (func ||| 0x80) &&& 0x80 ≠ 0 := by
      have habs : (func ||| 0x80) &&& 0x80 = 0x80 := by
        ext i
        simp only [BitVec.getElem_and, BitVec.getElem_or, Bool.and_eq_right_iff_imp, Bool.or_eq_true]
        exact .inr
      rw [habs]
      decide
    rw [callFunction, bind_ok hok]
    simp only [List.getD_cons_zero, List.getD_cons_succ, ne_eq, not_true_eq_false, if_false, hbit,
      not_false_eq_true, if_true]
    exact ⟨⟨_, rfl⟩, .inl ⟨rfl, rfl⟩, rfl⟩
  · exact (show Lost w w.slave _ from hlost.bind).refused

/-! ## Calls as operations on registers -/

/-- The calls of a client, with arguments that its types have. -/
inductive Op where
  | readHoldingRegisters (start : BitVec 16) (qty : Fin 32768)
  | readInputRegisters (start : BitVec 16) (qty : Fin 32768)
  | writeHoldingRegister (reg val : BitVec 16)
  | writeHoldingRegisters (start : BitVec 16) (vals : { l : List (BitVec 16) // l.length < 128 })
  | writeHoldingRegisterMask (reg mask val : BitVec 16)

/-- A call, with what it reads. -/
def Op.call (slaveId : Octet) : Op → Call (List (BitVec 16))
  | .readHoldingRegisters start qty => Modbus.readHoldingRegisters there back slaveId start qty
  | .readInputRegisters start qty => Modbus.readInputRegisters there back slaveId start qty
  | .writeHoldingRegister reg val => do
    Modbus.writeHoldingRegister there back slaveId reg val
    pure []
  | .writeHoldingRegisters start vals => do
    Modbus.writeHoldingRegisters there back slaveId start vals
    pure []
  | .writeHoldingRegisterMask reg mask val => do
    Modbus.writeHoldingRegisterMask there back slaveId reg mask val
    pure []

/-- What a word becomes that is written in the byte order of the host. -/
def swapBytes (x : BitVec 16) : BitVec 16 := beWord (x.setWidth 8) ((x >>> 8).setWidth 8)

/-- What a call means for the registers; a device refuses what it does not have. -/
def Slave.perform (s : Slave) : Op → Option (Slave × List (BitVec 16))
  | .readHoldingRegisters start qty =>
    if Readable start qty then some (s, registersFrom s.holding start.toNat qty) else none
  | .readInputRegisters start qty =>
    if Readable start qty then some (s, registersFrom s.inputs start.toNat qty) else none
  | .writeHoldingRegister reg val =>
    some ({ s with holding := overwrite s.holding reg.toNat [val] }, [])
  | .writeHoldingRegisters start vals =>
    if Writable start vals.1.length then
      some ({ s with holding := overwrite s.holding start.toNat (vals.1.map swapBytes) }, [])
    else none
  | .writeHoldingRegisterMask reg mask val =>
    let new_value := masked (s.holding reg.toNat) mask val
    some ({ s with holding := overwrite s.holding reg.toNat [new_value] }, [])

/-- A call does what it means, or is refused, or is lost. -/
def Settled (w : World) (op : Op) (out : Except ModbusError (List (BitVec 16)) × World) : Prop :=
  match w.slave.perform op with
  | some (s, vals) => Answered w s (.ok vals) out
  | none => Refused w out

theorem flatMap_bigEndian_getD (vals : List (BitVec 16)) (head : Octet) {i : ℕ} (hi : i < vals.length) :
    beWord ((head :: vals.flatMap bigEndian).getD (1 + 2 * i) 0)
      ((head :: vals.flatMap bigEndian).getD (2 + 2 * i) 0) = vals[i] := by
  induction vals generalizing head i with
  | nil => cases hi
  | cons x vals ih =>
    rw [List.flatMap_cons, bigEndian]
    cases i with
    | zero => exact beWord_bigEndian x
    | succ i =>
      have hrest := ih (x.setWidth 8) (Nat.lt_of_succ_lt_succ hi)
      rw [show 1 + 2 * (i + 1) = 1 + 2 * i + 1 + 1 by omega,
        show 2 + 2 * (i + 1) = 2 + 2 * i + 1 + 1 by omega]
      exact hrest

theorem flatMap_pair_length {f : BitVec 16 → List Octet} (hf : ∀ x, (f x).length = 2)
    (vals : List (BitVec 16)) : (vals.flatMap f).length = 2 * vals.length := by
  induction vals with
  | nil => rfl
  | cons x vals ih =>
    rw [List.flatMap_cons, List.length_append, hf, ih, List.length_cons]
    omega

theorem serve_read (s : Slave) {func : Octet} (hfunc : func = 3 ∨ func = 4) (start : BitVec 16)
    (qty : Fin 32768) :
    s.serve (s.id :: func :: (bigEndian start ++ bigEndian (BitVec.ofNat 16 qty))) =
      if Readable start qty then
        (s, some (s.id :: func :: BitVec.ofNat 8 (2 * qty) ::
          (registersFrom (if func = 3 then s.holding else s.inputs) start.toNat qty).flatMap bigEndian))
      else (s, some [s.id, func ||| 0x80, if 1 ≤ qty.1 ∧ qty.1 ≤ 125 then 2 else 3]) := by
  have hqty : (BitVec.ofNat 16 qty.1).toNat = qty := by
    rw [BitVec.toNat_ofNat]
    omega
  have hsix : func ≠ 6 := by rcases hfunc with rfl | rfl <;> decide
  simp only [bigEndian, List.cons_append, List.nil_append, Slave.serve, beWord_bigEndian, ne_eq,
    not_true_eq_false, if_false, hsix, hfunc, if_true, hqty]

theorem callFunction16_settled {w : World} (hopen : w.Open) {func : Octet}
    (hfunc : func = 3 ∨ func = 4) (start : BitVec 16) (qty : Fin 32768) :
    (Readable start qty → Answered w w.slave (.ok (registersFrom
        (if func = 3 then w.slave.holding else w.slave.inputs) start.toNat qty))
      (callFunction16 there back w.slave.id func start (BitVec.ofNat 16 qty) qty w)) ∧
      (¬ Readable start qty →
        Refused w (callFunction16 there back w.slave.id func start (BitVec.ofNat 16 qty) qty w)) := by
  have hserve := serve_read w.slave hfunc start qty
  have hbit : func &&& 0x80 = 0 := by rcases hfunc with rfl | rfl <;> decide
  constructor
  · intro hread
    rw [if_pos hread] at hserve
    generalize hregs : registersFrom (if func = 3 then w.slave.holding else w.slave.inputs)
      start.toNat qty = vals at hserve
    have hlen : vals.length = qty := by
      rw [← hregs, registersFrom, List.length_map, List.length_range]
    have hcall := callFunction_answered there back hopen hbit
      (n := 1 + qty * 2) hserve (by
        rw [List.length_cons, flatMap_pair_length fun _ => rfl, hlen]
        omega)
    rcases hcall with ⟨hval, hopen', hslave⟩ | hlost
    · left
      have hsize : (BitVec.ofNat 8 (2 * qty.1)).toNat = qty.1 * 2 := by
        rw [BitVec.toNat_ofNat]
        have := hread.2.1
        omega
      have hvals : (List.range qty).map (fun i =>
          beWord ((BitVec.ofNat 8 (2 * qty.1) :: vals.flatMap bigEndian).getD (1 + 2 * i) 0)
            ((BitVec.ofNat 8 (2 * qty.1) :: vals.flatMap bigEndian).getD (2 + 2 * i) 0)) = vals := by
        refine List.ext_getElem (by simp [hlen]) fun i _ hi => ?_
        rw [List.getElem_map, List.getElem_range, flatMap_bigEndian_getD vals _ hi]
      rw [callFunction16, bind_of_fst hval]
      simp only [List.getD_cons_zero, hsize, ne_eq, not_true_eq_false, if_false, hvals]
      exact ⟨rfl, hopen', hslave⟩
    · exact .inr hlost.bind
  · intro hread
    rw [if_neg hread] at hserve
    exact (callFunction_refused there back (n := 1 + qty * 2) hopen (by omega) hserve).bind

theorem writeHoldingRegister_answered {w : World} (hopen : w.Open) (reg val : BitVec 16) :
    Answered w { w.slave with holding := overwrite w.slave.holding reg.toNat [val] } (.ok ())
      (writeHoldingRegister there back w.slave.id reg val w) := by
  have hserve : w.slave.serve (w.slave.id :: 6 :: (bigEndian reg ++ bigEndian val)) =
      ({ w.slave with holding := overwrite w.slave.holding reg.toNat [val] },
        some (w.slave.id :: 6 :: (bigEndian reg ++ bigEndian val))) := by
    simp only [bigEndian, List.cons_append, List.nil_append, Slave.serve, beWord_bigEndian, ne_eq,
      not_true_eq_false, if_false, if_true]
  exact (callFunction_answered there back (n := 4) hopen (by decide) hserve rfl).bind_pure

/-- What a device reads out of words in the byte order of the host. -/
theorem flatMap_littleEndian_words (vals : List (BitVec 16)) :
    ((List.range vals.length).map fun i => beWord ((vals.flatMap littleEndian).getD (2 * i) 0)
      ((vals.flatMap littleEndian).getD (2 * i + 1) 0)) = vals.map swapBytes := by
  induction vals with
  | nil => rfl
  | cons x vals ih =>
    rw [List.length_cons, List.range_succ_eq_map, List.map_cons, List.map_map, List.map_cons, ← ih,
      List.flatMap_cons, littleEndian]
    refine congrArg₂ _ rfl (List.map_congr_left fun i _ => ?_)
    simp only [Function.comp_apply, List.cons_append, List.nil_append,
      show 2 * (i + 1) = 2 * i + 1 + 1 by omega, List.getD_cons_succ]

theorem serve_writes (s : Slave) (start : BitVec 16) {vals : List (BitVec 16)}
    (hvals : vals.length < 128) :
    s.serve (s.id :: 0x10 :: (bigEndian start ++ bigEndian (BitVec.ofNat 16 vals.length) ++
        BitVec.ofNat 8 (vals.length * 2) :: vals.flatMap littleEndian)) =
      if Writable start vals.length then
        ({ s with holding := overwrite s.holding start.toNat (vals.map swapBytes) },
          some (s.id :: 0x10 :: (bigEndian start ++ bigEndian (BitVec.ofNat 16 vals.length))))
      else (s, some [s.id, 0x10 ||| 0x80, 3]) := by
  have hqty : (BitVec.ofNat 16 vals.length).toNat = vals.length := by
    rw [BitVec.toNat_ofNat]
    omega
  have hcount : (BitVec.ofNat 8 (vals.length * 2)).toNat = 2 * vals.length := by
    rw [BitVec.toNat_ofNat]
    omega
  have hdata : (vals.flatMap littleEndian).length = 2 * vals.length :=
    flatMap_pair_length (fun _ => rfl) vals
  simp only [bigEndian, List.cons_append, List.nil_append, Slave.serve, beWord_bigEndian, ne_eq,
    not_true_eq_false, if_false, hqty, hcount, hdata, true_and, flatMap_littleEndian_words]

theorem writeHoldingRegisters_settled {w : World} (hopen : w.Open) (start : BitVec 16)
    {vals : List (BitVec 16)} (hvals : vals.length < 128) :
    (Writable start vals.length → Answered w
        { w.slave with holding := overwrite w.slave.holding start.toNat (vals.map swapBytes) } (.ok ())
        (writeHoldingRegisters there back w.slave.id start vals w)) ∧
      (¬ Writable start vals.length →
        Refused w (writeHoldingRegisters there back w.slave.id start vals w)) := by
  have hserve := serve_writes w.slave start hvals
  constructor
  · intro hwrite
    rw [if_pos hwrite] at hserve
    exact (callFunction_answered there back (n := 4) hopen (by decide) hserve rfl).bind_pure
  · intro hwrite
    rw [if_neg hwrite] at hserve
    exact (callFunction_refused there back (n := 4) hopen (by decide) hserve).bind

theorem writeHoldingRegisterMask_answered {w : World} (hopen : w.Open) (reg mask val : BitVec 16) :
    Answered w { w.slave with
        holding := overwrite w.slave.holding reg.toNat [masked (w.slave.holding reg.toNat) mask val] }
      (.ok ()) (writeHoldingRegisterMask there back w.slave.id reg mask val w) := by
  have hread : Readable reg (1 : Fin 32768) :=
    ⟨Nat.le_refl 1, by decide, Nat.succ_le_of_lt reg.isLt⟩
  have hcall : Answered w w.slave (.ok [w.slave.holding reg.toNat])
      (readHoldingRegisters there back w.slave.id reg 1 w) :=
    (callFunction16_settled there back hopen (.inl rfl) reg 1).1 hread
  rcases hcall with ⟨hval, hopen', hslave⟩ | hlost
  · have hwrite := writeHoldingRegister_answered there back hopen' reg
      (masked (w.slave.holding reg.toNat) mask val)
    rw [hslave] at hwrite
    rw [writeHoldingRegisterMask, bind_of_fst hval]
    rcases hwrite with hok | ⟨he, hclosed, hs⟩
    · exact .inl hok
    · exact .inr ⟨he, hclosed, hs.imp (·.trans hslave) id⟩
  · exact .inr (Lost.bind ⟨hlost.1, hlost.2.1, .inl (hlost.2.2.elim id id)⟩)

theorem Settled.of_ite {w : World} {op : Op} {out : Except ModbusError (List (BitVec 16)) × World}
    {c : Prop} [Decidable c] {s : Slave} {vals : List (BitVec 16)}
    (hperform : w.slave.perform op = if c then some (s, vals) else none)
    (hok : c → Answered w s (.ok vals) out) (hbad : ¬ c → Refused w out) : Settled w op out := by
  rw [Settled, hperform]
  by_cases h : c
  · simp only [h, if_true]
    exact hok h
  · simp only [h, if_false]
    exact hbad h

/-- Every call does what it means, is refused by the device, or is lost with the connection. -/
theorem Op.settled {w : World} (hopen : w.Open) (op : Op) :
    Settled w op (op.call there back w.slave.id w) := by
  cases op with
  | readHoldingRegisters start qty =>
    obtain ⟨hok, hbad⟩ := callFunction16_settled there back hopen (.inl rfl)
      start qty
    exact .of_ite rfl hok hbad
  | readInputRegisters start qty =>
    obtain ⟨hok, hbad⟩ := callFunction16_settled there back hopen (.inr rfl)
      start qty
    exact .of_ite rfl hok hbad
  | writeHoldingRegister reg val =>
    exact (writeHoldingRegister_answered there back hopen reg val).bind_pure
  | writeHoldingRegisters start vals =>
    obtain ⟨hok, hbad⟩ := writeHoldingRegisters_settled there back hopen start
      vals.2
    exact .of_ite rfl (fun h => (hok h).bind_pure) fun h => (hbad h).bind
  | writeHoldingRegisterMask reg mask val =>
    exact (writeHoldingRegisterMask_answered there back hopen reg mask val).bind_pure

/-! ## Runs -/

/-- Calls one after another, with their outcomes. -/
def runOps (slaveId : Octet) :
    List Op → World → List (Op × Except ModbusError (List (BitVec 16))) × World
  | [], w => ([], w)
  | op :: ops, w =>
    let out := op.call there back slaveId w
    let rest := runOps slaveId ops out.2
    ((op, out.1) :: rest.1, rest.2)

/-- Outcomes that come from serving the calls once and in order, until one is lost: this one was served
or not, and none behind it was. -/
inductive Explains : Slave → List (Op × Except ModbusError (List (BitVec 16))) → Slave → Prop where
  | nil (s : Slave) : Explains s [] s
  | served {s s' s'' : Slave} {op : Op} {vals : List (BitVec 16)}
      {rest : List (Op × Except ModbusError (List (BitVec 16)))} :
      s.perform op = some (s', vals) → Explains s' rest s'' → Explains s ((op, .ok vals) :: rest) s''
  | refused {s s' : Slave} {op : Op} {e : ModbusError}
      {rest : List (Op × Except ModbusError (List (BitVec 16)))} :
      s.perform op = none → Explains s rest s' → Explains s ((op, .error e) :: rest) s'
  | lost {s s' : Slave} {op : Op} {e : ModbusError}
      {rest : List (Op × Except ModbusError (List (BitVec 16)))} :
      (s' = s ∨ ∃ vals, s.perform op = some (s', vals)) →
      (∀ call ∈ rest, call.2 = .error .noSocket) → Explains s ((op, .error e) :: rest) s'

theorem call_closed {w : World} (hclosed : w.connected = false) (slaveId : Octet) (op : Op) :
    op.call there back slaveId w = (.error .noSocket, w) := by
  have hexchange : ∀ payload n, exchangeData there back payload n w = (.error .noSocket, w) := by
    intro payload n
    simp only [exchangeData, hclosed, Bool.false_eq_true, if_false]
  have hcall : ∀ func data n, callFunction there back slaveId func data n w =
      (.error .noSocket, w) := fun func data n => bind_error (hexchange _ _)
  have hread : ∀ func start p2 qty, callFunction16 there back slaveId func start p2 qty w =
      (.error .noSocket, w) := fun func start p2 qty => bind_error (hcall _ _ _)
  cases op with
  | readHoldingRegisters start qty => exact hread _ _ _ _
  | readInputRegisters start qty => exact hread _ _ _ _
  | writeHoldingRegister reg val => exact bind_error (bind_error (hcall _ _ _))
  | writeHoldingRegisters start vals => exact bind_error (bind_error (hcall _ _ _))
  | writeHoldingRegisterMask reg mask val => exact bind_error (bind_error (hread _ _ _ _))

theorem runOps_closed {w : World} (hclosed : w.connected = false) (slaveId : Octet) (ops : List Op) :
    (∀ call ∈ (runOps there back slaveId ops w).1, call.2 = .error .noSocket) ∧
      (runOps there back slaveId ops w).2 = w := by
  induction ops with
  | nil => exact ⟨(fun call h => by cases h), rfl⟩
  | cons op ops ih =>
    rw [runOps, call_closed there back hclosed]
    refine ⟨fun call h => ?_, ih.2⟩
    rcases List.mem_cons.mp h with rfl | h
    · rfl
    · exact ih.1 call h

theorem Slave.perform_id {s s' : Slave} {op : Op} {vals : List (BitVec 16)}
    (h : s.perform op = some (s', vals)) : s'.id = s.id := by
  cases op <;> simp only [Slave.perform, Option.ite_none_right_eq_some, Option.some.injEq,
    Prod.mk.injEq] at h
  · rw [h.2.1]
  · rw [h.2.1]
  · rw [← h.1]
  · rw [← h.2.1]
  · rw [← h.1]

end Client

/-- A way on which nothing happens. -/
def faultless : Channel := ⟨some, fun _ => .inr (.inl rfl)⟩

/-- A device with nothing in its registers, and a connection to it. -/
def freshWorld : World := ⟨true, [], ⟨1, fun _ => 0, fun _ => 0⟩, 0⟩

end Rts2.Modbus

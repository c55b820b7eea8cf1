import Rts2.Connection.Params
import Rts2.Lib.Stuffing

/-! # Messages of TGDrive motors

A message is a start byte, its bytes and a checksum; a start byte that stands in the
message or is its checksum is written twice. `TGDrive` writes messages in two forms,
and reads replies of a known length: it reads as many bytes as the reply has, takes the
doubled start bytes out, reads what is missing, and so on. -/
namespace Rts2.Connection
open Rts2.Lib

/-- `MSG_START`. -/
def msgStart : Byte := 0x2B

/-- `STAT_OK`. -/
def statOk : Byte := 0x00

/-! ## What a frame is -/

/-- The sum of bytes, as an `unsigned char`. -/
def byteSum : List Byte → Byte
  | [] => 0
  | b :: bs => b + byteSum bs

/-- The checksum of the bytes of a message. -/
def msgChecksum (body : List Byte) : Byte := 0 - byteSum body

/-- The frame of a message, its checksum last. -/
def msgFrame (body : List Byte) : List Byte := msgStart :: stuff msgStart body

/-- The frame of a message without its checksum. -/
def sendFrame (body : List Byte) : List Byte := msgFrame (body ++ [msgChecksum body])

/-! ## Writing -/

/-- One turn of the loop of `writeMsg` over the two bytes of the address; the message and
the place the loop is at. -/
def escapeAddress (i : Nat) (p : List Byte × Nat) : List Byte × Nat :=
  if p.1.getD p.2 0 = msgStart then
    let msg := if i = 0 then p.1.set 4 (p.1.getD 3 0) else p.1
    (msg.set (p.2 + 1) msgStart, p.2 + 2)
  else (p.1, p.2 + 1)

/-- `TGDrive::writeMsg` without data: what is written to the port. -/
def writeMsg (op : Byte) (address : UInt16) : List Byte :=
  let lo := address.toUInt8
  let hi := (address >>> 8).toUInt8
  let cs := 0 - (op + lo + hi)
  let (msg, len) := escapeAddress 1 (escapeAddress 0 ([msgStart, op, lo, hi, 0, 0, 0], 2))
  (msg.set len cs).take (len + 1)

/-- The loop of `ecWrite` over the message: what it puts to `ec_buf`, and its sum. -/
def ecEscape : List Byte → List Byte × Byte → List Byte × Byte
  | [], p => p
  | b :: bs, (ec_buf, cs) =>
    ecEscape bs (if b = msgStart then ec_buf ++ [b, msgStart] else ec_buf ++ [b], cs + b)

/-- `TGDrive::ecWrite`: what is written to the port. The length in the message is a
`char`; `ec_buf` has twice that many bytes and five, which is too few for what is put to
it when the length is negative. -/
def ecWrite (msg : List Byte) : Option (List Byte) :=
  let length := (msg.getD 2 0).toInt8.toInt
  if length < 0 then none
  else
    let (ec_buf, cs) := ecEscape ((msg.drop 3).take length.toNat)
      (msg.take 3, msg.getD 1 0 + msg.getD 2 0)
    let cs := 0 - cs
    some (if cs = msgStart then ec_buf ++ [cs, msgStart] else ec_buf ++ [cs])

/-- The message of `TGDrive::writeMsg` with data. -/
def dataMsg (op : Byte) (address : UInt16) (data : List Byte) : List Byte :=
  [op, UInt8.ofNat (3 + data.length), UInt8.ofNat data.length, address.toUInt8,
    (address >>> 8).toUInt8] ++ data

/-- `TGDrive::writeMsg` with data. -/
def writeMsgData (op : Byte) (address : UInt16) (data : List Byte) : Option (List Byte) :=
  ecWrite (msgStart :: dataMsg op address data)

/-! ### What is written -/

/-- The address is escaped, the operation and the checksum are not. -/
theorem writeMsg_eq (op : Byte) (address : UInt16) :
    writeMsg op address =
      msgStart :: ([op] ++ stuff msgStart [address.toUInt8, (address >>> 8).toUInt8] ++
        [msgChecksum [op, address.toUInt8, (address >>> 8).toUInt8]]) := by
  unfold writeMsg msgChecksum
  dsimp only
  generalize address.toUInt8 = lo
  generalize (address >>> 8).toUInt8 = hi
  have hsum : byteSum [op, lo, hi] = op + lo + hi := by
    simp only [byteSum, UInt8.add_zero]
    exact (UInt8.add_assoc op lo hi).symm
  rw [hsum]
  by_cases hlo : lo = msgStart
  · by_cases hhi : hi = msgStart
    · simp [escapeAddress, stuff, hlo, hhi]
    · simp [escapeAddress, stuff, hlo, hhi]
  · by_cases hhi : hi = msgStart
    · simp [escapeAddress, stuff, hlo, hhi]
    · simp [escapeAddress, stuff, hlo, hhi]

/-- The short form writes the frame of its message when neither the operation nor the
checksum is a start byte. -/
theorem writeMsg_iff (op : Byte) (address : UInt16) :
    writeMsg op address = sendFrame [op, address.toUInt8, (address >>> 8).toUInt8] ↔
      op ≠ msgStart ∧
        msgChecksum [op, address.toUInt8, (address >>> 8).toUInt8] ≠ msgStart := by
  rw [writeMsg_eq, sendFrame, msgFrame, List.cons_inj_right]
  have hmid := stuff_middle msgStart [op] [address.toUInt8, (address >>> 8).toUInt8]
    [msgChecksum [op, address.toUInt8, (address >>> 8).toUInt8]]
  rw [List.mem_singleton, List.mem_singleton] at hmid
  rw [ne_comm, ne_comm (b := msgStart)]
  exact hmid

theorem ecEscape_eq (bs ec_buf : List Byte) (cs : Byte) :
    ecEscape bs (ec_buf, cs) = (ec_buf ++ stuff msgStart bs, cs + byteSum bs) := by
  induction bs generalizing ec_buf cs with
  | nil => simp [ecEscape, byteSum]
  | cons b bs ih =>
    rw [ecEscape, ih, byteSum, ← UInt8.add_assoc]
    by_cases h : b = msgStart
    · subst h
      rw [if_pos rfl, stuff_flag]
      simp
    · rw [if_neg h, stuff_other h]
      simp

/-- The length byte of a message of the long form, as the `char` it is. -/
theorem lengthByte_toInt (n : Nat) :
    (UInt8.ofNat (3 + n)).toInt8.toInt = ((3 + n : Nat) : Int).bmod (2 ^ 8) :=
  BitVec.toInt_ofNat ..

/-- As long as the length fits in a `char`, the operation and the length are not escaped
and the rest is. -/
theorem writeMsgData_eq (op : Byte) (address : UInt16) {data : List Byte}
    (hfits : data.length < 125) :
    writeMsgData op address data =
      some (msgStart :: ([op, UInt8.ofNat (3 + data.length)] ++
        stuff msgStart ((dataMsg op address data).drop 2 ++
          [msgChecksum (dataMsg op address data)]) ++ [])) := by
  have hlength : (UInt8.ofNat (3 + data.length)).toInt8.toInt = 3 + data.length := by
    rw [lengthByte_toInt, Int.bmod_eq_of_le (by omega) (by omega)]
    omega
  have hwhole : ((dataMsg op address data).drop 2).length = 3 + data.length := by
    simp only [dataMsg, List.cons_append, List.nil_append, List.drop_succ_cons, List.drop_zero,
      List.length_cons]
    omega
  have htake : ((dataMsg op address data).drop 2).take (3 + data.length : Int).toNat =
      (dataMsg op address data).drop 2 := List.take_of_length_le (by omega)
  have hsum : op + UInt8.ofNat (3 + data.length) + byteSum ((dataMsg op address data).drop 2) =
      byteSum (dataMsg op address data) := UInt8.add_assoc ..
  have hdrop : (msgStart :: dataMsg op address data).drop 3 =
      (dataMsg op address data).drop 2 := rfl
  have hhead : (msgStart :: dataMsg op address data).take 3 =
      [msgStart, op, UInt8.ofNat (3 + data.length)] := rfl
  have hbyte : (msgStart :: dataMsg op address data).getD 2 0 =
      UInt8.ofNat (3 + data.length) := rfl
  have hop : (msgStart :: dataMsg op address data).getD 1 0 = op := rfl
  unfold writeMsgData ecWrite
  dsimp only
  rw [hbyte, hlength, if_neg (by omega), hdrop, hhead, htake, ecEscape_eq, hop]
  dsimp only
  rw [hsum, stuff_append]
  unfold msgChecksum
  generalize (0 : Byte) - byteSum (dataMsg op address data) = cs
  by_cases hcs : cs = msgStart
  · subst hcs
    simp [stuff]
  · simp [stuff, hcs]

/-- A length that does not fit sends less than the message, or overruns `ec_buf`. -/
theorem writeMsgData_long (op : Byte) (address : UInt16) {data : List Byte}
    (hlong : 125 ≤ data.length) :
    writeMsgData op address data ≠ some (sendFrame (dataMsg op address data)) := by
  have hbmod := lengthByte_toInt data.length
  have hbyte : (msgStart :: dataMsg op address data).getD 2 0 =
      UInt8.ofNat (3 + data.length) := rfl
  unfold writeMsgData ecWrite
  dsimp only
  rw [hbyte, ecEscape_eq]
  generalize (UInt8.ofNat (3 + data.length)).toInt8.toInt = length at hbmod
  split
  · intro h
    cases h
  · rename_i hpos
    -- the length wrapped around, so that it is at most 127 and the payload longer than 252
    rw [Int.bmod_def] at hbmod
    have hwrapped : length < 128 ∧ 253 ≤ data.length := by
      split at hbmod
      · omega
      · omega
    intro h
    have hlen := congrArg List.length (Option.some.inj h)
    have hsend : data.length + 7 ≤ (sendFrame (dataMsg op address data)).length := by
      have hle := length_le_stuff msgStart
        (dataMsg op address data ++ [msgChecksum (dataMsg op address data)])
      have hbody : (dataMsg op address data).length = data.length + 5 := by
        simp [dataMsg]
      rw [List.length_append, hbody, List.length_singleton] at hle
      exact Nat.succ_le_succ hle
    have hstuff := length_stuff_le msgStart
      (((msgStart :: dataMsg op address data).drop 3).take length.toNat)
    have htake := List.length_take_le length.toNat ((msgStart :: dataMsg op address data).drop 3)
    have hhead := List.length_take_le 3 (msgStart :: dataMsg op address data)
    split at hlen
    · simp only [List.length_append, List.length_cons, List.length_nil] at hlen
      omega
    · simp only [List.length_append, List.length_cons, List.length_nil] at hlen
      omega

/-- The long form writes the frame of its message when the length fits in a `char`, and
neither the operation nor the length is a start byte. -/
theorem writeMsgData_iff (op : Byte) (address : UInt16) (data : List Byte) :
    writeMsgData op address data = some (sendFrame (dataMsg op address data)) ↔
      op ≠ msgStart ∧ data.length ≠ 40 ∧ data.length < 125 := by
  by_cases hfits : data.length < 125
  · have hlength : UInt8.ofNat (3 + data.length) = msgStart ↔ data.length = 40 := by
      have hsmall : 3 + data.length < UInt8.size := by
        have hsize : UInt8.size = 256 := rfl
        omega
      have hstart : msgStart.toNat = 43 := rfl
      rw [← UInt8.toNat_inj, UInt8.toNat_ofNat_of_lt' hsmall, hstart]
      omega
    have hbody : dataMsg op address data ++ [msgChecksum (dataMsg op address data)] =
        [op, UInt8.ofNat (3 + data.length)] ++ ((dataMsg op address data).drop 2 ++
          [msgChecksum (dataMsg op address data)]) ++ [] := by
      rw [List.append_nil]
      rfl
    have hmid := stuff_middle msgStart [op, UInt8.ofNat (3 + data.length)]
      ((dataMsg op address data).drop 2 ++ [msgChecksum (dataMsg op address data)]) []
    rw [writeMsgData_eq op address hfits, Option.some.injEq, sendFrame, msgFrame,
      List.cons_inj_right, hbody, hmid]
    simp only [List.mem_cons, List.not_mem_nil, or_false, not_or, not_false_eq_true, and_true]
    rw [eq_comm, eq_comm (b := UInt8.ofNat (3 + data.length)), hlength]
    exact ⟨fun h => ⟨h.1, h.2, hfits⟩, fun h => ⟨h.1, h.2.1⟩⟩
  · refine ⟨fun h => absurd h (writeMsgData_long op address (by omega)), ?_⟩
    intro h
    exact absurd h.2.2 hfits

/-! ## Reading -/

/-- The variables of `ecRead`. `input` is what the port has to give, `top` the end of the
highest write to `msg`. -/
structure Unescape where
  msg : List Byte
  input : List Byte
  top : Nat
  clen : Nat
  checked_end : Nat
  escaped : Nat
  deriving DecidableEq

/-- `readPort (msg + i, n)`, which gives all the bytes or fails. -/
def Unescape.readPort (r : Unescape) (i n : Nat) : Option Unescape :=
  if r.input.length < n then none
  else
    some { r with
      msg := r.msg.take i ++ r.input.take n ++ r.msg.drop (i + n)
      input := r.input.drop n
      top := max r.top (i + n) }

/-- What a round reads, with the second byte of a start byte it ends in. That one is not
counted. -/
def Unescape.readRest (r : Unescape) : Option Unescape :=
  if r.escaped = 0 then some r
  else
    (r.readPort r.clen r.escaped).bind fun r' =>
      let last := r.clen + r.escaped
      let r' := { r' with clen := last, escaped := 0 }
      if 1 < r.escaped ∧ r'.msg.getD (last - 1) 0 = msgStart ∧
          r'.msg.getD (last - 2) 0 ≠ msgStart then
        r'.readPort last 1
      else some r'

/-- `memmove` over one of two start bytes; `checked_end` is at the first. -/
def Unescape.unescape (len : Nat) (r : Unescape) : Unescape :=
  let i := r.checked_end
  { r with
    msg := r.msg.take i ++ (r.msg.drop (i + 1)).take (r.clen - (i + 1)) ++ r.msg.drop (r.clen - 1)
    clen := r.clen - 1
    checked_end := i + 1
    escaped := if i < len - 1 then r.escaped + 1 else r.escaped }

/-- The loop over the bytes read, of at most so many turns. -/
def Unescape.scan (len : Nat) : Nat → Unescape → Unescape
  | 0, r => r
  | fuel + 1, r =>
    if r.checked_end < r.clen then
      if r.msg.getD r.checked_end 0 = msgStart then
        -- the second byte is not read yet
        if r.checked_end = r.clen - 1 then { r with escaped := r.escaped + 1 }
        else if r.msg.getD (r.checked_end + 1) 0 = msgStart then
          Unescape.scan len fuel (r.unescape len)
        -- a start byte that is not doubled is only logged
        else Unescape.scan len fuel { r with checked_end := r.checked_end + 2 }
      else Unescape.scan len fuel { r with checked_end := r.checked_end + 1 }
    else r

/-- The loop over the rounds. Every round but the first reads a byte. -/
def Unescape.rounds (len : Nat) : Nat → Unescape → Option Unescape
  | 0, _ => none
  | fuel + 1, r =>
    r.readRest.bind fun r =>
      let r := Unescape.scan len r.clen r
      if 0 < r.escaped then Unescape.rounds len fuel r else some r

/-- How `ecRead` ends when it could read: it returns, or throws a `TGDriveError`. -/
inductive EcEnd where
  | returned
  | driveError (status : Byte)
  deriving DecidableEq

/-- `TGDrive::ecRead`; without a result it cannot read from the port. -/
def ecRead (msg input : List Byte) (len : Nat) : Option (Unescape × EcEnd) :=
  (Unescape.readPort ⟨msg, input, 0, len, 1, 0⟩ 0 len).bind fun r =>
    (r.rounds len (r.input.length + 1)).map fun r =>
      let cs := 0 - byteSum ((r.msg.take (len - 1)).drop 1)
      if r.msg.getD (len - 1) 0 ≠ cs then (r, .driveError 2)
      else if r.msg.getD 1 0 ≠ statOk then (r, .driveError (r.msg.getD 1 0))
      else (r, .returned)

/-! ### Rounds that end between characters -/

/-- What is still missing of a reply can be read in rounds that each ask for as many
bytes as there are characters missing, and end with a whole character. A round of one byte
may also end within the escape of a checksum. -/
inductive ReadRounds : List Byte → Prop where
  | done : ReadRounds []
  | checksum : ReadRounds [msgStart]
  | round (u v : List Byte) (hne : u ≠ [])
      (hlen : (stuff msgStart u).length = (u ++ v).length) (hrest : ReadRounds v) :
      ReadRounds (u ++ v)

/-- The reply can be read so. The first round may end within the escape of the checksum,
if that is the only one. -/
def ReadsWell (body : List Byte) : Prop :=
  ReadRounds body ∨ ∃ u, msgStart ∉ u ∧ body = u ++ [msgStart]

namespace Unescape

variable {r : Unescape} {len : Nat} {done more : List Byte}

theorem getD_here (done rest : List Byte) (b : Byte) :
    (done ++ b :: rest).getD done.length 0 = b := by
  simp [List.getD_eq_getElem?_getD]

theorem getD_next (done rest : List Byte) (a b : Byte) :
    (done ++ a :: b :: rest).getD (done.length + 1) 0 = b := by
  simp [List.getD_eq_getElem?_getD]

/-- `memmove` takes one of two start bytes out. -/
theorem unescape_msg (len : Nat) {text tail rest : List Byte}
    (hmsg : r.msg = done ++ msgStart :: msgStart :: (text ++ tail ++ rest))
    (hend : r.checked_end = done.length)
    (hclen : r.clen = done.length + 2 + text.length + tail.length) :
    ∃ rest', (r.unescape len).msg = (done ++ [msgStart]) ++ text ++ tail ++ rest' := by
  refine ⟨r.msg.drop (r.clen - 1), ?_⟩
  have htake : r.msg.take r.checked_end = done := by
    rw [hmsg, hend]
    exact List.take_left
  have hdrop : r.msg.drop (r.checked_end + 1) = (msgStart :: (text ++ tail)) ++ rest := by
    have hsplit : r.msg = (done ++ [msgStart]) ++ ((msgStart :: (text ++ tail)) ++ rest) := by
      rw [hmsg]
      simp
    rw [hsplit, hend]
    exact List.drop_left' (by simp)
  have hmoved : (r.msg.drop (r.checked_end + 1)).take (r.clen - (r.checked_end + 1)) =
      msgStart :: (text ++ tail) := by
    rw [hdrop]
    refine List.take_left' ?_
    rw [List.length_cons, List.length_append, hclen, hend]
    omega
  have hall : (r.unescape len).msg =
      r.msg.take r.checked_end ++
        (r.msg.drop (r.checked_end + 1)).take (r.clen - (r.checked_end + 1)) ++
          r.msg.drop (r.clen - 1) := rfl
  rw [hall, htake, hmoved]
  simp

/-- The turn at a start byte that is doubled. -/
theorem scan_pair (len fuel : Nat) {rest : List Byte}
    (hmsg : r.msg = done ++ msgStart :: msgStart :: rest) (hend : r.checked_end = done.length)
    (hclen : done.length + 2 ≤ r.clen) :
    Unescape.scan len (fuel + 1) r = Unescape.scan len fuel (r.unescape len) := by
  have hhere : r.msg.getD r.checked_end 0 = msgStart := by
    rw [hmsg, hend]
    exact getD_here _ _ _
  have hnext : r.msg.getD (r.checked_end + 1) 0 = msgStart := by
    rw [hmsg, hend]
    exact getD_next _ _ _ _
  rw [Unescape.scan, if_pos (by omega), if_pos hhere, if_neg (by omega), if_pos hnext]

/-- The turn at another byte. -/
theorem scan_plain (len fuel : Nat) {rest : List Byte} {b : Byte} (hb : b ≠ msgStart)
    (hmsg : r.msg = done ++ b :: rest) (hend : r.checked_end = done.length)
    (hclen : done.length < r.clen) :
    Unescape.scan len (fuel + 1) r =
      Unescape.scan len fuel { r with checked_end := r.checked_end + 1 } := by
  have hhere : r.msg.getD r.checked_end 0 ≠ msgStart := by
    rw [hmsg, hend, getD_here]
    exact hb
  rw [Unescape.scan, if_pos (by omega), if_neg hhere]

/-- The scan takes the escapes out of a whole part, and counts them. -/
theorem scan_stuff (len : Nat) (u : List Byte) {tail rest : List Byte} (fuel : Nat)
    (hmsg : r.msg = done ++ stuff msgStart u ++ tail ++ rest)
    (hend : r.checked_end = done.length)
    (hclen : r.clen = done.length + (stuff msgStart u).length + tail.length)
    (hinside : msgStart ∈ u → done.length + u.length ≤ len - 1) :
    ∃ rest', Unescape.scan len (u.length + fuel) r =
      Unescape.scan len fuel
        { r with
          msg := done ++ u ++ tail ++ rest'
          clen := done.length + u.length + tail.length
          checked_end := done.length + u.length
          escaped := r.escaped + u.count msgStart } := by
  induction u generalizing r done rest with
  | nil =>
    refine ⟨rest, ?_⟩
    rw [stuff_nil] at hmsg hclen
    rw [List.length_nil, Nat.zero_add, List.count_nil, Nat.add_zero, Nat.add_zero]
    rw [← hmsg, ← hend]
    rw [List.length_nil, Nat.add_zero, ← hend] at hclen
    rw [← hclen]
  | cons b u ih =>
    have hfuel : (b :: u).length + fuel = u.length + fuel + 1 := by
      rw [List.length_cons]
      omega
    have hcl : (done ++ [b]).length + u.length = done.length + (b :: u).length := by
      rw [List.length_append, List.length_singleton, List.length_cons]
      omega
    rw [hfuel]
    by_cases hb : b = msgStart
    · subst hb
      rw [stuff_flag] at hmsg hclen
      have hmsg' : r.msg = done ++ msgStart :: msgStart :: (stuff msgStart u ++ tail ++ rest) := by
        rw [hmsg]
        simp
      have hclen' : r.clen = done.length + 2 + (stuff msgStart u).length + tail.length := by
        rw [hclen, List.length_cons, List.length_cons]
        omega
      have hidx : done.length + (msgStart :: u).length ≤ len - 1 :=
        hinside (List.mem_cons_self ..)
      have hlow : r.checked_end < len - 1 := by
        rw [List.length_cons] at hidx
        omega
      have hturn := scan_pair len (u.length + fuel) hmsg' hend (by omega)
      obtain ⟨rest1, hmsg1⟩ := unescape_msg len hmsg' hend hclen'
      have hend1 : (r.unescape len).checked_end = (done ++ [msgStart]).length := by
        rw [List.length_append, List.length_singleton, ← hend]
        rfl
      have hclen1 : (r.unescape len).clen =
          (done ++ [msgStart]).length + (stuff msgStart u).length + tail.length := by
        have hless : (r.unescape len).clen = r.clen - 1 := rfl
        rw [hless, hclen', List.length_append, List.length_singleton]
        omega
      obtain ⟨rest', hrest⟩ := ih hmsg1 hend1 hclen1 (fun _ => by rw [hcl]; exact hidx)
      have hesc : (r.unescape len).escaped + u.count msgStart =
          r.escaped + (msgStart :: u).count msgStart := by
        have hone : (r.unescape len).escaped = r.escaped + 1 := if_pos hlow
        rw [hone, List.count_cons_self]
        omega
      refine ⟨rest', ?_⟩
      rw [hturn, hrest, hcl, hesc, List.append_assoc done [msgStart] u]
      rfl
    · rw [stuff_other hb] at hmsg hclen
      have hmsg' : r.msg = done ++ b :: (stuff msgStart u ++ tail ++ rest) := by
        rw [hmsg]
        simp
      have hlt : r.checked_end < r.clen := by
        rw [hclen, List.length_cons, hend]
        omega
      have hturn := scan_plain len (u.length + fuel) hb hmsg' hend (by omega)
      have hmsg1 : r.msg = (done ++ [b]) ++ stuff msgStart u ++ tail ++ rest := by
        rw [hmsg']
        simp
      have hend1 : r.checked_end + 1 = (done ++ [b]).length := by
        rw [List.length_append, List.length_singleton, ← hend]
      have hclen1 : r.clen =
          (done ++ [b]).length + (stuff msgStart u).length + tail.length := by
        rw [hclen, List.length_append, List.length_singleton, List.length_cons]
        omega
      obtain ⟨rest', hrest⟩ := ih (r := { r with checked_end := r.checked_end + 1 }) hmsg1 hend1
        hclen1 (fun hm => by rw [hcl]; exact hinside (List.mem_cons_of_mem b hm))
      refine ⟨rest', ?_⟩
      rw [hturn, hrest, hcl, List.count_cons_of_ne hb, List.append_assoc done [b] u]
      rfl

theorem scan_stop (fuel : Nat) (h : r.checked_end = r.clen) :
    Unescape.scan len fuel r = r := by
  cases fuel with
  | zero => rfl
  | succ fuel => rw [Unescape.scan, if_neg (by omega)]

/-- A start byte that was read last waits for its second. -/
theorem scan_cut (len : Nat) {done rest : List Byte} (fuel : Nat) (hmsg : r.msg = done ++ msgStart :: rest)
    (hend : r.checked_end = done.length) (hclen : r.clen = done.length + 1) :
    Unescape.scan len (fuel + 1) r = { r with escaped := r.escaped + 1 } := by
  have hhere : r.msg.getD r.checked_end 0 = msgStart := by
    rw [hmsg, hend]
    exact getD_here _ _ _
  rw [Unescape.scan, if_pos (by omega), if_pos hhere, if_pos (by omega)]

/-- What `readPort` puts behind what was read. -/
theorem readPort_eq (bytes : List Byte) {rest : List Byte} (hmsg : r.msg = done ++ rest)
    (hinput : r.input = bytes ++ more) :
    ∃ rest', r.readPort done.length bytes.length =
      some { r with
        msg := done ++ bytes ++ rest'
        input := more
        top := max r.top (done.length + bytes.length) } := by
  refine ⟨r.msg.drop (done.length + bytes.length), ?_⟩
  have henough : ¬ r.input.length < bytes.length := by
    rw [hinput, List.length_append]
    omega
  have htake : r.msg.take done.length = done := by
    rw [hmsg]
    exact List.take_left
  have hbytes : r.input.take bytes.length = bytes := by
    rw [hinput]
    exact List.take_left
  have hmore : r.input.drop bytes.length = more := by
    rw [hinput]
    exact List.drop_left
  rw [Unescape.readPort, if_neg henough, htake, hbytes, hmore]

/-- A round that reads whole characters does not read the byte that is not counted. -/
theorem not_cut {u rest : List Byte} {last : Nat}
    (hlast : last = done.length + (stuff msgStart u).length)
    (hlong : 1 < (stuff msgStart u).length) :
    ¬ ((done ++ stuff msgStart u ++ rest).getD (last - 1) 0 = msgStart ∧
      (done ++ stuff msgStart u ++ rest).getD (last - 2) 0 ≠ msgStart) := by
  obtain ⟨init, x, y, hsplit⟩ : ∃ init x y, stuff msgStart u = init ++ [x, y] := by
    rcases List.eq_nil_or_concat (stuff msgStart u) with hnil | ⟨front, y, hy⟩
    · rw [hnil] at hlong
      exact absurd hlong (by decide)
    · rcases List.eq_nil_or_concat front with rfl | ⟨init, x, rfl⟩
      · rw [hy] at hlong
        exact absurd hlong (by simp)
      · exact ⟨init, x, y, by rw [hy]; simp⟩
  have htext : done ++ stuff msgStart u ++ rest = (done ++ init) ++ x :: y :: rest := by
    rw [hsplit]
    simp
  have hfirst : last - 1 = (done ++ init).length + 1 := by
    rw [hlast, hsplit, List.length_append, List.length_append]
    simp only [List.length_cons, List.length_nil]
    omega
  have hsecond : last - 2 = (done ++ init).length := by omega
  rw [htext, hfirst, hsecond, getD_here, getD_next]
  rintro ⟨rfl, hx⟩
  exact hx (stuff_ends hsplit)

/-- A round that reads the characters `u`. -/
theorem readRest_eq {u rest : List Byte} (hmsg : r.msg = done ++ rest)
    (hclen : r.clen = done.length) (hesc : r.escaped = (stuff msgStart u).length)
    (hpos : 0 < r.escaped) (hinput : r.input = stuff msgStart u ++ more) :
    ∃ rest', r.readRest =
      some { r with
        msg := done ++ stuff msgStart u ++ rest'
        input := more
        top := max r.top (done.length + r.escaped)
        clen := done.length + r.escaped
        escaped := 0 } := by
  obtain ⟨rest', hread⟩ := readPort_eq _ hmsg hinput
  refine ⟨rest', ?_⟩
  rw [Unescape.readRest, if_neg (by omega), hclen, hesc, hread, Option.bind_some]
  dsimp only
  rw [if_neg]
  intro hextra
  exact not_cut rfl hextra.1 hextra.2

/-- What the rounds leave: the text in the buffer, and the rest of the input. -/
def Reads (len : Nat) (text more : List Byte) (r : Unescape) : Prop :=
  (∃ rest, r.msg = text ++ rest) ∧ r.input = more ∧ r.top ≤ len + 1

/-- The second byte of a checksum that is a start byte, read in a round of its own. -/
theorem rounds_cut (rest : List Byte) (fuel : Nat) (hmsg : r.msg = done ++ msgStart :: rest)
    (hend : r.checked_end = done.length) (hclen : r.clen = done.length + 1)
    (hlen : len = done.length + 1) (hesc : r.escaped = 1)
    (hinput : r.input = msgStart :: more) (htop : r.top ≤ len + 1) :
    ∃ r', r.rounds len (fuel + 1) = some r' ∧ Reads len (done ++ [msgStart]) more r' := by
  have hmsg' : r.msg = (done ++ [msgStart]) ++ rest := by
    rw [hmsg]
    simp
  have hplace : (done ++ [msgStart]).length = done.length + 1 := by simp
  obtain ⟨rest1, hread⟩ := readPort_eq [msgStart] hmsg' hinput
  rw [hplace, List.length_singleton] at hread
  -- both bytes of the checksum are there now
  obtain ⟨r1, hr1⟩ : ∃ r1 : Unescape, r1 =
      { r with
        msg := (done ++ [msgStart]) ++ [msgStart] ++ rest1
        input := more
        top := max r.top (done.length + 1 + 1)
        clen := done.length + 1 + 1
        escaped := 0 } := ⟨_, rfl⟩
  have hrest : r.readRest = some r1 := by
    rw [Unescape.readRest, if_neg (by omega), hesc, hclen, hread, Option.bind_some, hr1]
    rfl
  have hmsg1 : r1.msg = done ++ msgStart :: msgStart :: ([] ++ [] ++ rest1) := by
    rw [hr1]
    simp
  have hend1 : r1.checked_end = done.length := by rw [hr1, ← hend]
  have hclen1 : r1.clen = done.length + 2 := by rw [hr1]
  obtain ⟨rest2, hmsg2⟩ := unescape_msg len hmsg1 hend1 hclen1
  have hturn : Unescape.scan len r1.clen r1 = r1.unescape len := by
    rw [hclen1, scan_pair len _ hmsg1 hend1 (by omega), scan_stop]
    have hce : (r1.unescape len).checked_end = r1.checked_end + 1 := rfl
    have hcl : (r1.unescape len).clen = r1.clen - 1 := rfl
    omega
  have hescaped : (r1.unescape len).escaped = 0 := by
    have hnot : ¬ r1.checked_end < len - 1 := by omega
    have hsame : (r1.unescape len).escaped = r1.escaped := if_neg hnot
    rw [hsame, hr1]
  refine ⟨r1.unescape len, ?_, ⟨rest2, ?_⟩, ?_, ?_⟩
  · rw [Unescape.rounds, hrest, Option.bind_some]
    dsimp only
    rw [hturn, if_neg (by omega)]
  · rw [hmsg2]
    simp
  · have hsame : (r1.unescape len).input = r1.input := rfl
    rw [hsame, hr1]
  · have hsame : (r1.unescape len).top = r1.top := rfl
    rw [hsame, hr1]
    exact max_le htop (by omega)

/-- A round is about to begin: so many characters are missing, and nothing is cut. -/
structure Waits (len : Nat) (done w more : List Byte) (r : Unescape) : Prop where
  msg : ∃ rest, r.msg = done ++ rest
  checked_end : r.checked_end = done.length
  clen : r.clen = done.length
  escaped : r.escaped = w.length
  input : r.input = stuff msgStart w ++ more
  total : len = done.length + w.length
  top : r.top ≤ len + 1

/-- The characters `u` have been read in a round, `v` is still missing. -/
structure HasRead (len : Nat) (done u v more : List Byte) (r : Unescape) : Prop where
  msg : ∃ rest, r.msg = done ++ stuff msgStart u ++ rest
  checked_end : r.checked_end = done.length
  clen : r.clen = done.length + (stuff msgStart u).length
  escaped : r.escaped = 0
  input : r.input = stuff msgStart v ++ more
  full : r.clen = len
  total : len = done.length + u.length + v.length
  top : r.top ≤ len + 1

/-- The scan of what a round read. -/
theorem HasRead.scan {u v : List Byte} (h : HasRead len done u v more r) :
    Waits len (done ++ u) v more (Unescape.scan len r.clen r) := by
  obtain ⟨rest, hmsg⟩ := h.msg
  have hcount := length_stuff msgStart u
  have hclen := h.clen
  have hfull := h.full
  have hlen := h.total
  have hfuel : r.clen = u.length + (r.clen - u.length) := by omega
  have hmsg' : r.msg = done ++ stuff msgStart u ++ [] ++ rest := by rw [hmsg]; simp
  -- every start byte among `u` stands for one of the characters missing
  have hinside : msgStart ∈ u → done.length + u.length ≤ len - 1 := by
    intro hm
    have hpos := List.count_pos_iff.mpr hm
    omega
  obtain ⟨rest', hscan⟩ := scan_stuff len u (r.clen - u.length) hmsg' h.checked_end
    (by rw [List.length_nil, Nat.add_zero]; exact hclen) hinside
  rw [hfuel, hscan, scan_stop _ (by simp)]
  refine ⟨⟨rest', ?_⟩, ?_, ?_, ?_, h.input, ?_, h.top⟩
  · simp
  · simp
  · simp
  · have hmissing : 0 + u.count msgStart = v.length := by omega
    rw [h.escaped]
    exact hmissing
  · rw [List.length_append]
    exact hlen

/-- A round that reads whole characters, and the rounds after it. -/
theorem HasRead.rounds (fuel : Nat) {r₀ : Unescape} {u v : List Byte}
    (h : HasRead len done u v more r) (hread : r₀.readRest = some r)
    (hrest : ∀ r₁, Waits len (done ++ u) v more r₁ → v ≠ [] →
      ∃ r', r₁.rounds len fuel = some r' ∧ Reads len (done ++ u ++ v) more r') :
    ∃ r', r₀.rounds len (fuel + 1) = some r' ∧ Reads len (done ++ u ++ v) more r' := by
  have hwaits := h.scan
  rw [Unescape.rounds, hread, Option.bind_some]
  dsimp only
  generalize Unescape.scan len r.clen r = r₁ at hwaits
  cases v with
  | nil =>
    have hesc : r₁.escaped = 0 := hwaits.escaped
    refine ⟨r₁, if_neg (by omega), ?_, hwaits.input, hwaits.top⟩
    obtain ⟨rest, hmsg⟩ := hwaits.msg
    exact ⟨rest, by rw [hmsg, List.append_nil]⟩
  | cons b v =>
    have hesc : r₁.escaped = v.length + 1 := hwaits.escaped
    rw [if_pos (by omega)]
    exact hrest r₁ hwaits (List.cons_ne_nil b v)

/-- A round that ends within the escape of the checksum, which is the only one in it. -/
theorem rounds_checksum (len : Nat) (done u rest : List Byte) (fuel : Nat) {r₀ : Unescape}
    (hplain : msgStart ∉ u) (hread : r₀.readRest = some r)
    (hmsg : r.msg = done ++ u ++ [msgStart] ++ rest) (hend : r.checked_end = done.length)
    (hclen : r.clen = done.length + u.length + 1) (hlen : len = r.clen)
    (hesc : r.escaped = 0) (hinput : r.input = msgStart :: more) (htop : r.top ≤ len + 1) :
    ∃ r', r₀.rounds len (fuel + 1 + 1) = some r' ∧
      Reads len (done ++ u ++ [msgStart]) more r' := by
  have hstuff := stuff_plain hplain
  have hfuel : r.clen = u.length + (done.length + 1) := by omega
  obtain ⟨rest', hscan⟩ := scan_stuff len u (done.length + 1)
    (by rw [hstuff]; exact hmsg) hend (by rw [hstuff]; exact hclen)
    (fun hm => absurd hm hplain)
  have hcount : u.count msgStart = 0 := List.count_eq_zero.mpr hplain
  rw [← hfuel, hcount, hesc] at hscan
  have hplace : (done ++ u).length = done.length + u.length := List.length_append
  have hmsg' : done ++ u ++ [msgStart] ++ rest' = (done ++ u) ++ msgStart :: rest' :=
    List.append_assoc (done ++ u) [msgStart] rest'
  have hcut := scan_cut len
    (r := { r with
      msg := done ++ u ++ [msgStart] ++ rest'
      clen := done.length + u.length + [msgStart].length
      checked_end := done.length + u.length
      escaped := 0 + 0 })
    done.length hmsg' hplace.symm (by rw [hplace]; rfl)
  rw [Unescape.rounds, hread, Option.bind_some]
  dsimp only
  rw [hscan, hcut, if_pos (Nat.succ_pos _)]
  have htotal : len = (done ++ u).length + 1 := by rw [hplace, hlen, hclen]
  exact rounds_cut rest' fuel hmsg' hplace.symm (by rw [hplace]; rfl) htotal rfl hinput htop

/-- **The rounds read what is missing**, when they end between characters. -/
theorem Waits.rounds {w : List Byte} (hw : ReadRounds w) {fuel : Nat}
    (h : Waits len done w more r) (hne : w ≠ []) (hfuel : (stuff msgStart w).length ≤ fuel) :
    ∃ r', r.rounds len fuel = some r' ∧ Reads len (done ++ w) more r' := by
  induction hw generalizing r done fuel with
  | done => exact absurd rfl hne
  | checksum =>
    obtain ⟨rest, hmsg⟩ := h.msg
    have hesc : r.escaped = 1 := h.escaped
    have hinput : r.input = [msgStart] ++ (msgStart :: more) := h.input
    obtain ⟨rest', hread⟩ := readPort_eq _ hmsg hinput
    obtain ⟨fuel', rfl⟩ : ∃ fuel', fuel = fuel' + 1 + 1 := by
      have htwo : (stuff msgStart [msgStart]).length = 2 := rfl
      exact ⟨fuel - 2, by omega⟩
    have hrest : r.readRest = some
        { r with
          msg := done ++ [msgStart] ++ rest'
          input := msgStart :: more
          top := max r.top (done.length + 1)
          clen := done.length + 1
          escaped := 0 } := by
      rw [List.length_singleton] at hread
      rw [Unescape.readRest, if_neg (by omega), hesc, h.clen, hread, Option.bind_some]
      rfl
    have htotal : len = done.length + 1 := h.total
    have hresult := rounds_checksum len done [] rest' fuel'
      List.not_mem_nil hrest (by rw [List.append_nil]) h.checked_end rfl htotal rfl rfl
      (max_le h.top (by omega))
    rw [List.append_nil] at hresult
    exact hresult
  | round u v hu hlen hv ih =>
    obtain ⟨rest, hmsg⟩ := h.msg
    have hesc : r.escaped = (stuff msgStart u).length := h.escaped.trans hlen.symm
    have hpos : 0 < (stuff msgStart u).length := by
      have hle := length_le_stuff msgStart u
      have hlt := List.length_pos_iff.mpr hu
      omega
    have hinput : r.input = stuff msgStart u ++ (stuff msgStart v ++ more) := by
      rw [h.input, stuff_append, List.append_assoc]
    obtain ⟨rest', hread⟩ := readRest_eq hmsg h.clen hesc (by omega) hinput
    have htotal := h.total
    rw [List.length_append] at htotal hlen
    rw [stuff_append, List.length_append] at hfuel
    obtain ⟨fuel', rfl⟩ : ∃ fuel', fuel = fuel' + 1 := ⟨fuel - 1, by omega⟩
    have hhas : HasRead len done u v more
        { r with
          msg := done ++ stuff msgStart u ++ rest'
          input := stuff msgStart v ++ more
          top := max r.top (done.length + r.escaped)
          clen := done.length + r.escaped
          escaped := 0 } := by
      have hread : done.length + r.escaped = done.length + (stuff msgStart u).length := by
        rw [hesc]
      have hfull : done.length + r.escaped = len := by omega
      have hall : len = done.length + u.length + v.length := by omega
      exact ⟨⟨rest', rfl⟩, h.checked_end, hread, rfl, rfl, hfull, hall,
        max_le h.top (by omega)⟩
    rw [← List.append_assoc]
    exact hhas.rounds fuel' hread fun r₁ hr₁ hne₁ => by
      exact ih hr₁ hne₁ (by omega)

end Unescape

/-! ### Whole replies -/

/-- The status in a reply. -/
def replyStatus (data : List Byte) : Byte := (data ++ [msgChecksum data]).headD 0

/-- How `ecRead` ends on a reply with its checksum. -/
def replyEnd (data : List Byte) : EcEnd :=
  if replyStatus data = statOk then .returned else .driveError (replyStatus data)

/-- The first round reads `bytes`. -/
theorem ecRead_first (msg bytes rest : List Byte) (len : Nat) (hlen : bytes.length = len) :
    ∃ tail, Unescape.readPort ⟨msg, bytes ++ rest, 0, len, 1, 0⟩ 0 len =
      some ⟨bytes ++ tail, rest, len, len, 1, 0⟩ := by
  have hmsg : (Unescape.mk msg (bytes ++ rest) 0 len 1 0).msg = [] ++ msg := rfl
  obtain ⟨tail, hread⟩ := Unescape.readPort_eq _ hmsg rfl
  refine ⟨tail, ?_⟩
  rw [hlen] at hread
  rw [List.length_nil] at hread
  rw [hread]
  simp

/-- The checks of `ecRead` on what the rounds leave of a reply. -/
theorem ecRead_checks {msg input data more : List Byte} {r₁ r : Unescape}
    (hread : Unescape.readPort ⟨msg, input, 0, data.length + 2, 1, 0⟩ 0 (data.length + 2) =
      some r₁)
    (hrounds : r₁.rounds (data.length + 2) (r₁.input.length + 1) = some r)
    (hreads : Unescape.Reads (data.length + 2) ([msgStart] ++ (data ++ [msgChecksum data])) more
      r) :
    ecRead msg input (data.length + 2) = some (r, replyEnd data) := by
  obtain ⟨⟨rest, hmsg⟩, -, -⟩ := hreads
  have hsum : byteSum ((r.msg.take (data.length + 2 - 1)).drop 1) = byteSum data := by
    have hsplit : r.msg = (msgStart :: data) ++ ([msgChecksum data] ++ rest) := by
      rw [hmsg]
      simp
    have htake : r.msg.take (data.length + 2 - 1) = msgStart :: data := by
      rw [hsplit]
      exact List.take_left' rfl
    rw [htake]
    rfl
  have hlast : r.msg.getD (data.length + 2 - 1) 0 = msgChecksum data := by
    have hsplit : r.msg = (msgStart :: data) ++ msgChecksum data :: rest := by
      rw [hmsg]
      simp
    rw [hsplit]
    exact Unescape.getD_here (msgStart :: data) rest (msgChecksum data)
  have hstatus : r.msg.getD 1 0 = replyStatus data := by
    rw [hmsg, replyStatus]
    cases data with
    | nil => rfl
    | cons b data => rfl
  rw [ecRead, hread, Option.bind_some, hrounds, Option.map_some]
  dsimp only
  have hright : ¬ msgChecksum data ≠ 0 - byteSum data := not_not_intro rfl
  rw [hsum, hlast, hstatus, if_neg hright, replyEnd]
  by_cases hok : replyStatus data = statOk
  · rw [if_neg (not_not_intro hok), if_pos hok]
  · rw [if_pos hok, if_neg hok]

/-- The rounds over a frame that is read well. -/
theorem rounds_frame {body : List Byte} (msg more : List Byte) (hne : body ≠ [])
    (hwell : ReadsWell body) :
    ∃ r₁ r,
      Unescape.readPort ⟨msg, msgFrame body ++ more, 0, body.length + 1, 1, 0⟩ 0
        (body.length + 1) = some r₁ ∧
      r₁.rounds (body.length + 1) (r₁.input.length + 1) = some r ∧
      Unescape.Reads (body.length + 1) ([msgStart] ++ body) more r := by
  -- a reply that is only an escaped checksum ends the first round within it
  have hcases : (∃ u, msgStart ∉ u ∧ body = u ++ [msgStart]) ∨
      ∃ u v, (stuff msgStart u).length = (u ++ v).length ∧ ReadRounds v ∧ body = u ++ v := by
    rcases hwell with hrounds | hcut
    · cases hrounds with
      | done => exact absurd rfl hne
      | checksum => exact Or.inl ⟨[], List.not_mem_nil, rfl⟩
      | round u v _ hlen hv => exact Or.inr ⟨u, v, hlen, hv, rfl⟩
    · exact Or.inl hcut
  rcases hcases with ⟨u, hplain, rfl⟩ | ⟨u, v, hlen, hv, rfl⟩
  · have hframe : msgFrame (u ++ [msgStart]) ++ more =
        (msgStart :: (u ++ [msgStart])) ++ (msgStart :: more) := by
      rw [msgFrame, stuff_append, stuff_plain hplain, stuff_flag, stuff_nil]
      simp
    obtain ⟨tail, hread⟩ := ecRead_first msg (msgStart :: (u ++ [msgStart]))
      (msgStart :: more) ((u ++ [msgStart]).length + 1) rfl
    have hlength : (u ++ [msgStart]).length + 1 = [msgStart].length + u.length + 1 := by
      rw [List.length_append, List.length_singleton]
      omega
    have hrounds : ∃ r,
        Unescape.rounds ((u ++ [msgStart]).length + 1) (more.length + 1 + 1)
          ⟨(msgStart :: (u ++ [msgStart])) ++ tail, msgStart :: more,
            (u ++ [msgStart]).length + 1, (u ++ [msgStart]).length + 1, 1, 0⟩ = some r ∧
        Unescape.Reads ((u ++ [msgStart]).length + 1) ([msgStart] ++ u ++ [msgStart]) more r :=
      Unescape.rounds_checksum _ [msgStart] u tail more.length hplain rfl (by simp) rfl hlength
        rfl rfl rfl (Nat.le_succ _)
    obtain ⟨r, hr, hreads⟩ := hrounds
    rw [hframe]
    exact ⟨_, r, hread, hr, by rw [← List.append_assoc]; exact hreads⟩
  · have hframe : msgFrame (u ++ v) ++ more =
        (msgStart :: stuff msgStart u) ++ (stuff msgStart v ++ more) := by
      rw [msgFrame, stuff_append]
      simp
    obtain ⟨tail, hread⟩ := ecRead_first msg (msgStart :: stuff msgStart u)
      (stuff msgStart v ++ more) ((u ++ v).length + 1)
      (by rw [List.length_cons, hlen])
    have htotal : (u ++ v).length = u.length + v.length := List.length_append
    have hhas : Unescape.HasRead ((u ++ v).length + 1) [msgStart] u v more
        ⟨(msgStart :: stuff msgStart u) ++ tail, stuff msgStart v ++ more,
          (u ++ v).length + 1, (u ++ v).length + 1, 1, 0⟩ := by
      refine ⟨⟨tail, rfl⟩, rfl, ?_, rfl, rfl, rfl, ?_, Nat.le_succ _⟩
      · rw [hlen, List.length_singleton, Nat.add_comm]
      · rw [htotal, List.length_singleton]
        omega
    have hrounds : ∃ r,
        Unescape.rounds ((u ++ v).length + 1) ((stuff msgStart v ++ more).length + 1)
          ⟨(msgStart :: stuff msgStart u) ++ tail, stuff msgStart v ++ more,
            (u ++ v).length + 1, (u ++ v).length + 1, 1, 0⟩ = some r ∧
        Unescape.Reads ((u ++ v).length + 1) ([msgStart] ++ u ++ v) more r :=
      hhas.rounds _ rfl fun r₁ hr₁ hv₁ =>
        hr₁.rounds hv hv₁ (by rw [List.length_append]; omega)
    obtain ⟨r, hr, hreads⟩ := hrounds
    rw [hframe]
    exact ⟨_, r, hread, hr, by rw [← List.append_assoc]; exact hreads⟩

/-- **`ecRead` reads a reply** when its rounds end well: the bytes are in the buffer of
the caller, the frame is consumed and nothing else, and nothing is written behind the
buffer, which the callers make twice as long as the reply. -/
theorem ecRead_reads (msg data more : List Byte)
    (hwell : ReadsWell (data ++ [msgChecksum data])) :
    ∃ r, ecRead msg (sendFrame data ++ more) (data.length + 2) = some (r, replyEnd data) ∧
      r.msg.take (data.length + 2) = msgStart :: (data ++ [msgChecksum data]) ∧
      r.input = more ∧ r.top ≤ 2 * (data.length + 2) := by
  have hlength : (data ++ [msgChecksum data]).length = data.length + 1 := List.length_append
  obtain ⟨r₁, r, hread, hrounds, hreads⟩ := rounds_frame msg more (by simp) hwell
  rw [hlength] at hread hrounds hreads
  refine ⟨r, ecRead_checks hread hrounds hreads, ?_, hreads.2.1, ?_⟩
  · obtain ⟨rest, hmsg⟩ := hreads.1
    rw [hmsg]
    exact List.take_left' (by simp)
  · have htop := hreads.2.2
    omega

/-! ### Framing -/

/-- The short form writes a frame unless its operation or its checksum is a start byte,
the long form unless its operation or its length is one or the length does not fit in a
`char`; a reply whose rounds end well is read. -/
theorem framing_iff (op : Byte) (address : UInt16) (data msg reply more : List Byte)
    (hwell : ReadsWell (reply ++ [msgChecksum reply])) :
    (writeMsg op address = sendFrame [op, address.toUInt8, (address >>> 8).toUInt8] ↔
      op ≠ msgStart ∧
        msgChecksum [op, address.toUInt8, (address >>> 8).toUInt8] ≠ msgStart) ∧
    (writeMsgData op address data = some (sendFrame (dataMsg op address data)) ↔
      op ≠ msgStart ∧ data.length ≠ 40 ∧ data.length < 125) ∧
    ∃ r, ecRead msg (sendFrame reply ++ more) (reply.length + 2) = some (r, replyEnd reply) ∧
      r.msg.take (reply.length + 2) = msgStart :: (reply ++ [msgChecksum reply]) ∧
      r.input = more ∧ r.top ≤ 2 * (reply.length + 2) :=
  ⟨writeMsg_iff op address, writeMsgData_iff op address data, ecRead_reads msg reply more hwell⟩

/-- The reply to a `read2b` whose data has one start byte. -/
theorem framing_read2b :
    (writeMsg 2 5 = sendFrame [2, 5, 0] ↔
      (2 : Byte) ≠ msgStart ∧ msgChecksum [2, 5, 0] ≠ msgStart) ∧
    (writeMsgData 2 5 [0x2B, 1] = some (sendFrame (dataMsg 2 5 [0x2B, 1])) ↔
      (2 : Byte) ≠ msgStart ∧ [0x2B, (1 : Byte)].length ≠ 40 ∧ [0x2B, (1 : Byte)].length < 125) ∧
    ∃ r, ecRead (List.replicate 10 0) (sendFrame [0, 0x2B, 3] ++ [7]) 5 =
        some (r, replyEnd [0, 0x2B, 3]) ∧
      r.msg.take 5 = msgStart :: ([0, 0x2B, 3] ++ [msgChecksum [0, 0x2B, 3]]) ∧
      r.input = [7] ∧ r.top ≤ 2 * 5 :=
  framing_iff 2 5 [0x2B, 1] (List.replicate 10 0) [0, 0x2B, 3] [7]
    (Or.inl (.round [0, 0x2B, 3] [msgChecksum [0, 0x2B, 3]] (by decide) (by decide)
      (.round [msgChecksum [0, 0x2B, 3]] [] (by decide) (by decide) .done)))

/-- The checksum of `read2b (4)` and a length of 43 are not doubled; a reply with two
start bytes in a row takes a byte of what comes after it. -/
theorem framing_slip :
    writeMsg 0xD1 4 ≠ sendFrame [0xD1, 4, 0] ∧
    writeMsgData 2 4 (List.replicate 40 0) ≠
      some (sendFrame (dataMsg 2 4 (List.replicate 40 0))) ∧
    ∃ r, ecRead (List.replicate 10 0) (sendFrame [0, 0x2B, 0x2B] ++ [7]) 5 =
        some (r, .returned) ∧ r.input ≠ [7] := by
  refine ⟨by decide, by decide, ?_⟩
  exact ⟨_, rfl, by decide⟩

end Rts2.Connection

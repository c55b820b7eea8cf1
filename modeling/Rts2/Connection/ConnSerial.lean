import Rts2.Connection.Params
import Rts2.Lib.Filling
import Rts2.Lib.Run

/-! # Serial ports

`ConnSerial` writes to a serial port and reads from it, in loops around `write` and
`read`. A call is a machine whose inputs are the answers of the system calls, until it
returns. Both system calls return -1 when a signal interrupts them, and the loops do
not return then: they go on with that value. -/
namespace Rts2.Connection
open Rts2.Lib

/-- What `write` to the port answers. -/
inductive PortWrite where
  | takes (n : Nat)
  | eintr
  | failed
  deriving DecidableEq

/-- What `read` from the port answers. No bytes are a read of zero length. -/
inductive PortRead where
  | got (bytes : List Byte)
  | eintr
  | failed
  deriving DecidableEq

/-! ## Writing -/

/-- A call of `writePort`; `sent` is what the port has taken. -/
structure Writing where
  wlen : Int
  sent : List Byte
  ret : Option Int
  deriving DecidableEq

/-- The test of the loop. -/
def Writing.test (w : Writing) (b_len : Nat) : Writing :=
  if w.wlen < b_len then w else { w with ret := some 0 }

/-- `ConnSerial::writePort` up to its first `write`. The form for one character does
the same with a buffer of that character. -/
def writePort (connected : Bool) (wbuf : List Byte) : Writing :=
  if connected then Writing.test ⟨0, [], none⟩ wbuf.length else ⟨0, [], some (-1)⟩

/-- One turn of the loop, which hands the whole buffer to `write` each time. -/
def writePortStep (wbuf : List Byte) (w : Writing) (a : PortWrite) : Writing :=
  if w.ret.isSome then w
  else
    match a with
    | .failed => { w with ret := some (-1) }
    | .eintr => Writing.test { w with wlen := w.wlen - 1 } wbuf.length
    | .takes n =>
      let ret := min n wbuf.length
      if ret = 0 then { w with ret := some (-1) }
      else Writing.test { w with wlen := w.wlen + ret, sent := w.sent ++ wbuf.take n } wbuf.length

/-- The port takes the whole buffer or nothing. -/
def WriteWhole (wbuf : List Byte) (w : Writing) (a : PortWrite) : Prop :=
  w.ret.isSome ∨
    match a with
    | .takes n => n = 0 ∨ wbuf.length ≤ n
    | .eintr => False
    | .failed => True

/-! ## Reading -/

/-- The value of `read` for so many bytes. -/
def PortRead.ret (a : PortRead) (want : Int) : Int :=
  match a with
  | .got bytes => (bytes.take want.toNat).length
  | .eintr => -1
  | .failed => -1

/-- The bytes `read` stores. -/
def PortRead.bytes (a : PortRead) (want : Int) : List Byte :=
  match a with
  | .got bytes => bytes.take want.toNat
  | .eintr => []
  | .failed => []

/-- A call of a `readPort`; `base` is where its `rbuf` points in the buffer of the
caller. -/
structure ReadCall where
  buf : Filling Byte
  base : Int
  rlen : Int
  ntries : Int
  ret : Option Int

namespace ReadCall

/-- The place of `rbuf + rlen`. -/
def place (s : ReadCall) : Int := s.base + s.rlen

/-- The variables of a call before its loop. -/
def enter (buf : Filling Byte) (base vTime : Int) : ReadCall where
  buf := buf.moveTo base
  base := base
  rlen := 0
  ntries := vTime.tdiv 100
  ret := none

def returns (s : ReadCall) (n : Int) : ReadCall := { s with ret := some n }

/-- `read (sock, rbuf + rlen, want)`. -/
def store (s : ReadCall) (a : PortRead) (want : Int) : ReadCall :=
  { s with buf := s.buf.store s.place (a.bytes want) }

/-- `ntries--` when nothing was read. -/
def tryAgain (s : ReadCall) (ret : Int) : ReadCall :=
  if ret = 0 then { s with ntries := s.ntries - 1 } else s

/-- `rlen += ret`. -/
def advance (s : ReadCall) (ret : Int) : ReadCall :=
  { s with rlen := s.rlen + ret, buf := s.buf.moveTo (s.base + (s.rlen + ret)) }

/-- `rbuf[rlen] = '\0'`. -/
def terminate (s : ReadCall) : ReadCall := { s with buf := s.buf.put s.place 0 }

/-- What the loops over a buffer do on an error: what was read is logged as text. -/
def readError (s : ReadCall) : ReadCall :=
  (if 0 < s.rlen then s.terminate else s).returns (-1)

end ReadCall

/-- The test of the loop for one character. -/
def charTest (s : ReadCall) : ReadCall := if s.rlen = 0 then s else s.returns 1

/-- One turn of the loop of `readPort (char &ch)`; in the loop `rlen` is 0, so that
`rlen = read` is what `advance` does. -/
def charStep (s : ReadCall) (a : PortRead) : ReadCall :=
  if s.ret.isSome then s
  else if a = .failed then s.returns (-1)
  else
    let ret := a.ret 1
    let s := s.store a 1
    if ret = 0 ∧ s.ntries = 0 then s.returns (-1)
    else charTest ((s.tryAgain ret).advance ret)

/-- The test of the loop for `b_len` bytes. -/
def bufTest (b_len : Int) (s : ReadCall) : ReadCall :=
  if s.rlen < b_len then s else s.returns s.rlen

/-- One turn of the loop of `readPort (char *rbuf, int b_len)`. -/
def bufStep (b_len : Int) (s : ReadCall) (a : PortRead) : ReadCall :=
  if s.ret.isSome then s
  else if a = .failed then s.readError
  else
    let ret := a.ret (b_len - s.rlen)
    let s := s.store a (b_len - s.rlen)
    if ret = 0 ∧ s.ntries = 0 then s.returns (-1)
    else bufTest b_len ((s.tryAgain ret).advance ret)

/-- The test of the loop that looks for an end character. -/
def endTest (b_len : Int) (s : ReadCall) : ReadCall :=
  if s.rlen < b_len then s else s.returns (-1)

/-- One turn of the loop of `readPort (char *rbuf, int b_len, char endChar)`. -/
def endStep (b_len : Int) (endChar : Byte) (s : ReadCall) (a : PortRead) : ReadCall :=
  if s.ret.isSome then s
  else if a = .failed then s.readError
  else
    let ret := a.ret 1
    let s := s.store a 1
    if ret = 0 ∧ s.ntries = 0 then s.terminate.returns (-1)
    else
      let s := s.tryAgain ret
      -- tested also when nothing was read
      let s := { s with buf := s.buf.test s.place }
      if s.buf.mem s.place = endChar then
        let s := s.advance ret
        s.returns s.rlen
      else endTest b_len (s.advance ret)

/-- A call of `readPort` before its first `read`, with the test of its loop. -/
def readPort (connected : Bool) (mem : Int → Byte) (vTime : Int)
    (test : ReadCall → ReadCall) : ReadCall :=
  let s := ReadCall.enter ⟨mem, []⟩ 0 vTime
  if connected then test s else s.returns (-1)

/-! ## Reading up to an end string -/

/-- The end string, which has a first character. -/
structure EndString where
  first : Byte
  rest : List Byte

def EndString.strlen (e : EndString) : Int := 1 + e.rest.length

/-- A call of `readPort (char *rbuf, int b_len, const char *endChar)`. `call` is the
`readPort` it is in, `ch` what remains to be found of the end string, or `none` while
its first character is looked for. -/
structure Search where
  call : ReadCall
  tl : Int
  ch : Option (List Byte)
  ret : Option Int

/-- The head of the inner loop; `rl` is where the next character is read to. -/
def Search.next (e : EndString) (vTime rl : Int) (s : Search) : Search :=
  match s.ch with
  | some [] =>
    { s with
      call := { s.call with buf := s.call.buf.put (s.tl - e.strlen) 0 }
      ret := some s.tl }
  | _ => { s with call := bufTest 1 (.enter s.call.buf rl vTime) }

/-- The call up to its first `read`. -/
def Search.start (connected : Bool) (mem : Int → Byte) (vTime b_len : Int)
    (e : EndString) : Search :=
  let call := ReadCall.enter ⟨mem, []⟩ 0 vTime
  if connected = false then ⟨call, 0, none, some (-1)⟩
  else if b_len < e.strlen then ⟨call.terminate, 0, none, some (-1)⟩
  else ⟨endTest b_len call, 0, none, none⟩

/-- The `readPort` for one character has returned. Its place `rl` stays where it is,
whether the character is the one looked for or not. -/
def Search.compare (e : EndString) (vTime : Int) (s : Search) (call : ReadCall) (r : Int)
    (chs : List Byte) : Search :=
  let rl := call.base
  let buf := if r = 1 then call.buf else call.buf.put rl 0
  let call := { call with buf := buf.test rl }
  let chs := if chs.head? = some (call.buf.mem rl) then chs.tail else chs
  Search.next e vTime rl { s with call := call, tl := s.tl + 1, ch := some chs }

/-- The answer of one `read`. -/
def Search.step (b_len vTime : Int) (e : EndString) (s : Search) (a : PortRead) : Search :=
  if s.ret.isSome then s
  else
    match s.ch with
    | none =>
      let call := endStep b_len e.first s.call a
      match call.ret with
      | none => { s with call := call }
      | some r =>
        if r < 0 then { s with call := call, ret := some r }
        else
          Search.next e vTime (s.tl + r)
            { s with call := call, tl := s.tl + r, ch := some e.rest }
    | some chs =>
      let call := bufStep 1 s.call a
      match call.ret with
      | none => { s with call := call }
      | some r => Search.compare e vTime s call r chs

/-! ## When the calls do what they should -/

/-- What a call of `readPort` owes its caller: no place is tested before a `read`
filled it, the fill index never goes back, and the places of the bytes returned hold
what `read` stored there. -/
def ReadCall.Right (s : ReadCall) : Prop :=
  Clean s.buf.trace ∧
    ∀ n, s.ret = some n → ∀ i, 0 ≤ i → i < n →
      lastStored s.buf.trace i = some (s.buf.mem i)

/-- The same of a search, which puts the end of the text over the end string. -/
def Search.Right (e : EndString) (s : Search) : Prop :=
  Clean s.call.buf.trace ∧
    ∀ n, s.ret = some n → ∀ i, 0 ≤ i → i < n →
      (lastStored s.call.buf.trace i).isSome ∧
        (i ≠ n - e.strlen → lastStored s.call.buf.trace i = some (s.call.buf.mem i))

/-- No signal interrupts `read`. -/
def ReadWhole (s : ReadCall) (a : PortRead) : Prop := s.ret.isSome ∨ a ≠ .eintr

/-- No signal interrupts `read`, and it has something when a zero length would be
tried again. -/
def ReadSome (s : ReadCall) (a : PortRead) : Prop :=
  s.ret.isSome ∨ (a ≠ .eintr ∧ (a.ret 1 = 0 → s.ntries = 0))

/-- The first character of the end string is looked for so. At most one more character
follows it in the end string, and it is the next one that comes. -/
def SearchPlain (s : Search) (a : PortRead) : Prop :=
  s.ret.isSome ∨
    match s.ch with
    | none => ReadSome s.call a
    | some chs =>
      (a.ret 1 = 0 ∧ s.call.ntries ≠ 0) ∨ (a.ret 1 = 1 ∧ chs = a.bytes 1)

/-! ## Writing sends the buffer -/

/-- While `writePort` runs nothing was sent; it returns success with the buffer sent. -/
def Writing.Good (wbuf : List Byte) (w : Writing) : Prop :=
  (w.ret = none → w.wlen = 0 ∧ w.sent = []) ∧ (w.ret = some 0 → w.sent = wbuf)

theorem Writing.Good.fails {wbuf : List Byte} (w : Writing) :
    Writing.Good wbuf { w with ret := some (-1) } := by
  constructor
  · intro h
    cases h
  · intro h
    cases h

theorem Writing.Good.step {wbuf : List Byte} {w : Writing} {a : PortWrite}
    (h : w.Good wbuf) (ha : WriteWhole wbuf w a) : (writePortStep wbuf w a).Good wbuf := by
  unfold writePortStep
  split
  · exact h
  · rename_i hret
    have hnone : w.ret = none := Option.not_isSome_iff_eq_none.mp hret
    obtain ⟨hw, hs⟩ := h.1 hnone
    rcases ha with ha | ha
    · exact absurd ha hret
    · cases a with
      | failed => exact .fails w
      | eintr => exact ha.elim
      | takes n =>
        dsimp only
        split
        · exact .fails w
        · rename_i hpos
          -- not zero, so the port took all of the buffer
          have hall : wbuf.length ≤ n := by
            rcases ha with rfl | ha
            · simp at hpos
            · exact ha
          have hmin : min n wbuf.length = wbuf.length := Nat.min_eq_right hall
          have htake : wbuf.take n = wbuf := List.take_of_length_le hall
          simp [Writing.test, Writing.Good, hw, hs, hmin, htake]

theorem Writing.Good.start (connected : Bool) (wbuf : List Byte) :
    (writePort connected wbuf).Good wbuf := by
  unfold writePort
  split
  · unfold Writing.test
    split
    · refine ⟨fun _ => ⟨rfl, rfl⟩, ?_⟩
      intro h
      cases h
    · rename_i hlen
      have hnil : wbuf = [] := List.length_eq_zero_iff.mp (by simpa using hlen)
      refine ⟨?_, fun _ => hnil.symm⟩
      intro h
      cases h
  · exact .fails ⟨0, [], none⟩

/-! ## Reading returns what was read -/

namespace ReadCall

variable {s : ReadCall} {a : PortRead} {want : Int}

theorem tryAgain_eq (s : ReadCall) (ret : Int) :
    ∃ tries, s.tryAgain ret = { s with ntries := tries } := by
  unfold tryAgain
  split
  · exact ⟨s.ntries - 1, rfl⟩
  · exact ⟨s.ntries, rfl⟩

/-- A call that runs or has returned, with all places below `rbuf + rlen` filled. -/
structure Good (s : ReadCall) : Prop where
  base_nonneg : 0 ≤ s.base
  rlen_nonneg : 0 ≤ s.rlen
  upto : s.buf.Upto s.place s.place
  returned : ∀ n, s.ret = some n → n < 0 ∨ n = s.rlen

theorem Good.right (h : s.Good) (hbase : s.base = 0) : s.Right := by
  refine ⟨h.upto.clean, ?_⟩
  intro n hn i h0 hi
  have hplace : s.place = s.rlen := by rw [place, hbase, zero_add]
  have hlt : i < s.place := by
    rcases h.returned n hn with hneg | heq
    · omega
    · omega
  exact h.upto.backed i h0 hlt

theorem Good.enter {buf : Filling Byte} {base : Int} (hbase : 0 ≤ base)
    (hbuf : buf.Upto base base) (vTime : Int) : (enter buf base vTime).Good where
  base_nonneg := hbase
  rlen_nonneg := le_rfl
  upto := by
    have hplace : (ReadCall.enter buf base vTime).place = base := add_zero base
    rw [hplace]
    exact hbuf.moveTo le_rfl
  returned := by
    intro n hn
    cases hn

theorem Good.returns (h : s.Good) {n : Int} (hn : n < 0 ∨ n = s.rlen) :
    (s.returns n).Good where
  base_nonneg := h.base_nonneg
  rlen_nonneg := h.rlen_nonneg
  upto := h.upto
  returned := by
    intro m hm
    rw [← Option.some.inj hm]
    exact hn

theorem Good.fails (h : s.Good) : (s.returns (-1)).Good := h.returns (Or.inl (by decide))

theorem Good.terminate (h : s.Good) : s.terminate.Good where
  base_nonneg := h.base_nonneg
  rlen_nonneg := h.rlen_nonneg
  upto := h.upto.put le_rfl 0
  returned := h.returned

theorem Good.readError (h : s.Good) : s.readError.Good := by
  unfold ReadCall.readError
  split
  · exact h.terminate.fails
  · exact h.fails

theorem ret_eq_length (hret : 0 ≤ a.ret want) : a.ret want = (a.bytes want).length := by
  cases a with
  | got bytes => rfl
  | eintr => exact absurd (show (0 : Int) ≤ -1 from hret) (by decide)
  | failed => exact absurd (show (0 : Int) ≤ -1 from hret) (by decide)

/-- What a `read` stores extends the filled part by as much as it returns. -/
theorem Good.stored (h : s.Good) (hret : 0 ≤ a.ret want) :
    (s.store a want).buf.Upto s.place (s.place + a.ret want) := by
  rw [ret_eq_length hret]
  exact h.upto.store _

/-- `rlen` follows what is filled. -/
theorem Good.advance {buf : Filling Byte} {ret : Int} (h : s.Good) (hret : 0 ≤ ret)
    (hbuf : buf.Upto s.place (s.place + ret)) (hnone : s.ret = none) :
    (ReadCall.advance { s with buf := buf } ret).Good where
  base_nonneg := h.base_nonneg
  rlen_nonneg := Int.add_nonneg h.rlen_nonneg hret
  upto := by
    have hplace : (ReadCall.advance { s with buf := buf } ret).place = s.place + ret :=
      (add_assoc s.base s.rlen ret).symm
    rw [hplace]
    have hmove := hbuf.moveTo (Int.le_add_of_nonneg_right hret)
    rw [show s.place + ret = s.base + (s.rlen + ret) from hplace.symm] at hmove ⊢
    exact hmove
  returned := by
    intro n hn
    rw [show (ReadCall.advance { s with buf := buf } ret).ret = s.ret from rfl, hnone] at hn
    cases hn

/-- What a `read` that was neither interrupted nor failed does to a call. -/
theorem Good.read (h : s.Good) (hnone : s.ret = none) (hret : 0 ≤ a.ret want) :
    (((s.store a want).tryAgain (a.ret want)).advance (a.ret want)).Good := by
  obtain ⟨tries, htries⟩ := tryAgain_eq (s.store a want) (a.ret want)
  rw [htries]
  have hs : Good { s with ntries := tries } :=
    ⟨h.base_nonneg, h.rlen_nonneg, h.upto, h.returned⟩
  exact hs.advance hret (h.stored hret) hnone

/-- A `read` of zero length leaves the call as it was. -/
theorem Good.stored_none (h : s.Good) (hret : a.ret want = 0) : (s.store a want).Good where
  base_nonneg := h.base_nonneg
  rlen_nonneg := h.rlen_nonneg
  upto := by
    have hst := h.stored (le_of_eq hret.symm)
    rw [hret, add_zero] at hst
    exact hst
  returned := h.returned

theorem ret_nonneg (hi : a ≠ .eintr) (hf : a ≠ .failed) : 0 ≤ a.ret want := by
  cases a with
  | got bytes => exact Int.natCast_nonneg _
  | eintr => exact absurd rfl hi
  | failed => exact absurd rfl hf

theorem ret_le_one : a.ret 1 ≤ 1 := by
  cases a with
  | got bytes =>
    have hlen : (bytes.take 1).length ≤ 1 := List.length_take_le 1 bytes
    exact Int.ofNat_le.mpr hlen
  | eintr => exact by decide
  | failed => exact by decide

/-- The loop for one character, which runs with `rlen` 0. -/
def CharGood (s : ReadCall) : Prop := s.Good ∧ (s.ret = none → s.rlen = 0)

theorem CharGood.returned (h : s.Good) {n : Int} (hn : n < 0 ∨ n = s.rlen) :
    (s.returns n).CharGood := by
  refine ⟨h.returns hn, ?_⟩
  intro hnone
  cases hnone

theorem CharGood.test (h : s.Good) (hle : s.rlen ≤ 1) : (charTest s).CharGood := by
  unfold charTest
  split
  · rename_i hzero
    exact ⟨h, fun _ => hzero⟩
  · rename_i hpos
    have hnonneg := h.rlen_nonneg
    exact .returned h (Or.inr (by omega))

theorem CharGood.step (h : s.CharGood) (ha : ReadWhole s a) : (charStep s a).CharGood := by
  unfold charStep
  split
  · exact h
  rename_i hrun
  have hnone : s.ret = none := Option.not_isSome_iff_eq_none.mp hrun
  have hintr : a ≠ .eintr := ha.resolve_left hrun
  split
  · exact .returned h.1 (Or.inl (by decide))
  rename_i hfail
  have hret : 0 ≤ a.ret 1 := ret_nonneg hintr hfail
  dsimp only
  split
  · rename_i hend
    exact .returned (h.1.stored_none hend.1) (Or.inl (by decide))
  · refine .test (h.1.read hnone hret) ?_
    obtain ⟨tries, htries⟩ := tryAgain_eq (s.store a 1) (a.ret 1)
    rw [htries]
    have hzero : s.rlen + a.ret 1 = a.ret 1 := by rw [h.2 hnone, zero_add]
    exact le_trans (le_of_eq hzero) ret_le_one

theorem Good.bufTest (h : s.Good) (b_len : Int) : (bufTest b_len s).Good := by
  unfold Connection.bufTest
  split
  · exact h
  · exact h.returns (Or.inr rfl)

theorem Good.bufStep (h : s.Good) {b_len : Int} (ha : ReadWhole s a) :
    (bufStep b_len s a).Good := by
  unfold Connection.bufStep
  split
  · exact h
  rename_i hrun
  have hnone : s.ret = none := Option.not_isSome_iff_eq_none.mp hrun
  have hintr : a ≠ .eintr := ha.resolve_left hrun
  split
  · exact h.readError
  rename_i hfail
  dsimp only
  split
  · rename_i hend
    exact (h.stored_none hend.1).fails
  · exact (h.read hnone (ret_nonneg hintr hfail)).bufTest b_len

theorem Good.endTest (h : s.Good) (b_len : Int) : (endTest b_len s).Good := by
  unfold Connection.endTest
  split
  · exact h
  · exact h.fails

theorem Good.endStep (h : s.Good) {b_len : Int} {endChar : Byte} (ha : ReadSome s a) :
    (endStep b_len endChar s a).Good := by
  unfold Connection.endStep
  split
  · exact h
  rename_i hrun
  have hnone : s.ret = none := Option.not_isSome_iff_eq_none.mp hrun
  obtain ⟨hintr, hsome⟩ := ha.resolve_left hrun
  split
  · exact h.readError
  rename_i hfail
  have hret : 0 ≤ a.ret 1 := ret_nonneg hintr hfail
  dsimp only
  split
  · rename_i hend
    exact (h.stored_none hend.1).terminate.fails
  · rename_i hgo
    -- something was read, so the place tested is filled
    have hpos : 0 < a.ret 1 := by
      rcases Int.lt_or_eq_of_le hret with hlt | heq
      · exact hlt
      · exact absurd ⟨heq.symm, hsome heq.symm⟩ hgo
    obtain ⟨tries, htries⟩ := tryAgain_eq (s.store a 1) (a.ret 1)
    rw [htries]
    have hs : Good { s with ntries := tries } :=
      ⟨h.base_nonneg, h.rlen_nonneg, h.upto, h.returned⟩
    have hplace : 0 ≤ s.place := Int.add_nonneg h.base_nonneg h.rlen_nonneg
    have htest := (h.stored hret).test hplace (Int.lt_add_of_pos_right _ hpos)
    have hadv := hs.advance hret htest hnone
    split
    · exact hadv.returns (Or.inr rfl)
    · exact hadv.endTest b_len

theorem endStep_base (b_len : Int) (endChar : Byte) (c : ReadCall) (a : PortRead) :
    (endStep b_len endChar c a).base = c.base := by
  obtain ⟨tries, htries⟩ := tryAgain_eq (c.store a 1) (a.ret 1)
  unfold Connection.endStep Connection.endTest ReadCall.readError
  dsimp only
  rw [htries]
  repeat' split
  all_goals rfl

theorem bufStep_base (b_len : Int) (c : ReadCall) (a : PortRead) :
    (bufStep b_len c a).base = c.base := by
  obtain ⟨tries, htries⟩ := tryAgain_eq (c.store a (b_len - c.rlen)) (a.ret (b_len - c.rlen))
  unfold Connection.bufStep Connection.bufTest ReadCall.readError
  dsimp only
  rw [htries]
  repeat' split
  all_goals rfl

theorem charStep_base (c : ReadCall) (a : PortRead) : (charStep c a).base = c.base := by
  obtain ⟨tries, htries⟩ := tryAgain_eq (c.store a 1) (a.ret 1)
  unfold charStep charTest
  dsimp only
  rw [htries]
  repeat' split
  all_goals rfl

/-- What holds of a call before its first `read` and is kept by its loop makes it
right, whatever the length of the run. -/
theorem right_of_kept {P : ReadCall → Prop} {ok : ReadCall → PortRead → Prop}
    {step : ReadCall → PortRead → ReadCall} {test : ReadCall → ReadCall}
    {connected : Bool} {mem : Int → Byte} {vTime : Int} {answers : List PortRead}
    (hgood : ∀ s, P s → s.Good) (htest : ∀ s : ReadCall, s.Good → s.rlen = 0 → P (test s))
    (hfails : ∀ s : ReadCall, s.Good → P (s.returns (-1)))
    (hstep : ∀ s a, P s → ok s a → P (step s a))
    (htestBase : ∀ s : ReadCall, (test s).base = s.base)
    (hbase : ∀ s a, (step s a).base = s.base)
    (h : Along step ok (readPort connected mem vTime test) answers) :
    (run step (readPort connected mem vTime test) answers).Right := by
  have henter : Good (.enter ⟨mem, []⟩ 0 vTime) := .enter le_rfl (.start mem 0) vTime
  have hstart : P (readPort connected mem vTime test) := by
    unfold readPort
    dsimp only
    split
    · exact htest _ henter rfl
    · exact hfails _ henter
  have hzero : (readPort connected mem vTime test).base = 0 := by
    unfold readPort
    dsimp only
    split
    · exact htestBase _
    · rfl
  refine (hgood _ (h.invariant hstart hstep)).right ?_
  exact run_invariant (I := fun s => s.base = 0) hzero (fun s a hs => (hbase s a).trans hs) answers

/-- `readPort (char &ch)` on whole reads. -/
theorem char_right {connected : Bool} {mem : Int → Byte} {vTime : Int} {answers : List PortRead}
    (h : Along charStep ReadWhole (readPort connected mem vTime charTest) answers) :
    (run charStep (readPort connected mem vTime charTest) answers).Right := by
  refine right_of_kept (P := CharGood) ?_ ?_ ?_ ?_ ?_ charStep_base h
  · exact fun s hs => hs.1
  · exact fun s hs hzero => .test hs (by omega)
  · exact fun s hs => .returned hs (Or.inl (by decide))
  · exact fun s a hs ha => hs.step ha
  · intro s
    unfold charTest
    split
    · rfl
    · rfl

/-- `readPort (char *rbuf, int b_len)` on whole reads. -/
theorem buf_right {connected : Bool} {mem : Int → Byte} {vTime b_len : Int}
    {answers : List PortRead}
    (h : Along (bufStep b_len) ReadWhole (readPort connected mem vTime (bufTest b_len)) answers) :
    (run (bufStep b_len) (readPort connected mem vTime (bufTest b_len)) answers).Right := by
  refine right_of_kept (P := Good) ?_ ?_ ?_ ?_ ?_ (bufStep_base b_len) h
  · exact fun s hs => hs
  · exact fun s hs _ => hs.bufTest b_len
  · exact fun s hs => hs.fails
  · exact fun s a hs ha => hs.bufStep ha
  · intro s
    unfold Connection.bufTest
    split
    · rfl
    · rfl

/-- `readPort (char *rbuf, int b_len, char endChar)` when every `read` has something. -/
theorem end_right {connected : Bool} {mem : Int → Byte} {vTime b_len : Int} {endChar : Byte}
    {answers : List PortRead}
    (h : Along (endStep b_len endChar) ReadSome
      (readPort connected mem vTime (endTest b_len)) answers) :
    (run (endStep b_len endChar) (readPort connected mem vTime (endTest b_len)) answers).Right := by
  refine right_of_kept (P := Good) ?_ ?_ ?_ ?_ ?_ (endStep_base b_len endChar) h
  · exact fun s hs => hs
  · exact fun s hs _ => hs.endTest b_len
  · exact fun s hs => hs.fails
  · exact fun s a hs ha => hs.endStep ha
  · intro s
    unfold Connection.endTest
    split
    · rfl
    · rfl

end ReadCall

/-! ## Searching for an end string -/

namespace Search

/-- Where the call of a running search stands: at the beginning, or, with the first
character found and the rest of the end string to come, at the end of what is filled. -/
def Stands (e : EndString) (s : Search) : Prop :=
  match s.ch with
  | none => s.call.base = 0 ∧ s.tl = 0
  | some chs => chs = e.rest ∧ chs ≠ [] ∧ s.call.base = s.tl ∧ s.call.rlen = 0

/-- The invariant of a search. -/
def Good (e : EndString) (s : Search) : Prop :=
  s.Right e ∧ (s.ret = none → s.call.Good ∧ s.call.ret = none ∧ s.Stands e)

variable {e : EndString} {s : Search} {a : PortRead}

/-- A search that goes on has returned nothing yet. -/
theorem Good.running (hnone : s.ret = none) (hcall : s.call.Good) (hret : s.call.ret = none)
    (hstands : s.Stands e) : s.Good e := by
  refine ⟨⟨hcall.upto.clean, ?_⟩, fun _ => ⟨hcall, hret, hstands⟩⟩
  intro n hn
  rw [hnone] at hn
  cases hn

theorem Good.fails {n : Int} (hcall : Clean s.call.buf.trace) (hret : s.ret = some n)
    (hneg : n < 0) : s.Good e := by
  refine ⟨⟨hcall, ?_⟩, ?_⟩
  · intro m hm i h0 hi
    rw [hret] at hm
    have heq : n = m := Option.some.inj hm
    omega
  · intro hnone
    rw [hret] at hnone
    cases hnone

/-- At the end of the end string the search returns what is filled. -/
theorem Good.found {rl vTime : Int} (hbuf : s.call.buf.Upto s.tl s.tl) (hch : s.ch = some []) :
    (Search.next e vTime rl s).Good e := by
  unfold Search.next
  rw [hch]
  refine ⟨⟨hbuf.clean, ?_⟩, ?_⟩
  · intro n hn i h0 hi
    have heq : s.tl = n := Option.some.inj hn
    subst heq
    refine ⟨hbuf.filled h0 hi, ?_⟩
    intro hne
    have hmem : (s.call.buf.put (s.tl - e.strlen) 0).mem i = s.call.buf.mem i :=
      Function.update_of_ne hne _ _
    exact (hbuf.backed i h0 hi).trans (congrArg some hmem.symm)
  · intro hnone
    cases hnone

/-- Otherwise the next character is read to where the filled part ends. -/
theorem Good.goesOn {vTime : Int} {c : Byte} {cs : List Byte} (hnone : s.ret = none)
    (hbuf : s.call.buf.Upto s.tl s.tl) (h0 : 0 ≤ s.tl) (hch : s.ch = some (c :: cs))
    (hrest : e.rest = c :: cs) : (Search.next e vTime s.tl s).Good e := by
  unfold Search.next
  rw [hch]
  have hstands : Stands e
      ⟨bufTest 1 (.enter s.call.buf s.tl vTime), s.tl, some (c :: cs), s.ret⟩ :=
    ⟨hrest.symm, List.cons_ne_nil c cs, rfl, rfl⟩
  exact .running hnone ((ReadCall.Good.enter h0 hbuf vTime).bufTest 1) rfl hstands

/-- A turn of the loop whose `read` gives a length that is counted. -/
theorem bufStep_turn {c : ReadCall} {ret : Int} (hnone : c.ret = none) (hrlen : c.rlen = 0)
    (hret : a.ret 1 = ret) (hnonneg : 0 ≤ ret) (hgo : ret = 0 → c.ntries ≠ 0) :
    ∃ tries, bufStep 1 c a =
      bufTest 1 (ReadCall.advance { c.store a 1 with ntries := tries } ret) := by
  have hfail : a ≠ .failed := by
    rintro rfl
    exact absurd (show (0 : Int) ≤ -1 from le_of_le_of_eq hnonneg hret.symm) (by decide)
  obtain ⟨tries, hagain⟩ := ReadCall.tryAgain_eq (c.store a 1) ret
  refine ⟨tries, ?_⟩
  unfold bufStep
  rw [hnone, hrlen, Int.sub_zero, hret, Option.isSome_none, if_neg Bool.false_ne_true,
    if_neg hfail]
  dsimp only
  rw [if_neg, hagain]
  intro hend
  exact hgo hend.1 hend.2

/-- The `read` of one character has nothing yet. -/
theorem bufStep_none {c : ReadCall} (hnone : c.ret = none) (hrlen : c.rlen = 0)
    (hret : a.ret 1 = 0) (htries : c.ntries ≠ 0) :
    (bufStep 1 c a).ret = none ∧ (bufStep 1 c a).rlen = 0 ∧
      (bufStep 1 c a).base = c.base := by
  obtain ⟨tries, hturn⟩ := bufStep_turn hnone hrlen hret le_rfl (fun _ => htries)
  have hzero : (ReadCall.advance { c.store a 1 with ntries := tries } 0).rlen = 0 :=
    (add_zero c.rlen).trans hrlen
  rw [hturn, bufTest, if_pos (by rw [hzero]; decide)]
  exact ⟨hnone, hzero, rfl⟩

/-- The `read` of one character has it. -/
theorem bufStep_one {c : ReadCall} {b : Byte} (hnone : c.ret = none) (hrlen : c.rlen = 0)
    (hret : a.ret 1 = 1) (hb : a.bytes 1 = [b]) :
    (bufStep 1 c a).ret = some 1 ∧ (bufStep 1 c a).base = c.base ∧
      (bufStep 1 c a).rlen = 1 ∧ (bufStep 1 c a).buf.mem c.base = b := by
  obtain ⟨tries, hturn⟩ := bufStep_turn hnone hrlen hret (by decide)
    (fun h => absurd h (by decide))
  have hone : (ReadCall.advance { c.store a 1 with ntries := tries } 1).rlen = 1 :=
    congrArg (· + 1) hrlen
  have hplace : c.place = c.base := by rw [ReadCall.place, hrlen, add_zero]
  rw [hturn, bufTest, if_neg (by rw [hone]; decide), hone]
  refine ⟨rfl, rfl, hone, ?_⟩
  simp [ReadCall.returns, ReadCall.advance, ReadCall.store, Filling.moveTo, Filling.store, hb,
    hplace]

/-- The search for the first character. -/
theorem Good.stepFirst {b_len vTime : Int} (h : s.Good e) (hnone : s.ret = none)
    (hch : s.ch = none) (ha : ReadSome s.call a) : (s.step b_len vTime e a).Good e := by
  obtain ⟨hcall, hret, hstands⟩ := h.2 hnone
  rw [Stands, hch] at hstands
  obtain ⟨hbase, htl⟩ := hstands
  have hgood : (endStep b_len e.first s.call a).Good := hcall.endStep ha
  have hb : (endStep b_len e.first s.call a).base = 0 := (ReadCall.endStep_base _ _ _ _).trans hbase
  unfold Search.step
  rw [hnone, Option.isSome_none, if_neg Bool.false_ne_true, hch]
  dsimp only
  generalize endStep b_len e.first s.call a = call at hgood hb
  cases hr : call.ret with
  | none =>
    dsimp only
    have hst : Stands e ⟨call, s.tl, none, none⟩ := ⟨hb, htl⟩
    exact .running rfl hgood hr hst
  | some r =>
    dsimp only
    split
    · rename_i hneg
      exact .fails hgood.upto.clean rfl hneg
    · rename_i hpos
      have hrlen : r = call.rlen := (hgood.returned r hr).resolve_left hpos
      have hbuf : call.buf.Upto (s.tl + r) (s.tl + r) := by
        have hplace : call.place = s.tl + r := by rw [ReadCall.place, hb, htl, hrlen]
        rw [← hplace]
        exact hgood.upto
      have h0 : 0 ≤ s.tl + r := by omega
      cases hrest : e.rest with
      | nil => exact .found hbuf rfl
      | cons c cs =>
        exact .goesOn (s := ⟨call, s.tl + r, some (c :: cs), none⟩) rfl hbuf h0 rfl hrest

/-- The search for the rest of the end string, when it is one character and comes next. -/
theorem Good.stepRest {b_len vTime : Int} {chs : List Byte} (h : s.Good e) (hnone : s.ret = none)
    (hch : s.ch = some chs)
    (ha : (a.ret 1 = 0 ∧ s.call.ntries ≠ 0) ∨ (a.ret 1 = 1 ∧ chs = a.bytes 1)) :
    (s.step b_len vTime e a).Good e := by
  obtain ⟨hcall, hret, hstands⟩ := h.2 hnone
  have hst := hstands
  rw [Stands, hch] at hstands
  obtain ⟨hrest, hne, hbase, hrlen⟩ := hstands
  have hintr : a ≠ .eintr := by
    rintro rfl
    rcases ha with ⟨hzero, -⟩ | ⟨hone, -⟩
    · exact absurd (show (-1 : Int) = 0 from hzero) (by decide)
    · exact absurd (show (-1 : Int) = 1 from hone) (by decide)
  have hgood : (bufStep 1 s.call a).Good := hcall.bufStep (Or.inr hintr)
  unfold Search.step
  rw [hnone, Option.isSome_none, if_neg Bool.false_ne_true, hch]
  dsimp only
  rcases ha with ⟨hzero, htries⟩ | ⟨hone, hbytes⟩
  · obtain ⟨hr, hl, hb⟩ := bufStep_none hret hrlen hzero htries
    rw [hr]
    dsimp only
    have hst : Stands e ⟨bufStep 1 s.call a, s.tl, some chs, none⟩ :=
      ⟨hrest, hne, hb.trans hbase, hl⟩
    exact .running rfl hgood hr hst
  · obtain ⟨b, hb⟩ : ∃ b, a.bytes 1 = [b] := by
      have hlen := ReadCall.ret_eq_length (le_of_le_of_eq (by decide) hone.symm)
      rw [hone] at hlen
      exact List.length_eq_one_iff.mp (by omega)
    obtain ⟨hr, hbs, hl, hmem⟩ := bufStep_one hret hrlen hone hb
    rw [hr]
    dsimp only
    have hcut : e.rest = [b] := by rw [← hrest, hbytes, hb]
    have hbuf : (bufStep 1 s.call a).buf.Upto (s.tl + 1) (s.tl + 1) := by
      have hplace : (bufStep 1 s.call a).place = s.tl + 1 := by
        rw [ReadCall.place, hbs, hl, hbase]
      rw [← hplace]
      exact hgood.upto
    have h0 : 0 ≤ s.tl := hbase ▸ hcall.base_nonneg
    have htest := hbuf.test h0 (Int.lt_succ s.tl)
    unfold Search.compare
    dsimp only
    rw [if_pos (rfl : (1 : Int) = 1), hbs, hbase]
    have hsame : chs.head? = some (((bufStep 1 s.call a).buf.test s.tl).mem s.tl) := by
      rw [hbytes, hb, ← hbase]
      exact congrArg some hmem.symm
    rw [if_pos hsame, hbytes, hb]
    exact .found htest rfl

theorem Good.step {b_len vTime : Int} (h : s.Good e) (ha : SearchPlain s a) :
    (s.step b_len vTime e a).Good e := by
  by_cases hrun : s.ret.isSome
  · have hdone : s.step b_len vTime e a = s := if_pos hrun
    rw [hdone]
    exact h
  · have hnone : s.ret = none := Option.not_isSome_iff_eq_none.mp hrun
    have hplain := ha.resolve_left hrun
    cases hch : s.ch with
    | none =>
      rw [hch] at hplain
      exact h.stepFirst hnone hch hplain
    | some chs =>
      rw [hch] at hplain
      exact h.stepRest hnone hch hplain

theorem Good.start (connected : Bool) (mem : Int → Byte) (vTime b_len : Int)
    (e : EndString) : (Search.start connected mem vTime b_len e).Good e := by
  have henter : ReadCall.Good (.enter ⟨mem, []⟩ 0 vTime) := .enter le_rfl (.start mem 0) vTime
  unfold Search.start
  dsimp only
  split
  · exact .fails henter.upto.clean rfl (by decide)
  split
  · exact .fails henter.upto.clean rfl (by decide)
  · rename_i hspace
    have hpos : (0 : Int) < b_len := by
      have hlen : e.strlen = 1 + e.rest.length := rfl
      omega
    have hloop : endTest b_len (.enter ⟨mem, []⟩ 0 vTime) = .enter ⟨mem, []⟩ 0 vTime :=
      if_pos hpos
    rw [hloop]
    have hstands : Stands e ⟨.enter ⟨mem, []⟩ 0 vTime, 0, none, none⟩ := ⟨rfl, rfl⟩
    exact .running rfl henter rfl hstands

end Search

/-! ## Whole calls -/

instance WriteWhole.decidable (wbuf : List Byte) (w : Writing) :
    ∀ a, Decidable (WriteWhole wbuf w a)
  | .takes n => inferInstanceAs (Decidable (w.ret.isSome = true ∨ n = 0 ∨ wbuf.length ≤ n))
  | .eintr => inferInstanceAs (Decidable (w.ret.isSome = true ∨ False))
  | .failed => inferInstanceAs (Decidable (w.ret.isSome = true ∨ True))

instance ReadWhole.decidable (s : ReadCall) (a : PortRead) : Decidable (ReadWhole s a) :=
  inferInstanceAs (Decidable (s.ret.isSome = true ∨ a ≠ .eintr))

instance ReadSome.decidable (s : ReadCall) (a : PortRead) : Decidable (ReadSome s a) :=
  inferInstanceAs (Decidable (s.ret.isSome = true ∨ (a ≠ .eintr ∧ (a.ret 1 = 0 → s.ntries = 0))))

instance SearchPlain.decidable : ∀ (s : Search) (a : PortRead), Decidable (SearchPlain s a)
  | ⟨call, _, none, ret⟩, a =>
    inferInstanceAs (Decidable (ret.isSome = true ∨ ReadSome call a))
  | ⟨call, _, some chs, ret⟩, a =>
    inferInstanceAs (Decidable (ret.isSome = true ∨
      ((a.ret 1 = 0 ∧ call.ntries ≠ 0) ∨ (a.ret 1 = 1 ∧ chs = a.bytes 1))))

/-- On answers that are whole in the sense of each loop, `writePort` returns success
only with the buffer sent, and every `readPort` is right about what it read. -/
theorem portCalls_right (connected : Bool) (wbuf : List Byte) (mem : Int → Byte)
    (vTime b_len : Int) (endChar : Byte) (e : EndString)
    (written : List PortWrite) (char buf upTo found : List PortRead)
    (hwritten : Along (writePortStep wbuf) (WriteWhole wbuf) (writePort connected wbuf) written)
    (hchar : Along charStep ReadWhole (readPort connected mem vTime charTest) char)
    (hbuf : Along (bufStep b_len) ReadWhole (readPort connected mem vTime (bufTest b_len)) buf)
    (hupTo : Along (endStep b_len endChar) ReadSome
      (readPort connected mem vTime (endTest b_len)) upTo)
    (hfound : Along (Search.step b_len vTime e) SearchPlain
      (Search.start connected mem vTime b_len e) found) :
    ((run (writePortStep wbuf) (writePort connected wbuf) written).ret = some 0 →
      (run (writePortStep wbuf) (writePort connected wbuf) written).sent = wbuf) ∧
    (run charStep (readPort connected mem vTime charTest) char).Right ∧
    (run (bufStep b_len) (readPort connected mem vTime (bufTest b_len)) buf).Right ∧
    (run (endStep b_len endChar) (readPort connected mem vTime (endTest b_len)) upTo).Right ∧
    (run (Search.step b_len vTime e) (Search.start connected mem vTime b_len e) found).Right
      e := by
  refine ⟨?_, ?_, ?_, ?_, ?_⟩
  · exact (hwritten.invariant (Writing.Good.start connected wbuf) fun _ _ h ha => h.step ha).2
  · exact ReadCall.char_right hchar
  · exact ReadCall.buf_right hbuf
  · exact ReadCall.end_right hupTo
  · exact (hfound.invariant (Search.Good.start connected mem vTime b_len e)
      fun _ _ h ha => h.step ha).1

theorem portCalls_right_whole :
    ((run (writePortStep [65, 66]) (writePort true [65, 66]) [.takes 2]).ret = some 0 →
      (run (writePortStep [65, 66]) (writePort true [65, 66]) [.takes 2]).sent = [65, 66]) ∧
    (run charStep (readPort true (fun _ => 0) 100 charTest) [.got [], .got [67]]).Right ∧
    (run (bufStep 3) (readPort true (fun _ => 0) 100 (bufTest 3)) [.got [67, 68], .got [],
      .got [69]]).Right ∧
    (run (endStep 3 10) (readPort true (fun _ => 0) 100 (endTest 3)) [.got [67], .got [10]]).Right ∧
    (run (Search.step 3 100 ⟨13, [10]⟩) (Search.start true (fun _ => 0) 100 3 ⟨13, [10]⟩)
      [.got [67], .got [13], .got [], .got [10]]).Right ⟨13, [10]⟩ :=
  portCalls_right true [65, 66] (fun _ => 0) 100 3 10 ⟨13, [10]⟩ [.takes 2] [.got [], .got [67]]
    [.got [67, 68], .got [], .got [69]] [.got [67], .got [10]]
    [.got [67], .got [13], .got [], .got [10]]
    (by decide) (by decide) (by decide) (by decide) (by decide)

/-- Two short writes send the first byte twice. An interrupted `read` is returned as a
byte, or moves the index back; a zero length makes the loop look at what the buffer held
before. A byte in between the characters of the end string moves the index back, too. -/
theorem portCalls_slip :
    ((run (writePortStep [65, 66]) (writePort true [65, 66]) [.takes 1, .takes 1]).ret = some 0 ∧
      (run (writePortStep [65, 66]) (writePort true [65, 66]) [.takes 1, .takes 1]).sent ≠
        [65, 66]) ∧
    ((run charStep (readPort true (fun _ => 0) 100 charTest) [.eintr]).ret = some 1 ∧
      lastStored (run charStep (readPort true (fun _ => 0) 100 charTest) [.eintr]).buf.trace 0 =
        none) ∧
    ¬ Clean (run (bufStep 3) (readPort true (fun _ => 0) 100 (bufTest 3))
      [.got [67], .eintr]).buf.trace ∧
    ¬ Clean (run (endStep 3 10) (readPort true (fun _ => 0) 100 (endTest 3))
      [.got []]).buf.trace ∧
    ¬ Clean (run (Search.step 4 100 ⟨13, [10]⟩)
      (Search.start true (fun _ => 0) 100 4 ⟨13, [10]⟩)
      [.got [13], .got [67]]).call.buf.trace := by
  decide

end Rts2.Connection

import Rts2.Connection.ChannelUse
import Rts2.Connection.OneLine
import Rts2.Connection.SendBinary

/-! # An image from one connection to another

The sender declares the channels and sends their data piece by piece; the receiver
counts down what is missing and hands the image over when nothing is. It erases the
data connection then, and looks for it only when a header comes: an image of which
nothing is missing from the start waits for one, and a header too many finds nothing. -/
namespace Rts2.Connection
open Rts2.Lib

/-! ## The lines -/

theorem paramNextInteger_printed {n : Int} (hl : -2 ^ 31 ≤ n) (hu : n < 2 ^ 31)
    (tail : List Byte) (htail : ∀ b ∈ tail.head?, isspace b = true) :
    paramNextInteger (decimal n ++ tail) = some (n, tail.drop 1) := by
  have hrange : clampLong n = n := clampLong_of_mem (by omega) (by omega)
  have hint : toInt32 n = n := Int.bmod_eq_of_le (by omega) (by omega)
  unfold paramNextInteger
  rw [paramNumber_decimal _ (by simp) htail, hrange]
  simp [hint]

theorem sizeParam_head (chansize : List Nat) :
    ∀ b ∈ (chansize.flatMap sizeParam).head?, isspace b = true := by
  intro b hb
  cases chansize with
  | nil => cases hb
  | cons size chansize =>
    obtain rfl : (32 : Byte) = b := Option.some.inj hb
    rfl

theorem readSizes_printed {chansize : List Nat} (h : ∀ size ∈ chansize, size < 2 ^ 63) :
    readSizes chansize.length ((chansize.flatMap sizeParam).drop 1) =
      some (chansize.map Int.ofNat, []) := by
  induction chansize with
  | nil => rfl
  | cons size chansize ih =>
    have hsize := h size List.mem_cons_self
    have hrest := ih fun x hx => h x (List.mem_cons_of_mem _ hx)
    have hnext : paramNumber (decimal size ++ chansize.flatMap sizeParam) [comma] = _ :=
      paramNumber_decimal (size : Int) (by simp) (sizeParam_head chansize)
    rw [clampLong_of_mem (by omega) (by omega)] at hnext
    have hdrop : ((size :: chansize).flatMap sizeParam).drop 1 =
        decimal size ++ chansize.flatMap sizeParam := rfl
    simp only [List.length_cons, hdrop, readSizes, paramNextLong, hnext, hrest]
    rfl

/-- The channels a `C` line declares. -/
def newChannels (dataType : Int) (chansize : List Nat) : List DataRead :=
  chansize.map fun size => DataRead.new size dataType

theorem canAllocate_sizes {chansize : List Nat} (htotal : chansize.sum < 2 ^ 63) :
    canAllocate (chansize.map Int.ofNat) = true := by
  have hsum : ((chansize.map Int.ofNat).sum : Int) = chansize.sum := by
    induction chansize with
    | nil => rfl
    | cons size chansize ih =>
      rw [List.sum_cons] at htotal
      rw [List.map_cons, List.sum_cons, List.sum_cons, ih (by omega)]
      rfl
  have hall : (chansize.map Int.ofNat).all (0 ≤ ·) = true := by
    rw [List.all_map]
    exact List.all_eq_true.mpr fun size _ => decide_eq_true (Int.natCast_nonneg size)
  have hfits : decide ((chansize.map Int.ofNat).sum < 2 ^ 63) = true := by
    rw [hsum]
    exact decide_eq_true (by omega)
  rw [canAllocate, hall, hfits]
  rfl

theorem initFromConnection_printed {dataType : Int32} {chansize : List Nat}
    (hnum : chansize.length < 2 ^ 31) (htotal : chansize.sum < 2 ^ 63) :
    initFromConnection (decimal dataType.toInt ++ 32 :: (decimal chansize.length ++
        chansize.flatMap sizeParam)) =
      some (newChannels dataType.toInt chansize) := by
  have hsizes : ∀ size ∈ chansize, size < 2 ^ 63 := fun size hsize =>
    lt_of_le_of_lt (List.single_le_sum (fun _ _ => Nat.zero_le _) _ hsize) htotal
  have htype := paramNextInteger_decimal dataType
    (32 :: (decimal chansize.length ++ chansize.flatMap sizeParam)) (by rintro b ⟨⟩; rfl)
  have hnumber := paramNextInteger_printed (n := chansize.length) (by omega) (by omega)
    (chansize.flatMap sizeParam) (sizeParam_head chansize)
  have hread := readSizes_printed hsizes
  unfold initFromConnection
  simp only [htype, List.drop_succ_cons, List.drop_zero, hnumber, Int.toNat_natCast, hread,
    canAllocate_sizes htotal, Bool.true_and]
  simp [newChannels, paramEnd, skipSpace]

/-- The state in which a `C` line leaves the connection. -/
def Recv.declare (s : Recv) (conn dataType : Int) (chansize : List Nat) : Recv :=
  { s.setChannels conn (some (.data (newChannels dataType chansize))) with
    lines := s.lines ++ [binaryLine conn dataType chansize] }

/-- **A `C` line** declares the channels it was printed from. -/
theorem processLine_binaryLine {h : Handlers} {s : Recv} {conn : Int} (hl : 0 ≤ conn)
    (hu : conn < 2 ^ 31) (dataType : Int32) {chansize : List Nat}
    (hnum : chansize.length < 2 ^ 31) (htotal : chansize.sum < 2 ^ 63) :
    s.processLine h (binaryLine conn dataType.toInt chansize) =
      s.declare conn dataType.toInt chansize := by
  have hconn := paramNextInteger_printed (n := conn) (by omega) hu
    (32 :: (decimal dataType.toInt ++ 32 :: (decimal chansize.length ++
      chansize.flatMap sizeParam))) (by rintro b ⟨⟩; rfl)
  rw [processLine_binary h s (show commandOf (binaryLine conn dataType.toInt chansize) = _ from rfl),
    show paramsOf (binaryLine conn dataType.toInt chansize) =
      decimal conn ++ 32 :: (decimal dataType.toInt ++ 32 :: (decimal chansize.length ++
        chansize.flatMap sizeParam)) from rfl, Recv.lineBinary]
  simp only [hconn, List.drop_succ_cons, List.drop_zero, initFromConnection_printed hnum htotal]
  rfl

/-! ## Headers -/

section
variable {h : Handlers} {s : Recv} {conn : Int} {chan size : Nat}

theorem paramNextSSizeT_printed (hsize : size < 2 ^ 63) :
    paramNextSSizeT (decimal size) = some ((size : Int), []) := by
  have hnext : paramNumber (decimal size ++ []) [] = _ :=
    paramNumber_decimal (size : Int) (by simp) (by simp)
  rw [clampLong_of_mem (by omega) (by omega), List.append_nil] at hnext
  exact hnext

/-- A channel of which a chunk is announced. -/
def DataRead.announce (d : DataRead) (size : Nat) : DataRead :=
  { d with binaryReadChunkSize := size }

/-- The state in which a `D` line leaves the connection. -/
def Recv.announce (s : Recv) (conn : Int) (chan size : Nat) (channels : List DataRead)
    (d : DataRead) : Recv :=
  { s.setChannels conn (some (.data (channels.set chan (d.announce size)))) with
    lines := s.lines ++ [dataLine conn chan size]
    activeReadData := conn
    activeReadChannel := chan
    headers := s.headers ++ [{ chunk := size, rest := d.binaryReadDataSize }] }

/-- **A `D` line** opens the chunk it was printed for, if its data connection is there. -/
theorem processLine_dataLine (hl : 0 ≤ conn) (hu : conn < 2 ^ 31) (hchan : chan < 2 ^ 31)
    (hsize : size < 2 ^ 63) :
    (∀ {channels : List DataRead} {d : DataRead}, s.readChannels conn = some (.data channels) →
      channels[chan]? = some d →
      s.processLine h (dataLine conn chan size) = s.announce conn chan size channels d) ∧
    (s.readChannels conn = none → (s.processLine h (dataLine conn chan size)).crashed = true) := by
  have hconn := paramNextInteger_printed (n := conn) (by omega) hu
    (32 :: (decimal chan ++ 32 :: decimal size)) (by rintro b ⟨⟩; rfl)
  have hnext := paramNextInteger_printed (n := chan) (by omega) (by omega)
    (32 :: decimal size) (by rintro b ⟨⟩; rfl)
  have hend : paramEnd [] = true := rfl
  rw [processLine_data h s (show commandOf (dataLine conn chan size) = _ from rfl),
    show paramsOf (dataLine conn chan size) =
      decimal conn ++ 32 :: (decimal chan ++ 32 :: decimal size) from rfl, Recv.lineData]
  simp only [hconn, List.drop_succ_cons, List.drop_zero, hnext]
  refine ⟨fun {channels d} hread hat => ?_, fun hnone => ?_⟩
  · have hchannel : atIdx channels (chan : Int) = some d := by
      rw [atIdx, if_neg (by omega), Int.toNat_natCast, hat]
    simp only [hread, hchannel, paramNextSSizeT_printed hsize, hend, if_true]
    rfl
  · simp only [hnone]
    rfl

end

theorem noLineEnd_decimal (n : Int) : NoLineEnd (decimal n) := by
  intro b hb
  obtain ⟨hspace, -⟩ := (decimal_word n).2.2 b hb
  have hcase : b = 45 ∨ b ∈ decimalNat n.natAbs := by
    unfold decimal at hb
    split at hb
    · exact List.mem_cons.mp hb
    · exact .inr hb
  refine ⟨?_, ?_, ?_⟩
  · rcases hcase with rfl | hdigit
    · decide
    · rintro rfl
      exact absurd (isdigit_decimalNat _ _ hdigit) (by decide)
  · rintro rfl
    cases hspace
  · rintro rfl
    cases hspace

theorem noLineEnd_space {text : List Byte} (h : NoLineEnd text) : NoLineEnd (32 :: text) :=
  List.forall_mem_cons.mpr ⟨by decide, h⟩

theorem noLineEnd_append {text text' : List Byte} (h : NoLineEnd text) (h' : NoLineEnd text') :
    NoLineEnd (text ++ text') :=
  List.forall_mem_append.mpr ⟨h, h'⟩

theorem noLineEnd_binaryLine (conn dataType : Int) (chansize : List Nat) :
    NoLineEnd (binaryLine conn dataType chansize) := by
  have hsizes : NoLineEnd (chansize.flatMap sizeParam) := by
    intro b hb
    obtain ⟨size, -, hb⟩ := List.mem_flatMap.mp hb
    exact noLineEnd_space (noLineEnd_decimal _) b hb
  have htail := noLineEnd_space (noLineEnd_append (noLineEnd_decimal chansize.length) hsizes)
  have hparams := noLineEnd_space (noLineEnd_append (noLineEnd_decimal dataType) htail)
  exact List.forall_mem_cons.mpr
    ⟨by decide, noLineEnd_space (noLineEnd_append (noLineEnd_decimal conn) hparams)⟩

theorem noLineEnd_dataLine (conn : Int) (chan size : Nat) :
    NoLineEnd (dataLine conn chan size) := by
  have hsize := noLineEnd_space (noLineEnd_decimal size)
  have hchan := noLineEnd_space (noLineEnd_append (noLineEnd_decimal chan) hsize)
  exact List.forall_mem_cons.mpr
    ⟨by decide, noLineEnd_space (noLineEnd_append (noLineEnd_decimal conn) hchan)⟩

/-! ## Pieces -/

/-- A call of `sendBinaryData`, and what the socket does with its header and its data. -/
structure Call where
  chan : Nat
  data : List Byte
  header : List Answer
  answers : List Answer

/-- What the call leaves to be sent. -/
def Call.leaves (rest : List Nat) (c : Call) : List Nat := takeOff rest c.chan c.data.length

/-- What the channels hold after the call. -/
def Call.put (contents : List (List Byte)) (c : Call) : List (List Byte) :=
  contents.modify c.chan (· ++ c.data)

/-- The call names a channel and stays within what is left of it. -/
def Call.Within (rest : List Nat) (c : Call) : Prop :=
  c.chan < rest.length ∧ c.data.length ≤ rest.getD c.chan 0

instance (rest : List Nat) (c : Call) : Decidable (c.Within rest) :=
  inferInstanceAs (Decidable (_ ∧ _))

/-- What the call puts into the stream. -/
def Call.item (conn : Int) (c : Call) : Item := ⟨dataLine conn c.chan c.data.length, false, c.data⟩

/-- What the channels of the receiver miss and hold. -/
structure Held (rest : List Nat) (contents : List (List Byte)) (channels : List DataRead) :
    Prop where
  rest : channels.map DataRead.binaryReadDataSize = rest
  bytes : channels.map DataRead.bytes = contents

theorem map_set_eq_modify {α β : Type} {f : α → β} {g : β → β} {l : List α} {i : Nat} {a b : α}
    (hat : l[i]? = some a) (hb : f b = g (f a)) : (l.set i b).map f = (l.map f).modify i g := by
  induction l generalizing i with
  | nil => simp at hat
  | cons x l ih =>
    cases i with
    | zero =>
      obtain rfl : x = a := by simpa using hat
      simp [hb]
    | succ i =>
      have hl : l[i]? = some a := by simpa using hat
      simp [ih hl]

/-- Data within what is left of a channel is what `store` adds to it. -/
theorem Held.store {rest : List Nat} {contents : List (List Byte)} {channels : List DataRead}
    (h : Held rest contents channels) {c : Call} {d : DataRead} (hat : channels[c.chan]? = some d)
    (hlen : c.data.length ≤ d.binaryReadDataSize) (hsize : d.binaryReadDataSize < 2 ^ 64) :
    Held (c.leaves rest) (c.put contents)
      (channels.set c.chan ((d.announce c.data.length).store c.data)) := by
  refine ⟨?_, ?_⟩
  · rw [map_set_eq_modify (g := (· - c.data.length)) hat (sizeSub_of_le hlen hsize), h.rest]
    rfl
  · rw [map_set_eq_modify (g := (· ++ c.data)) hat rfl, h.bytes]
    rfl

/-! ## Receiving -/

/-- A data connection within its image: what its channels miss and hold. `old` is the
connection before the image. -/
structure Receiving (conn : Int) (old : Recv) (rest : List Nat) (contents : List (List Byte))
    (s : Recv) : Prop where
  idle : Idle s
  alive : s.crashed = false
  isOpen : s.isOpen = old.isOpen
  full : s.full = old.full
  held : ∃ channels, s.readChannels conn = some (.data channels) ∧ Held rest contents channels

/-- The image was handed to `fullDataReceived`, once and as it was sent; its data
connection is gone, and what comes is read as lines. -/
structure Received (conn : Int) (old : Recv) (contents : List (List Byte)) (s : Recv) : Prop where
  alive : s.crashed = false
  isOpen : s.isOpen = old.isOpen
  closed : s.activeReadData < 0
  gone : s.readChannels conn = none
  full : ∃ channels, s.full = old.full ++ [(conn, .data channels)] ∧
    channels.map DataRead.bytes = contents

section
variable {h : Handlers} {s old : Recv} {conn : Int} {rest : List Nat} {contents : List (List Byte)}

/-- What a connection misses is below `2^63`. -/
theorem Receiving.total (hrec : Receiving conn old rest contents s) : rest.sum < 2 ^ 63 := by
  obtain ⟨channels, hread, hheld⟩ := hrec.held
  have hfit := hrec.idle.bounded.fit.channels conn channels hread
  have hle : (channels.map DataRead.binaryReadDataSize).sum ≤ (channels.map DataRead.size).sum := by
    refine List.sum_le_sum fun d hd => ?_
    have hfits : d.bytes.length + d.binaryReadDataSize = d.size := hfit.fits d hd
    omega
  have htotal := hfit.total
  rw [hheld.rest] at hle
  omega

/-- The chunk a `D` line has opened. -/
theorem announce_chunk (s : Recv) (conn : Int) {chan : Nat} (size : Nat) {channels : List DataRead}
    {d : DataRead} (hat : channels[chan]? = some d) (hlen : size ≤ d.binaryReadDataSize) :
    OpenChunk (s.announce conn chan size channels d) 0 (channels.set chan (d.announce size))
      (d.announce size) := by
  have hchannel : atIdx channels (chan : Int) = some d := by
    rw [atIdx, if_neg (by omega), Int.toNat_natCast, hat]
  have hset : atIdx (channels.set chan (d.announce size)) (chan : Int) =
      some (d.announce size) := atIdx_set hchannel _
  refine ⟨?_, Int.natCast_nonneg _, ?_⟩
  · simp [Recv.activeChannel, Recv.announce, Recv.setChannels, hset]
  · show (size : Int) ≤ d.binaryReadDataSize
    omega

/-- A payload of the length of the open chunk is stored, and the chunk is closed. -/
theorem deliver_chunk {it : Item} {s' : Recv} (hline : s.deliverLine h it = s')
    (hc : s'.crashed = false) (hactive : 0 ≤ s'.activeReadData) {channels : List DataRead}
    {d : DataRead} (hopen : OpenChunk s' 0 channels d)
    (hlen : d.binaryReadChunkSize = it.payload.length) :
    s'.announced it.payload = true ∧
      s.deliver h it = (s'.storeActive channels d it.payload).dataReceived := by
  have hlive : ¬ (s'.crashed = true ∨ s'.activeReadData < 0) := by
    rintro (hcrash | hclosed)
    · exact absurd (hc.symm.trans hcrash) (by decide)
    · exact absurd hactive (not_le.mpr hclosed)
  have hrest := hopen.rest
  refine ⟨?_, ?_⟩
  · rw [Recv.announced, if_neg (not_lt.mpr hactive), hopen.active]
    simp only [Bool.or_eq_true, decide_eq_true_eq]
    exact .inr ⟨hlen, by omega⟩
  · have hall : it.payload.take d.binaryReadChunkSize.toNat = it.payload :=
      List.take_of_length_le (by omega)
    rw [Recv.deliver, hline, if_neg hlive, takeData_eq hopen le_rfl, hall]

/-- A stored chunk is closed; with nothing missing the data connection ends. -/
theorem dataReceived_stored {channels : List DataRead} {d : DataRead}
    (hopen : OpenChunk s 0 channels d) (data : List Byte)
    (hlen : d.binaryReadChunkSize = data.length) :
    (s.storeActive channels d data).dataReceived =
      if restSize (channels.set s.activeReadChannel.toNat (d.store data)) = 0 then
        { (s.storeActive channels d data).endData s.activeReadData
            (.data (channels.set s.activeReadChannel.toNat (d.store data))) with
          activeReadData := -1 }
      else { s.storeActive channels d data with activeReadData := -1 } := by
  obtain ⟨-, hat⟩ := activeChannel_eq_some hopen.active
  have hread : (s.storeActive channels d data).readChannels s.activeReadData =
      some (.data (channels.set s.activeReadChannel.toNat (d.store data))) :=
    Function.update_self ..
  have hzero : (d.store data).binaryReadChunkSize = 0 := by simp [DataRead.store, hlen]
  unfold Recv.dataReceived
  rw [show (s.storeActive channels d data).activeReadData = s.activeReadData from rfl, hread]
  simp only [show (s.storeActive channels d data).activeReadChannel = s.activeReadChannel from rfl,
    atIdx_set hat, hzero, if_true]

/-- **A piece** goes into its channel; when nothing is missing any more the image is
handed over. -/
theorem Receiving.data (hl : 0 ≤ conn) (hu : conn < 2 ^ 31) (hnum : rest.length < 2 ^ 31)
    (hrec : Receiving conn old rest contents s) {c : Call} (hwithin : c.Within rest) :
    ItemOk h s (c.item conn) ∧
      (rest.sum ≤ c.data.length → Idle (s.deliver h (c.item conn)) ∧
        Received conn old (c.put contents) (s.deliver h (c.item conn))) ∧
      (c.data.length < rest.sum →
        Receiving conn old (c.leaves rest) (c.put contents) (s.deliver h (c.item conn))) := by
  have htotal := hrec.total
  obtain ⟨hidle, hc, hisOpen, hfull, channels, hread, hheld⟩ := hrec
  obtain ⟨hchan, hlen⟩ := hwithin
  obtain ⟨d, hat⟩ : ∃ d, channels[c.chan]? = some d := by
    have hcount : channels.length = rest.length := by rw [← hheld.rest, List.length_map]
    exact ⟨_, List.getElem?_eq_getElem (by omega)⟩
  have hrestChan : rest.getD c.chan 0 = d.binaryReadDataSize := by
    rw [← hheld.rest, List.getD_eq_getElem?_getD, List.getElem?_map, hat]
    rfl
  have hdle : d.binaryReadDataSize ≤ rest.sum := hrestChan ▸ getD_le_sum rest c.chan
  have hline : s.deliverLine h (c.item conn) =
      s.announce conn c.chan c.data.length channels d := by
    rw [Call.item, deliverLine_message hc (noLineEnd_dataLine _ _ _) (b := 68) rfl (by decide)]
    exact (processLine_dataLine hl hu (by omega) (by omega)).1 hread hat
  have hopen := announce_chunk s conn c.data.length hat (by omega)
  obtain ⟨hann, hdeliver⟩ := deliver_chunk hline hc hl hopen rfl
  have hok : ItemOk h s (c.item conn) := ⟨(noLineEnd_dataLine _ _ _).isText, hline ▸ hann⟩
  obtain ⟨-, -, hidle'⟩ := item_feed hidle hok
  have hheld' := hheld.store hat (by omega) (by omega)
  refine ⟨hok, ?_⟩
  have hchannels : (channels.set c.chan (d.announce c.data.length)).set
      (s.announce conn c.chan c.data.length channels d).activeReadChannel.toNat
      ((d.announce c.data.length).store c.data) =
        channels.set c.chan ((d.announce c.data.length).store c.data) := by
    show (channels.set c.chan _).set (c.chan : Int).toNat _ = _
    rw [Int.toNat_natCast, List.set_set]
  have hstored := hdeliver.trans (dataReceived_stored hopen c.data rfl)
  have hsum : (c.leaves rest).sum + c.data.length = rest.sum := takeOff_sum hlen
  have hmissing : restSize (channels.set c.chan ((d.announce c.data.length).store c.data)) =
      (c.leaves rest).sum := by
    rw [restSize, hheld'.rest, Nat.mod_eq_of_lt (by omega)]
  rw [hchannels, hmissing] at hstored
  refine ⟨fun hlast => ⟨hidle', ?_⟩, fun hmore => ?_⟩
  · rw [if_pos (by omega)] at hstored
    rw [hstored]
    refine ⟨hc, hisOpen, (by decide : (-1 : Int) < 0), Function.update_self .., ?_⟩
    refine ⟨_, ?_, hheld'.bytes⟩
    rw [← hfull]
    rfl
  · rw [if_neg (by omega)] at hstored
    refine ⟨hidle', ?_, ?_, ?_, _, ?_, hheld'⟩
    · rw [hstored]
      exact hc
    · rw [hstored]
      exact hisOpen
    · rw [hstored]
      exact hfull
    · rw [hstored, ← hchannels]
      exact Function.update_self ..

/-- **A header too many** finds no data connection. -/
theorem deliver_gone (hl : 0 ≤ conn) (hu : conn < 2 ^ 31) (hc : s.crashed = false)
    (hgone : s.readChannels conn = none) {c : Call} (hchan : c.chan < 2 ^ 31)
    (hlen : c.data.length < 2 ^ 63) :
    ItemOk h s (c.item conn) ∧ (s.deliver h (c.item conn)).crashed = true := by
  have hline : (s.deliverLine h (c.item conn)).crashed = true := by
    rw [Call.item, deliverLine_message hc (noLineEnd_dataLine _ _ _) (b := 68) rfl (by decide)]
    exact (processLine_dataLine hl hu hchan hlen).2 hgone
  refine ⟨⟨(noLineEnd_dataLine _ _ _).isText, ?_⟩, ?_⟩
  · rw [Recv.announced, hline, Bool.true_or]
  · rw [Recv.deliver, if_pos (.inl hline)]
    exact hline

theorem deliver_crashed (hc : s.crashed = true) (it : Item) (htext : IsText it.text) :
    ItemOk h s it ∧ s.deliver h it = s := by
  have hline : s.deliverLine h it = s := if_pos (.inl hc)
  refine ⟨⟨htext, ?_⟩, ?_⟩
  · rw [hline, Recv.announced, hc, Bool.true_or]
  · rw [Recv.deliver, hline, if_pos (.inl hc)]

/-- **The channels are declared.** -/
theorem deliver_binary (hl : 0 ≤ conn) (hu : conn < 2 ^ 31) (hidle : Idle s)
    (hc : s.crashed = false) (dataType : Int32) {chansize : List Nat}
    (hnum : chansize.length < 2 ^ 31) (htotal : chansize.sum < 2 ^ 63) :
    ItemOk h s ⟨binaryLine conn dataType.toInt chansize, false, []⟩ ∧
      Receiving conn s chansize (List.replicate chansize.length [])
        (s.deliver h ⟨binaryLine conn dataType.toInt chansize, false, []⟩) := by
  have hline : s.deliverLine h ⟨binaryLine conn dataType.toInt chansize, false, []⟩ =
      s.declare conn dataType.toInt chansize := by
    rw [deliverLine_message hc (noLineEnd_binaryLine _ _ _) (b := 67) rfl (by decide)]
    exact processLine_binaryLine hl hu dataType hnum htotal
  have hclosed : (s.declare conn dataType.toInt chansize).activeReadData < 0 := hidle.closed hc
  have hok : ItemOk h s ⟨binaryLine conn dataType.toInt chansize, false, []⟩ := by
    refine ⟨(noLineEnd_binaryLine _ _ _).isText, ?_⟩
    rw [hline, Recv.announced, if_pos hclosed]
    exact Bool.or_true _
  obtain ⟨-, -, hidle'⟩ := item_feed hidle hok
  have hdeliver : s.deliver h ⟨binaryLine conn dataType.toInt chansize, false, []⟩ =
      s.declare conn dataType.toInt chansize := by
    rw [Recv.deliver, hline, if_pos (.inr hclosed)]
  rw [hdeliver] at hidle' ⊢
  refine ⟨hok, hidle', hc, rfl, rfl, _, Function.update_self .., ?_, ?_⟩
  · simp [newChannels, DataRead.new, Function.comp_def]
  · simp [newChannels, DataRead.new, Function.comp_def, List.map_const']

/-! ## All pieces -/

/-- Nothing is missing after the last of the calls, and something after each before. -/
def lastCompletes : Nat → List Call → Bool
  | _, [] => false
  | missing, c :: calls =>
    if missing ≤ c.data.length then calls.isEmpty
    else lastCompletes (missing - c.data.length) calls

theorem run_deliver_crashed (hc : s.crashed = true) (conn : Int) (calls : List Call) :
    Along (Recv.deliver h) (ItemOk h) s (calls.map (Call.item conn)) ∧
      run (Recv.deliver h) s (calls.map (Call.item conn)) = s := by
  induction calls with
  | nil => exact ⟨trivial, rfl⟩
  | cons c calls ih =>
    obtain ⟨hok, hsame⟩ := deliver_crashed (h := h) hc (c.item conn)
      (noLineEnd_dataLine _ _ _).isText
    rw [List.map_cons, along_cons, run_cons, hsame]
    exact ⟨⟨hok, ih.1⟩, ih.2⟩

/-- **The calls of an image**: it is received if the last call completes it, and no
image is received otherwise. -/
theorem Receiving.run (hl : 0 ≤ conn) (hu : conn < 2 ^ 31) {calls : List Call}
    (hnum : rest.length < 2 ^ 31) (hrec : Receiving conn old rest contents s)
    (hwithin : Along Call.leaves (fun rest c => c.Within rest) rest calls) :
    Along (Recv.deliver h) (ItemOk h) s (calls.map (Call.item conn)) ∧
      (lastCompletes rest.sum calls = true →
        Received conn old (Lib.run Call.put contents calls)
          (Lib.run (Recv.deliver h) s (calls.map (Call.item conn)))) ∧
      ∀ contents', Received conn old contents'
          (Lib.run (Recv.deliver h) s (calls.map (Call.item conn))) →
        lastCompletes rest.sum calls = true := by
  induction calls generalizing s rest contents with
  | nil =>
    refine ⟨trivial, nofun, fun contents' hdone => ?_⟩
    obtain ⟨channels, hread, -⟩ := hrec.held
    exact absurd (hread.symm.trans hdone.gone) (by simp)
  | cons c calls ih =>
    obtain ⟨hc, hcalls⟩ := hwithin
    obtain ⟨hok, hlast, hmore⟩ := hrec.data (h := h) hl hu hnum hc
    have hlen : (c.leaves rest).length = rest.length := List.length_modify _ _ _
    have hsum : (c.leaves rest).sum + c.data.length = rest.sum := takeOff_sum hc.2
    rw [List.map_cons, along_cons, run_cons, run_cons, lastCompletes]
    split
    next hle =>
      obtain ⟨-, hdone⟩ := hlast hle
      cases calls with
      | nil => exact ⟨⟨hok, trivial⟩, fun _ => hdone, fun _ _ => rfl⟩
      | cons c' calls =>
        obtain ⟨⟨hchan, hdata⟩, -⟩ := hcalls
        have htotal := hrec.total
        have hleft := getD_le_sum (c.leaves rest) c'.chan
        -- the data connection is gone
        obtain ⟨hok', hcrash⟩ := deliver_gone (h := h) (c := c') hl hu hdone.alive hdone.gone
          (by omega) (by omega)
        obtain ⟨hoks, hsame⟩ := run_deliver_crashed (h := h) hcrash conn calls
        rw [List.map_cons, along_cons, run_cons (Recv.deliver h), hsame]
        refine ⟨⟨hok, hok', hoks⟩, nofun, fun contents' hreceived => ?_⟩
        exact absurd (hcrash.symm.trans hreceived.alive) (by decide)
    next hlt =>
      obtain ⟨hoks, hreceived⟩ := ih (by omega) (hmore (by omega)) hcalls
      rw [show rest.sum - c.data.length = (c.leaves rest).sum by omega]
      exact ⟨⟨hok, hoks⟩, hreceived⟩

end

end Rts2.Connection

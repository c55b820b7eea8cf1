import Rts2.Connection.Receive
import Mathlib.Algebra.Order.BigOperators.Group.List
import Mathlib.Algebra.Order.Ring.Nat

/-! # Data stays within its declared size

While every accepted `D` header announces at least nothing and at most what its
channel still misses, no store leaves a channel with more bytes than declared
and the counters of what remains stay exact. -/
namespace Rts2.Connection
open Rts2.Lib

/-! ## Channels -/

theorem atIdx_eq_some {α : Type} {l : List α} {i : Int} {a : α} (h : atIdx l i = some a) :
    l[i.toNat]? = some a := by
  unfold atIdx at h
  split at h
  · cases h
  · exact h

theorem atIdx_set {α : Type} {l : List α} {i : Int} {a : α} (h : atIdx l i = some a) (b : α) :
    atIdx (l.set i.toNat b) i = some b := by
  have hget := atIdx_eq_some h
  unfold atIdx at h ⊢
  split at h
  · cases h
  · rename_i hi
    obtain ⟨hlt, -⟩ := List.getElem?_eq_some_iff.1 hget
    rw [if_neg hi, List.getElem?_set_self hlt]

theorem mem_of_atIdx {α : Type} {l : List α} {i : Int} {a : α} (h : atIdx l i = some a) : a ∈ l :=
  List.mem_of_getElem? (atIdx_eq_some h)

/-- Channels that fit, in an address space that holds them. -/
structure ChannelsFit (channels : List DataRead) : Prop where
  fits : ∀ d ∈ channels, d.Fits
  total : (channels.map DataRead.size).sum < 2 ^ 63

theorem ChannelsFit.size_lt {channels : List DataRead} (h : ChannelsFit channels) {d : DataRead}
    (hd : d ∈ channels) : d.size < 2 ^ 63 := by
  have hle : d.size ≤ (channels.map DataRead.size).sum :=
    List.single_le_sum (fun _ _ => Nat.zero_le _) _ (List.mem_map_of_mem hd)
  exact lt_of_le_of_lt hle h.total

/-- A channel may be replaced by one of its size that fits. -/
theorem ChannelsFit.set {channels : List DataRead} (h : ChannelsFit channels) {i : Int}
    {d d' : DataRead} (hd : atIdx channels i = some d) (hsize : d'.size = d.size)
    (hfits : d'.Fits) : ChannelsFit (channels.set i.toNat d') where
  fits := by
    intro e he
    rcases List.mem_or_eq_of_mem_set he with he | rfl
    · exact h.fits e he
    · exact hfits
  total := by
    have hself : (channels.map DataRead.size).set i.toNat d'.size = channels.map DataRead.size := by
      apply List.ext_getElem?
      intro j
      rw [List.getElem?_set]
      split
      next hij =>
        subst hij
        rw [List.getElem?_map, atIdx_eq_some hd, hsize]
        obtain ⟨hlt, -⟩ := List.getElem?_eq_some_iff.1 (atIdx_eq_some hd)
        simp [hlt]
      next => rfl
    rw [List.map_set, hself]
    exact h.total

/-- What remains of all channels is no `size_t` overflow. -/
theorem ChannelsFit.restSize {channels : List DataRead} (h : ChannelsFit channels) :
    restSize channels = (channels.map DataRead.binaryReadDataSize).sum := by
  have hle : (channels.map DataRead.binaryReadDataSize).sum ≤
      (channels.map DataRead.size).sum := by
    refine List.sum_le_sum fun d hd => ?_
    have hfits : d.bytes.length + d.binaryReadDataSize = d.size := h.fits d hd
    omega
  have htotal := h.total
  rw [Connection.restSize, Nat.mod_eq_of_lt]
  omega

theorem ChannelsFit.restSize_pos {channels : List DataRead} (h : ChannelsFit channels)
    {d : DataRead} (hd : d ∈ channels) (hpos : 0 < d.binaryReadDataSize) :
    Connection.restSize channels ≠ 0 := by
  rw [h.restSize]
  have hle : d.binaryReadDataSize ≤ (channels.map DataRead.binaryReadDataSize).sum :=
    List.single_le_sum (fun _ _ => Nat.zero_le _) _ (List.mem_map_of_mem hd)
  omega

/-- Storing no more than what remains keeps the channel fitting. -/
theorem DataRead.store_fits {d : DataRead} (h : d.Fits) (hsize : d.size < 2 ^ 63)
    {data : List Byte} (hlen : data.length ≤ d.binaryReadDataSize) : (d.store data).Fits := by
  have hfits : d.bytes.length + d.binaryReadDataSize = d.size := h
  have hsub : sizeSub d.binaryReadDataSize data.length = d.binaryReadDataSize - data.length :=
    sizeSub_of_le hlen (by omega)
  simp only [DataRead.Fits, DataRead.store, hsub, List.length_append]
  omega

/-! ## States -/

/-- Every channel of the connection fits, and no store was over the mark. -/
structure Fit (s : Recv) : Prop where
  channels : ∀ conn channels, s.readChannels conn = some (.data channels) → ChannelsFit channels
  overran : s.overran = false

/-- The open chunk is at least `least` long and no longer than what its channel misses. -/
structure OpenChunk (s : Recv) (least : Int) (channels : List DataRead) (d : DataRead) : Prop where
  active : s.activeChannel = some (channels, d)
  least : least ≤ d.binaryReadChunkSize
  rest : d.binaryReadChunkSize ≤ d.binaryReadDataSize

/-- Between two reads: the channels fit, and an open chunk is not exhausted. -/
structure Bounded (s : Recv) : Prop where
  fit : Fit s
  chunk : s.crashed = false → 0 ≤ s.activeReadData → ∃ channels d, OpenChunk s 1 channels d

theorem Fit.congr {s s' : Recv} (h : Fit s) (hchan : s'.readChannels = s.readChannels)
    (hover : s'.overran = s.overran) : Fit s' :=
  ⟨by rw [hchan]; exact h.channels, by rw [hover]; exact h.overran⟩

theorem Fit.setChannels {s : Recv} (h : Fit s) (conn : Int) (channels : Option DataChannels)
    (hnew : ∀ l, channels = some (.data l) → ChannelsFit l) : Fit (s.setChannels conn channels) where
  channels := by
    intro k l hl
    simp only [Recv.setChannels, Function.update_apply] at hl
    split at hl
    · exact hnew l hl
    · exact h.channels k l hl
  overran := h.overran

theorem Fit.endData {s : Recv} (h : Fit s) (conn : Int) (channels : DataChannels) :
    Fit (s.endData conn channels) :=
  (h.setChannels conn none (by simp)).congr rfl rfl

theorem activeChannel_eq_some {s : Recv} {channels : List DataRead} {d : DataRead}
    (h : s.activeChannel = some (channels, d)) :
    s.readChannels s.activeReadData = some (.data channels) ∧
      atIdx channels s.activeReadChannel = some d := by
  unfold Recv.activeChannel at h
  split at h
  next l hl =>
    obtain ⟨e, he, heq⟩ := Option.map_eq_some_iff.1 h
    cases heq
    exact ⟨hl, he⟩
  next => cases h

/-- A state is bounded once no chunk is open. -/
theorem Fit.bounded {s : Recv} (h : Fit s) (hactive : s.crashed = true ∨ s.activeReadData < 0) :
    Bounded s := by
  refine ⟨h, fun hcrash hopen => ?_⟩
  rcases hactive with hc | hneg
  · rw [hc] at hcrash
    cases hcrash
  · omega

/-! ## Storing data -/

/-- `dataReceived` on a connection whose open chunk may be exhausted. -/
theorem Fit.dataReceived {s : Recv} (h : Fit s) {channels : List DataRead} {d : DataRead}
    (hopen : OpenChunk s 0 channels d) : Bounded s.dataReceived := by
  obtain ⟨hchan, hat⟩ := activeChannel_eq_some hopen.active
  have hend : Fit (s.endData s.activeReadData (.data channels)) := h.endData _ _
  simp only [Recv.dataReceived, hchan, hat]
  split
  · exact ⟨⟨hend.channels, hend.overran⟩, fun _ hactive => absurd hactive (by simp)⟩
  · split
    · exact ⟨⟨h.channels, h.overran⟩, fun _ hactive => absurd hactive (by simp)⟩
    · rename_i hne
      have hleast := hopen.least
      exact ⟨h, fun _ _ => ⟨channels, d, hopen.active, by omega, hopen.rest⟩⟩

/-- Bytes of the open chunk go into its channel. -/
theorem Fit.storeActive {s : Recv} (h : Fit s) {channels : List DataRead} {d : DataRead}
    {least : Int} (hopen : OpenChunk s least channels d) (data : List Byte)
    (hlen : (data.length : Int) ≤ d.binaryReadChunkSize) :
    Fit (s.storeActive channels d data) ∧
      OpenChunk (s.storeActive channels d data) 0
        (channels.set s.activeReadChannel.toNat (d.store data)) (d.store data) := by
  obtain ⟨hchan, hat⟩ := activeChannel_eq_some hopen.active
  have hcf := h.channels _ _ hchan
  have hmem := mem_of_atIdx hat
  have hrest := hopen.rest
  have hsize := hcf.size_lt hmem
  have hfits : d.bytes.length + d.binaryReadDataSize = d.size := hcf.fits d hmem
  have hstore : (d.store data).Fits := DataRead.store_fits (hcf.fits d hmem) hsize (by omega)
  refine ⟨⟨?_, ?_⟩, ?_, ?_, ?_⟩
  · exact (h.setChannels _ _ (fun l hl => by cases hl; exact hcf.set hat rfl hstore)).channels
  · simp [Recv.storeActive, h.overran, hstore]
  · simp [Recv.activeChannel, Recv.storeActive, Recv.setChannels, atIdx_set hat]
  · simp only [DataRead.store]
    omega
  · have hsub : sizeSub d.binaryReadDataSize data.length = d.binaryReadDataSize - data.length :=
      sizeSub_of_le (by omega) (by omega)
    simp only [DataRead.store, hsub]
    omega

theorem DataRead.takes_toNat {d : DataRead} (h : 0 ≤ d.binaryReadChunkSize) (n : Nat) :
    0 ≤ d.takes n ∧ (d.takes n).toNat = min n d.binaryReadChunkSize.toNat := by
  unfold DataRead.takes
  split <;> omega

/-- `takeData` on an open chunk: it takes what there is, at most the chunk. -/
theorem takeData_eq {s : Recv} {channels : List DataRead} {d : DataRead} {least : Int}
    (hopen : OpenChunk s least channels d) (hleast : 0 ≤ least) (data : List Byte) :
    s.takeData data =
      ((s.storeActive channels d (data.take d.binaryReadChunkSize.toNat)).dataReceived,
        min data.length d.binaryReadChunkSize.toNat) := by
  obtain ⟨hnonneg, hmin⟩ := DataRead.takes_toNat (le_trans hleast hopen.least) data.length
  have htake : data.take (min data.length d.binaryReadChunkSize.toNat) =
      data.take d.binaryReadChunkSize.toNat := by
    rw [min_comm, ← List.take_take, List.take_length]
  simp only [Recv.takeData, hopen.active, if_neg (Int.not_lt.2 hnonneg), hmin, htake]

/-- An exhausted chunk is closed by `dataReceived`. -/
theorem dataReceived_exhausted {s : Recv} {channels : List DataRead} {d : DataRead}
    (h : s.activeChannel = some (channels, d)) (hzero : d.binaryReadChunkSize = 0) :
    s.dataReceived.activeReadData = -1 := by
  obtain ⟨hchan, hat⟩ := activeChannel_eq_some h
  simp only [Recv.dataReceived, hchan, hat, hzero, if_true]
  split <;> rfl

/-- The bytes behind a header go into its channel; the chunk stays open only when
all bytes were taken. -/
theorem Fit.takeData {s : Recv} (h : Fit s) {channels : List DataRead} {d : DataRead}
    (hopen : OpenChunk s 0 channels d) (data : List Byte) :
    Bounded (s.takeData data).1 ∧
      (0 ≤ (s.takeData data).1.activeReadData → (s.takeData data).2 = data.length) := by
  have hleast := hopen.least
  have hlength : (data.take d.binaryReadChunkSize.toNat).length =
      min d.binaryReadChunkSize.toNat data.length := List.length_take
  obtain ⟨hfit, hopen'⟩ := h.storeActive hopen (data.take d.binaryReadChunkSize.toNat)
    (by rw [hlength]; omega)
  rw [takeData_eq hopen le_rfl]
  refine ⟨hfit.dataReceived hopen', fun hactive => ?_⟩
  by_contra hne
  have hless : d.binaryReadChunkSize.toNat < data.length := by
    dsimp only at hne
    omega
  have hclosed := dataReceived_exhausted hopen'.active (by
    simp only [DataRead.store, hlength]
    omega)
  dsimp only at hactive
  omega

/-! ## Lines -/

/-- The chunk of every header so far is at least empty and no longer than what
its channel missed. -/
def Respected (headers : List Header) : Prop :=
  ∀ header ∈ headers, 0 ≤ header.chunk ∧ header.chunk ≤ header.rest

instance (headers : List Header) : Decidable (Respected headers) :=
  inferInstanceAs (Decidable (∀ header ∈ headers, _))

/-- What a line leaves behind: an open chunk is one that a good header announced,
or it is of a shared segment and has no channel. -/
structure LineDone (s : Recv) : Prop where
  fit : Fit s
  chunk : Respected s.headers → s.crashed = false → 0 ≤ s.activeReadData →
    s.activeChannel = none ∨ ∃ channels d, OpenChunk s 0 channels d

theorem LineDone.of_closed {s : Recv} (hfit : Fit s) (h : s.activeReadData < 0) : LineDone s :=
  ⟨hfit, fun _ _ hopen => absurd hopen (by omega)⟩

theorem Fit.connectionError {s : Recv} (h : Fit s) : Fit s.connectionError :=
  h.congr rfl rfl

theorem LineDone.connectionError {s : Recv} (h : Fit s) : LineDone s.connectionError :=
  .of_closed h.connectionError (by simp [Recv.connectionError])

theorem LineDone.crash {s : Recv} (h : Fit s) : LineDone s.crash :=
  ⟨h.congr rfl rfl, fun _ hcrash => absurd hcrash (by simp [Recv.crash])⟩

/-- The declared sizes are kept when they are stored as `size_t`. -/
theorem sum_new_size {sizes : List Int} (hnonneg : ∀ size ∈ sizes, 0 ≤ size) (type : Int) :
    (((sizes.map fun size => DataRead.new size.toNat type).map DataRead.size).sum : Int) =
      sizes.sum := by
  induction sizes with
  | nil => rfl
  | cons size rest ih =>
    have hsize : 0 ≤ size := hnonneg size List.mem_cons_self
    have hrest := ih fun x hx => hnonneg x (List.mem_cons_of_mem _ hx)
    simp only [List.map_cons, List.sum_cons, DataRead.new] at hrest ⊢
    omega

/-- The channels a `C` line declares are empty. -/
theorem initFromConnection_fit {s : List Byte} {channels : List DataRead}
    (h : initFromConnection s = some channels) : ChannelsFit channels := by
  unfold initFromConnection at h
  split at h
  · cases h
  rename_i dataType _ _
  split at h
  · cases h
  split at h
  · cases h
  rename_i sizes _ _
  split at h
  · rename_i hok
    cases h
    simp only [canAllocate, Bool.and_eq_true, List.all_eq_true, decide_eq_true_eq] at hok
    obtain ⟨⟨hnonneg, htotal⟩, -⟩ := hok
    refine ⟨?_, ?_⟩
    · intro d hd
      obtain ⟨size, -, rfl⟩ := List.mem_map.1 hd
      simp [DataRead.Fits, DataRead.new]
    · have hsum := sum_new_size hnonneg dataType
      omega
  · cases h

theorem lineBinary_done {s : Recv} (h : Fit s) (hclosed : s.activeReadData < 0)
    (params : List Byte) : LineDone (s.lineBinary params) := by
  unfold Recv.lineBinary
  split
  · exact .connectionError h
  · split
    · exact .crash h
    · rename_i hinit
      exact .of_closed (h.setChannels _ _ fun l hl => by cases hl; exact initFromConnection_fit hinit)
        hclosed

theorem lineData_done {s : Recv} (h : Fit s) (params : List Byte) :
    LineDone (s.lineData params) := by
  unfold Recv.lineData
  split
  · exact .connectionError h
  split
  · exact .connectionError h
  rename_i conn _ _ _ chan params _
  split
  · exact .crash h
  · -- a shared segment has no channel to put bytes into
    rename_i segments hshared
    split_ifs
    · exact .crash h
    · exact ⟨h.congr rfl rfl, fun _ _ _ => .inl (by simp [Recv.activeChannel, hshared])⟩
    · exact .connectionError h
  · rename_i channels hchan
    split
    · exact .crash h
    rename_i d hat
    split
    · exact .connectionError h
    rename_i chunk rest _
    have hfits : ({ d with binaryReadChunkSize := chunk } : DataRead).Fits :=
      (h.channels _ _ hchan).fits d (mem_of_atIdx hat)
    have hset := h.setChannels conn (some (.data (channels.set chan.toNat
      { d with binaryReadChunkSize := chunk })))
      (fun l hl => by cases hl; exact (h.channels _ _ hchan).set hat rfl hfits)
    have hat' := atIdx_set hat { d with binaryReadChunkSize := chunk }
    by_cases hend : paramEnd rest = true
    · simp only [hend, if_true]
      refine ⟨hset.congr rfl rfl, fun hgood _ _ => .inr ?_⟩
      have hheader := hgood ⟨chunk, d.binaryReadDataSize⟩ (by simp)
      refine ⟨channels.set chan.toNat { d with binaryReadChunkSize := chunk },
        { d with binaryReadChunkSize := chunk }, ?_, hheader.1, hheader.2⟩
      simp [Recv.activeChannel, Recv.setChannels, hat']
    · simp only [hend]
      exact .connectionError hset

theorem lineKilled_done {s : Recv} (h : Fit s) (hclosed : s.activeReadData < 0)
    (params : List Byte) : LineDone (s.lineKilled params) := by
  unfold Recv.lineKilled
  split
  · exact .connectionError h
  · split
    · exact .of_closed (h.endData _ _) hclosed
    · exact .of_closed h hclosed

theorem lineShared_done {s : Recv} (handlers : Handlers) (h : Fit s)
    (hclosed : s.activeReadData < 0) (params : List Byte) :
    LineDone (s.lineShared handlers params) := by
  unfold Recv.lineShared
  split
  · exact .connectionError h
  split
  · exact .connectionError h
  dsimp only
  split
  · split
    · exact .crash h
    · exact .of_closed ((h.setChannels _ _ (by simp)).congr rfl rfl) hclosed
  · exact .of_closed (h.congr rfl rfl) (by simp [Recv.connectionError])

theorem lineSharedFull_done {s : Recv} (h : Fit s) (hclosed : s.activeReadData < 0)
    (params : List Byte) : LineDone (s.lineSharedFull params) := by
  unfold Recv.lineSharedFull
  split
  · exact .connectionError h
  split
  · split
    · exact .of_closed h hclosed
    · exact .crash h
    · exact .of_closed (h.endData _ _) hclosed
  · exact .connectionError h

theorem lineFits_done {s : Recv} (h : Fit s) (hclosed : s.activeReadData < 0)
    (params : List Byte) : LineDone (s.lineFits params) := by
  unfold Recv.lineFits
  split
  · exact .connectionError h
  split
  · exact .connectionError h
  split
  · exact .of_closed h hclosed
  · exact .connectionError h

/-- A line keeps the channels fitting. -/
theorem processLine_done {s : Recv} (handlers : Handlers) (h : Fit s)
    (hclosed : s.activeReadData < 0) (line : List Byte) :
    LineDone (s.processLine handlers line) := by
  have hlines : Fit { s with lines := s.lines ++ [line] } := h.congr rfl rfl
  unfold Recv.processLine
  dsimp only
  split
  · exact lineBinary_done hlines hclosed _
  split
  · exact lineData_done hlines _
  split
  · exact lineKilled_done hlines hclosed _
  split
  · exact lineShared_done handlers hlines hclosed _
  split
  · exact lineSharedFull_done hlines hclosed _
  split
  · exact lineFits_done hlines hclosed _
  split
  · exact .connectionError hlines
  · exact .of_closed hlines hclosed

/-! ## Headers are a record -/

@[simp] theorem dataReceived_headers (s : Recv) : s.dataReceived.headers = s.headers := by
  unfold Recv.dataReceived
  repeat' split
  all_goals rfl

@[simp] theorem takeData_headers (s : Recv) (data : List Byte) :
    (s.takeData data).1.headers = s.headers := by
  unfold Recv.takeData
  split
  · rfl
  · split
    · rfl
    · rw [dataReceived_headers]
      rfl

theorem lineBinary_headers (s : Recv) (params : List Byte) :
    (s.lineBinary params).headers = s.headers := by
  unfold Recv.lineBinary
  repeat' split
  all_goals rfl

theorem lineData_headers (s : Recv) (params : List Byte) :
    s.headers <+: (s.lineData params).headers := by
  unfold Recv.lineData
  repeat' split
  all_goals first | exact List.prefix_refl _ | exact List.prefix_append _ _

theorem lineKilled_headers (s : Recv) (params : List Byte) :
    (s.lineKilled params).headers = s.headers := by
  unfold Recv.lineKilled
  repeat' split
  all_goals rfl

theorem lineShared_headers (handlers : Handlers) (s : Recv) (params : List Byte) :
    (s.lineShared handlers params).headers = s.headers := by
  unfold Recv.lineShared
  split
  · rfl
  split
  · rfl
  dsimp only
  split
  · split <;> rfl
  · rfl

theorem lineSharedFull_headers (s : Recv) (params : List Byte) :
    (s.lineSharedFull params).headers = s.headers := by
  unfold Recv.lineSharedFull
  repeat' split
  all_goals rfl

theorem lineFits_headers (s : Recv) (params : List Byte) :
    (s.lineFits params).headers = s.headers := by
  unfold Recv.lineFits
  repeat' split
  all_goals rfl

theorem processLine_headers (handlers : Handlers) (s : Recv) (line : List Byte) :
    s.headers <+: (s.processLine handlers line).headers := by
  have hself : ∀ t : Recv, t.headers = s.headers → s.headers <+: t.headers :=
    fun t ht => ht ▸ List.prefix_refl _
  unfold Recv.processLine
  dsimp only
  split
  · exact hself _ (lineBinary_headers _ _)
  split
  · exact lineData_headers { s with lines := s.lines ++ [line] } _
  split
  · exact hself _ (lineKilled_headers _ _)
  split
  · exact hself _ (lineShared_headers _ _ _)
  split
  · exact hself _ (lineSharedFull_headers _ _)
  split
  · exact hself _ (lineFits_headers _ _)
  split
  · exact hself _ rfl
  · exact hself _ rfl

theorem endLine_headers (handlers : Handlers) (s : Recv) (line rest : List Byte) :
    s.headers <+: (s.endLine handlers line rest).1.headers := by
  unfold Recv.endLine
  dsimp only
  split
  · rw [takeData_headers]
    exact processLine_headers handlers s line
  · exact processLine_headers handlers s line

theorem scan_headers (handlers : Handlers) (fuel : Nat) (s : Recv) (command rest : List Byte) :
    s.headers <+: (s.scan handlers fuel command rest).headers := by
  induction fuel generalizing s command rest with
  | zero => exact List.prefix_refl _
  | succ fuel ih =>
    unfold Recv.scan
    split
    · exact List.prefix_refl _
    split
    · exact List.prefix_refl _
    dsimp only
    split
    · exact (endLine_headers handlers s _ _).trans (ih _ _ _)
    · exact List.prefix_refl _
    · exact ih _ _ _

theorem processBuffer_headers (handlers : Handlers) (s : Recv) (buf : List Byte) :
    s.headers <+: (({ s with buf } : Recv).processBuffer handlers).headers :=
  scan_headers handlers _ { s with buf := [] } _ _

theorem Respected.of_prefix {headers more : List Header} (h : Respected more)
    (hpre : headers <+: more) : Respected headers :=
  fun header hmem => h header (hpre.subset hmem)

/-! ## The buffer and the reads -/

/-- The state between two lines: bytes are left only when no chunk is open. -/
structure Between (s : Recv) (rest : List Byte) : Prop where
  bounded : Bounded s
  rest : s.crashed = false → 0 ≤ s.activeReadData → rest = []

theorem Between.endLine {s : Recv} {handlers : Handlers} {line rest : List Byte} (h : Fit s)
    (hclosed : s.activeReadData < 0)
    (hgood : Respected (s.endLine handlers line rest).1.headers) :
    Between (s.endLine handlers line rest).1 (s.endLine handlers line rest).2 := by
  have hdone := processLine_done handlers h hclosed line
  have hheaders : Respected (s.processLine handlers line).headers := by
    refine hgood.of_prefix ?_
    unfold Recv.endLine
    dsimp only
    split
    · exact ⟨[], by rw [takeData_headers, List.append_nil]⟩
    · exact List.prefix_refl _
  unfold Recv.endLine
  dsimp only
  split
  next hopen =>
    rcases hdone.chunk hheaders hopen.1 hopen.2 with hnone | ⟨channels, d, hchunk⟩
    · simp only [Recv.takeData, hnone]
      exact ⟨⟨hdone.fit.congr rfl rfl, by simp [Recv.crash]⟩, by simp [Recv.crash]⟩
    · obtain ⟨hbounded, hall⟩ := hdone.fit.takeData hchunk rest
      refine ⟨hbounded, fun _ hactive => ?_⟩
      rw [hall hactive, List.drop_length]
  next hopen =>
    refine ⟨⟨hdone.fit, fun hcrash hactive => absurd ⟨hcrash, hactive⟩ hopen⟩,
      fun hcrash hactive => absurd ⟨hcrash, hactive⟩ hopen⟩

theorem Bounded.withBuf {s : Recv} (h : Bounded s) (buf : List Byte) :
    Bounded { s with buf := buf } :=
  ⟨h.fit.congr rfl rfl, fun hcrash hactive => by
    obtain ⟨channels, d, hopen⟩ := h.chunk hcrash hactive
    exact ⟨channels, d, hopen.active, hopen.least, hopen.rest⟩⟩

theorem Bounded.scan {handlers : Handlers} {fuel : Nat} {s : Recv} {command rest : List Byte}
    (h : Between s rest) (hgood : Respected (s.scan handlers fuel command rest).headers) :
    Bounded (s.scan handlers fuel command rest) := by
  induction fuel generalizing s command rest with
  | zero => exact h.bounded.withBuf _
  | succ fuel ih =>
    unfold Recv.scan at hgood ⊢
    split at hgood
    · rw [if_pos ‹_›]
      exact h.bounded
    rename_i hcrash
    rw [if_neg hcrash]
    split at hgood
    · rw [if_pos ‹_›]
      exact h.bounded.withBuf _
    rename_i hend
    rw [if_neg hend]
    -- bytes are left, so no chunk is open
    have hclosed : s.activeReadData < 0 := by
      by_contra hopen
      have hnil := h.rest (Bool.not_eq_true _ ▸ hcrash) (not_lt.1 hopen)
      rw [hnil] at hend
      exact hend rfl
    dsimp only at hgood ⊢
    split at hgood
    · exact ih (.endLine h.bounded.fit hclosed (hgood.of_prefix (scan_headers _ _ _ _ _))) hgood
    · exact h.bounded.withBuf _
    · exact ih ⟨h.bounded, fun _ hactive => absurd hactive (not_le.2 hclosed)⟩ hgood

theorem Bounded.processBuffer {handlers : Handlers} {s : Recv} (h : Bounded s)
    (hclosed : s.activeReadData < 0) (hgood : Respected (s.processBuffer handlers).headers) :
    Bounded (s.processBuffer handlers) :=
  Bounded.scan ⟨h.withBuf [], fun _ hactive => absurd hactive (not_le.2 hclosed)⟩ hgood

theorem Bounded.connectionError {s : Recv} (h : Bounded s) : Bounded s.connectionError :=
  h.fit.connectionError.bounded (.inr (by simp [Recv.connectionError]))

theorem Fit.crash {s : Recv} (h : Fit s) : Bounded s.crash :=
  ⟨h.congr rfl rfl, fun hcrash => absurd hcrash (by simp [Recv.crash])⟩

/-- With no chunk open, `dataReceived` opens none. -/
theorem Fit.dataReceived_closed {s : Recv} (h : Fit s) (hclosed : s.activeReadData < 0) :
    Bounded s.dataReceived := by
  unfold Recv.dataReceived
  split
  · rename_i channels _
    have hend : Fit (s.endData s.activeReadData (.data channels)) := h.endData _ _
    split
    · exact h.crash
    · split_ifs
      · exact Fit.bounded ⟨hend.channels, hend.overran⟩ (.inr (by simp))
      · exact Fit.bounded ⟨h.channels, h.overran⟩ (.inr (by simp))
      · exact h.bounded (.inr hclosed)
  · exact h.crash

theorem Bounded.receiveData {l : Link} (h : Bounded l.conn) {channels : List DataRead}
    {d : DataRead} (hopen : OpenChunk l.conn 1 channels d) (p : Poll) :
    Bounded (l.receiveData channels d p).conn := by
  cases p with
  | eintr => exact h
  | eof => exact h
  | error => exact h.fit.connectionError.dataReceived_closed (by simp [Recv.connectionError])
  | data n =>
    simp only [Link.receiveData]
    split_ifs
    · exact h
    · obtain ⟨hchan, hat⟩ := activeChannel_eq_some hopen.active
      have hsize := (h.fit.channels _ _ hchan).size_lt (mem_of_atIdx hat)
      have hfits : d.bytes.length + d.binaryReadDataSize = d.size :=
        (h.fit.channels _ _ hchan).fits d (mem_of_atIdx hat)
      have hleast := hopen.least
      have hrest := hopen.rest
      have hlen : ((l.arrived n (d.binaryReadChunkSize % 2 ^ 64).toNat).length : Int) ≤
          d.binaryReadChunkSize := by
        rw [Int.emod_eq_of_lt (by omega) (by omega), Link.arrived, List.length_take]
        omega
      obtain ⟨hfit, hopen'⟩ := h.fit.storeActive hopen _ hlen
      exact hfit.dataReceived hopen'

theorem checkBufferSize_conn (l : Link) : l.checkBufferSize.conn = l.conn := by
  unfold Link.checkBufferSize
  split <;> rfl

theorem Bounded.receiveText {handlers : Handlers} {l : Link} (h : Bounded l.conn)
    (hclosed : l.conn.activeReadData < 0) (p : Poll)
    (hgood : Respected (l.receiveText handlers p).conn.headers) :
    Bounded (l.receiveText handlers p).conn := by
  cases p with
  | eintr => simpa only [Link.receiveText, checkBufferSize_conn] using h
  | eof => exact h.connectionError
  | error => exact h.connectionError
  | data n =>
    simp only [Link.receiveText, Link.readText, checkBufferSize_conn] at hgood ⊢
    split_ifs at hgood ⊢
    · exact h
    · exact h.connectionError
    · exact (h.withBuf _).processBuffer hclosed hgood

theorem receive_headers (handlers : Handlers) (l : Link) (p : Poll) :
    l.conn.headers <+: (l.receive handlers p).conn.headers := by
  unfold Link.receive
  split
  · exact List.prefix_refl _
  split
  · split
    · exact List.prefix_refl _
    · cases p with
      | eintr | eof => exact List.prefix_refl _
      | error =>
        simp only [Link.receiveData, dataReceived_headers]
        exact List.prefix_refl _
      | data n =>
        simp only [Link.receiveData]
        split_ifs
        · exact List.prefix_refl _
        · rw [dataReceived_headers]
          exact List.prefix_refl _
  · cases p with
    | eintr =>
      simp only [Link.receiveText, checkBufferSize_conn]
      exact List.prefix_refl _
    | eof | error => exact List.prefix_refl _
    | data n =>
      simp only [Link.receiveText, Link.readText, checkBufferSize_conn]
      split_ifs
      · exact List.prefix_refl _
      · exact List.prefix_refl _
      · exact processBuffer_headers handlers l.conn _

theorem Bounded.receive {handlers : Handlers} {l : Link} (h : Bounded l.conn) (p : Poll)
    (hgood : Respected (l.receive handlers p).conn.headers) :
    Bounded (l.receive handlers p).conn := by
  unfold Link.receive at hgood ⊢
  split at hgood
  · rw [if_pos ‹_›]
    exact h
  rename_i hlive
  rw [if_neg hlive]
  obtain ⟨hcrash, -⟩ := not_or.1 hlive
  split at hgood
  · rename_i hactive
    rw [if_pos hactive]
    obtain ⟨channels, d, hopen⟩ := h.chunk (Bool.not_eq_true _ ▸ hcrash) hactive
    simp only [hopen.active]
    exact h.receiveData hopen p
  · rename_i hactive
    rw [if_neg hactive]
    exact h.receiveText (not_le.1 hactive) p hgood

/-! ## Runs -/

/-- No store went over the mark, and in every channel what is stored and what
remains add up to the declared size. -/
structure WithinDeclared (s : Recv) : Prop where
  stores : s.overran = false
  channels : ∀ conn channels, s.readChannels conn = some (.data channels) →
    ∀ d ∈ channels, d.bytes.length + d.binaryReadDataSize = d.size

/-- **No channel is overrun** while every accepted `D` header announces at least
nothing and at most what its channel misses. -/
theorem stored_within_declared (handlers : Handlers) (input : List Byte) (polls : List Poll)
    (h : Respected (run (Link.receive handlers) (Link.start input) polls).conn.headers) :
    WithinDeclared (run (Link.receive handlers) (Link.start input) polls).conn := by
  have hstart : Bounded (Link.start input).conn :=
    Fit.bounded ⟨fun _ _ hnone => absurd hnone (by simp [Link.start, Recv.start]), rfl⟩
      (.inr (by simp [Link.start, Recv.start]))
  have hbounded := run_invariant
    (I := fun l => Respected l.conn.headers → Bounded l.conn) (fun _ => hstart)
    (fun l p hl hgood => (hl (hgood.of_prefix (receive_headers handlers l p))).receive p hgood)
    polls h
  exact ⟨hbounded.fit.overran, fun conn channels hc => (hbounded.fit.channels conn channels hc).fits⟩

/-- Handlers that keep the connection and have no shared memory. -/
def quietHandlers : Handlers where
  closes := fun _ => false
  attach := fun _ => false

/-- `C 1 0 1 10`, `D 1 0 6` and six bytes: ten bytes are declared, six announced. -/
def declaredStream : List Byte :=
  [67, 32, 49, 32, 48, 32, 49, 32, 49, 48, 10, 68, 32, 49, 32, 48, 32, 54, 10,
    49, 50, 51, 52, 53, 54]

theorem stored_within_declared_partial :
    WithinDeclared (run (Link.receive quietHandlers) (Link.start declaredStream)
      [.data 21, .data 1, .eintr, .data 100]).conn :=
  stored_within_declared quietHandlers declaredStream _ (by decide +kernel)

/-- `C 1 0 1 4`, `D 1 0 8` and eight bytes: four bytes are declared, eight announced. -/
def overlongStream : List Byte :=
  [67, 32, 49, 32, 48, 32, 49, 32, 52, 10, 68, 32, 49, 32, 48, 32, 56, 10,
    49, 50, 51, 52, 53, 54, 55, 56]

/-- Received in one read, the eight bytes go into the buffer of four. -/
theorem overlongStream_overruns :
    ¬ WithinDeclared (run (Link.receive quietHandlers) (Link.start overlongStream)
      [.data 100]).conn := by
  intro h
  exact absurd h.stores (by decide)

end Rts2.Connection

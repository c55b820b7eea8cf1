import Rts2.Connection.DataBounds

/-! # Receiving byte by byte

The receive path as it would be if every read brought one byte. A byte of an
open chunk goes into its channel; a byte of text is kept with the line it
belongs to, and LF hands the line over. `processBuffer` does to a buffer what
these steps do to its bytes, wherever the buffer was cut. -/
namespace Rts2.Connection
open Rts2.Lib

/-- What is kept of an unfinished line when `b` arrives. Leading space is
skipped, and behind a CR that ends no line a new one begins. -/
def keep (kept : List Byte) (b : Byte) : List Byte :=
  if kept = [] ∨ kept.getLast? = some cr then (if isspace b then [] else [b]) else kept ++ [b]

/-- The line LF ends. -/
def lineOf (kept : List Byte) : List Byte :=
  if kept.getLast? = some cr then kept.dropLast else kept

/-- Text of a line: no NUL, no LF. -/
def IsText (text : List Byte) : Prop := ∀ b ∈ text, b ≠ 0 ∧ b ≠ lf

instance (text : List Byte) : Decidable (IsText text) :=
  inferInstanceAs (Decidable (∀ b ∈ text, _))

/-- LF has arrived; nothing stands behind it yet. -/
def Recv.feedLf (h : Handlers) (s : Recv) : Recv :=
  if s.buf = [] then s else ({ s with buf := [] }.endLine h (lineOf s.buf) []).1

/-- One byte has arrived. -/
def Recv.feed (h : Handlers) (s : Recv) (b : Byte) : Recv :=
  if s.crashed then s
  else if 0 ≤ s.activeReadData then (s.takeData [b]).1
  else if b = lf then s.feedLf h
  else { s with buf := keep s.buf b }

/-- If a chunk of a channel is open, the channel misses as much. -/
def Roomy (s : Recv) : Prop :=
  s.crashed = false → 0 ≤ s.activeReadData →
    s.activeChannel = none ∨ ∃ channels d, OpenChunk s 0 channels d

/-- A byte the receive path is made for: no NUL in a text, and a line that opens
a chunk opens one its channel has room for. -/
structure Clean (h : Handlers) (s : Recv) (b : Byte) : Prop where
  text : s.crashed = false → s.activeReadData < 0 → b ≠ 0
  roomy : s.crashed = false → s.activeReadData < 0 → b = lf → s.buf ≠ [] →
    Roomy ({ s with buf := [] }.processLine h (lineOf s.buf))
  bounded : Bounded (s.feed h b)

/-! ## An open chunk -/

theorem DataRead.store_cons (d : DataRead) (b : Byte) (data : List Byte) :
    (d.store [b]).store data = d.store (b :: data) := by
  have hsub : sizeSub (sizeSub d.binaryReadDataSize 1) data.length =
      sizeSub d.binaryReadDataSize (data.length + 1) := by
    simp only [sizeSub]
    omega
  simp only [DataRead.store, List.length_cons, List.length_nil, List.append_assoc,
    List.singleton_append, Nat.zero_add, hsub]
  congr 1
  push_cast
  omega

theorem DataRead.store_nil {d : DataRead} (h : d.binaryReadDataSize < 2 ^ 64) :
    d.store [] = d := by
  have hsub : sizeSub d.binaryReadDataSize 0 = d.binaryReadDataSize :=
    sizeSub_of_le (Nat.zero_le _) h
  simp [DataRead.store, hsub]

/-- While bytes of the chunk are missing, `dataReceived` leaves it open. -/
theorem Fit.dataReceived_open {s : Recv} (h : Fit s) {channels : List DataRead} {d : DataRead}
    (hopen : OpenChunk s 1 channels d) : s.dataReceived = s := by
  obtain ⟨hchan, hat⟩ := activeChannel_eq_some hopen.active
  have hleast := hopen.least
  have hrest := hopen.rest
  have hne := (h.channels _ _ hchan).restSize_pos (mem_of_atIdx hat) (by omega)
  have hchunk : d.binaryReadChunkSize ≠ 0 := by omega
  simp only [Recv.dataReceived, hchan, hat, if_neg hne, if_neg hchunk]

theorem Fit.takeData_nil {s : Recv} (h : Fit s) {channels : List DataRead} {d : DataRead}
    (hopen : OpenChunk s 1 channels d) : s.takeData [] = (s, 0) := by
  obtain ⟨hchan, hat⟩ := activeChannel_eq_some hopen.active
  have hcf := h.channels _ _ hchan
  have hsize := hcf.size_lt (mem_of_atIdx hat)
  have hfits : d.bytes.length + d.binaryReadDataSize = d.size := hcf.fits d (mem_of_atIdx hat)
  have hstore : d.store [] = d := DataRead.store_nil (by omega)
  have hset : channels.set s.activeReadChannel.toNat d = channels := by
    obtain ⟨hlt, hget⟩ := List.getElem?_eq_some_iff.1 (atIdx_eq_some hat)
    rw [← hget, List.set_getElem_self]
  have hupdate : Function.update s.readChannels s.activeReadData (some (.data channels)) =
      s.readChannels := by
    rw [← hchan, Function.update_eq_self]
  have hsame : s.storeActive channels d [] = s := by
    simp [Recv.storeActive, hstore, hset, Recv.setChannels, hupdate, hcf.fits d (mem_of_atIdx hat)]
  rw [takeData_eq hopen (by decide), List.take_nil, hsame, h.dataReceived_open hopen]
  simp

/-- A byte stored while more of the chunk is missing leaves the rest of it open. -/
theorem Fit.takeData_byte {s : Recv} (h : Fit s) {channels : List DataRead} {d : DataRead}
    (hopen : OpenChunk s 1 channels d) (hmore : d.binaryReadChunkSize ≠ 1) (b : Byte) :
    (s.takeData [b]).1 = s.storeActive channels d [b] ∧ Fit (s.storeActive channels d [b]) ∧
      OpenChunk (s.storeActive channels d [b]) 1
        (channels.set s.activeReadChannel.toNat (d.store [b])) (d.store [b]) := by
  have hleast := hopen.least
  obtain ⟨hfit, hopen'⟩ := h.storeActive hopen [b] (by simpa using hleast)
  have hopen1 : OpenChunk (s.storeActive channels d [b]) 1
      (channels.set s.activeReadChannel.toNat (d.store [b])) (d.store [b]) := by
    refine ⟨hopen'.active, ?_, hopen'.rest⟩
    simp only [DataRead.store, List.length_singleton]
    omega
  refine ⟨?_, hfit, hopen1⟩
  have htake : [b].take d.binaryReadChunkSize.toNat = [b] :=
    List.take_of_length_le (by rw [List.length_singleton]; omega)
  rw [takeData_eq hopen (by decide), htake, hfit.dataReceived_open hopen1]

theorem storeActive_cons {s : Recv} (h : Fit s) {channels : List DataRead} {d : DataRead}
    (hopen : OpenChunk s 1 channels d) (b : Byte) (data : List Byte) :
    (s.storeActive channels d [b]).storeActive
        (channels.set s.activeReadChannel.toNat (d.store [b])) (d.store [b]) data =
      s.storeActive channels d (b :: data) := by
  have hleast := hopen.least
  obtain ⟨hfit, -⟩ := h.storeActive hopen [b] (by simpa using hleast)
  have hover : (false || !decide (d.store [b]).Fits) = false := h.overran ▸ hfit.overran
  simp only [Recv.storeActive, Recv.setChannels, DataRead.store_cons, List.set_set,
    Function.update_idem, h.overran, hover]

/-- The first byte of some data goes into the open chunk by itself, the rest
after it while the chunk is open. -/
theorem Fit.takeData_cons {s : Recv} (h : Fit s) {channels : List DataRead} {d : DataRead}
    (hopen : OpenChunk s 1 channels d) (b : Byte) (data : List Byte) :
    s.takeData (b :: data) =
      if d.binaryReadChunkSize = 1 then ((s.takeData [b]).1, 1)
      else (((s.takeData [b]).1.takeData data).1, ((s.takeData [b]).1.takeData data).2 + 1) := by
  have hleast := hopen.least
  split
  next hone =>
    simp [takeData_eq hopen (by decide), hone]
  next hmore =>
    obtain ⟨hbyte, -, hopen'⟩ := h.takeData_byte hopen hmore b
    have hchunk : (d.store [b]).binaryReadChunkSize = d.binaryReadChunkSize - 1 := rfl
    have htake : (b :: data).take d.binaryReadChunkSize.toNat =
        b :: data.take (d.binaryReadChunkSize - 1).toNat := by
      rw [show d.binaryReadChunkSize.toNat = (d.binaryReadChunkSize - 1).toNat + 1 by omega,
        List.take_succ_cons]
    rw [hbyte, takeData_eq hopen' (by decide), takeData_eq hopen (by decide), htake, hchunk,
      storeActive_cons h hopen]
    refine Prod.ext rfl ?_
    simp only [List.length_cons]
    omega

/-! ## What is not touched -/

@[simp] theorem dataReceived_buf (s : Recv) : s.dataReceived.buf = s.buf := by
  unfold Recv.dataReceived
  repeat' split
  all_goals rfl

@[simp] theorem takeData_buf (s : Recv) (data : List Byte) : (s.takeData data).1.buf = s.buf := by
  unfold Recv.takeData
  split
  · rfl
  · split
    · rfl
    · rw [dataReceived_buf]
      rfl

@[simp] theorem processLine_buf (h : Handlers) (s : Recv) (line : List Byte) :
    (s.processLine h line).buf = s.buf := by
  unfold Recv.processLine Recv.lineBinary Recv.lineData Recv.lineKilled Recv.lineShared
    Recv.lineSharedFull Recv.lineFits
  dsimp only
  repeat' split
  all_goals rfl

/-! ## What is kept -/

theorem inLine_iff (b : Byte) : inLine b = true ↔ b ≠ 0 ∧ b ≠ lf ∧ b ≠ cr := by
  simp [inLine, and_assoc]

theorem isText_of_inLine {text : List Byte} (h : ∀ b ∈ text, inLine b = true) : IsText text :=
  fun b hb => ⟨((inLine_iff b).1 (h b hb)).1, ((inLine_iff b).1 (h b hb)).2.1⟩

/-- What is kept holds a word and does not end in CR. -/
structure Word (kept : List Byte) : Prop where
  ne_nil : kept ≠ []
  last : kept.getLast? ≠ some cr

theorem Word.append {kept : List Byte} (h : Word kept) {b : Byte} (hb : b ≠ cr) :
    keep kept b = kept ++ [b] ∧ Word (kept ++ [b]) := by
  refine ⟨?_, by simp, by simpa using hb⟩
  rw [keep, if_neg (not_or.2 ⟨h.ne_nil, h.last⟩)]

/-- Behind the start of a line its text is kept as it comes. -/
theorem Word.run {kept : List Byte} (h : Word kept) {text : List Byte}
    (htext : ∀ b ∈ text, inLine b = true) :
    run keep kept text = kept ++ text ∧ Word (kept ++ text) := by
  induction text generalizing kept with
  | nil => exact ⟨(List.append_nil _).symm, (List.append_nil kept).symm ▸ h⟩
  | cons b text ih =>
    obtain ⟨hb, htext⟩ := List.forall_mem_cons.1 htext
    obtain ⟨hkeep, hword⟩ := h.append ((inLine_iff b).1 hb).2.2
    obtain ⟨hrun, hword'⟩ := ih hword htext
    rw [run_cons, hkeep, hrun, ← List.append_cons]
    rw [← List.append_cons] at hword'
    exact ⟨rfl, hword'⟩

theorem keep_space {b : Byte} (hb : isspace b = true) : keep [] b = [] := by
  simp [keep, hb]

/-- A text that starts with no space is kept whole. -/
theorem run_keep_word {text : List Byte} (htext : ∀ b ∈ text, inLine b = true)
    (hstart : ∀ b ∈ text.head?, isspace b = false) (hne : text ≠ []) :
    run keep [] text = text ∧ Word text := by
  cases text with
  | nil => exact absurd rfl hne
  | cons b text =>
    obtain ⟨hb, htext⟩ := List.forall_mem_cons.1 htext
    have hspace : isspace b = false := hstart b (by simp)
    have hkeep : keep [] b = [b] := by simp [keep, hspace]
    have hword : Word [b] := ⟨by simp, by simpa using ((inLine_iff b).1 hb).2.2⟩
    rw [run_cons, hkeep]
    exact hword.run htext

theorem Word.keep_cr {kept : List Byte} (h : Word kept) : keep kept cr = kept ++ [cr] := by
  rw [keep, if_neg (not_or.2 ⟨h.ne_nil, h.last⟩)]

theorem Word.lineOf {kept : List Byte} (h : Word kept) : lineOf kept = kept := by
  rw [Connection.lineOf, if_neg h.last]

theorem lineOf_cr (kept : List Byte) : lineOf (kept ++ [cr]) = kept := by
  simp [lineOf]

/-- A CR that ends no line: the byte behind it starts a new one. -/
theorem keep_bare_cr (kept : List Byte) (b : Byte) : keep (kept ++ [cr]) b = keep [] b := by
  simp [keep]

/-! ## Steps -/

section
variable {h : Handlers} {s : Recv} {line : List Byte}

theorem feed_crashed (hc : s.crashed = true) (b : Byte) : s.feed h b = s := by
  rw [Recv.feed, if_pos hc]

theorem feed_chunk (hc : s.crashed = false) (hopen : 0 ≤ s.activeReadData) (b : Byte) :
    s.feed h b = (s.takeData [b]).1 := by
  rw [Recv.feed, if_neg (by simp [hc]), if_pos hopen]

theorem feed_lf (hc : s.crashed = false) (hclosed : s.activeReadData < 0) :
    s.feed h lf = s.feedLf h := by
  rw [Recv.feed, if_neg (by simp [hc]), if_neg (by omega), if_pos rfl]

theorem feed_text (hc : s.crashed = false) (hclosed : s.activeReadData < 0) {b : Byte}
    (hb : b ≠ lf) : s.feed h b = { s with buf := keep s.buf b } := by
  rw [Recv.feed, if_neg (by simp [hc]), if_neg (by omega), if_neg hb]

theorem run_feed_crashed (hc : s.crashed = true) (bytes : List Byte) :
    run (Recv.feed h) s bytes = s := by
  induction bytes with
  | nil => rfl
  | cons b bytes ih => rw [run_cons, feed_crashed hc, ih]

/-- The bytes of a text are kept, one after the other. -/
theorem run_feed_text (hc : s.crashed = false) (hclosed : s.activeReadData < 0)
    {text : List Byte} (htext : IsText text) :
    run (Recv.feed h) s text = { s with buf := run keep s.buf text } := by
  induction text generalizing s with
  | nil => rfl
  | cons b text ih =>
    obtain ⟨hb, htext⟩ := List.forall_mem_cons.1 htext
    rw [run_cons, feed_text hc hclosed hb.2]
    exact ih hc hclosed htext

/-- A text is clean. -/
theorem along_clean_text (hb : Bounded s) (hc : s.crashed = false)
    (hclosed : s.activeReadData < 0) {text : List Byte} (htext : IsText text) :
    Along (Recv.feed h) (Clean h) s text := by
  induction text generalizing s with
  | nil => trivial
  | cons b text ih =>
    obtain ⟨hbyte, htext⟩ := List.forall_mem_cons.1 htext
    have hfeed := feed_text (h := h) hc hclosed hbyte.2
    refine ⟨⟨fun _ _ => hbyte.1, fun _ _ hlf => absurd hlf hbyte.2,
      by rw [hfeed]; exact hb.withBuf _⟩, ?_⟩
    rw [hfeed]
    exact ih (hb.withBuf _) hc hclosed htext

/-- The state stays bounded along clean bytes. -/
theorem bounded_run_feed (hb : Bounded s) {bytes : List Byte}
    (hclean : Along (Recv.feed h) (Clean h) s bytes) :
    Bounded (run (Recv.feed h) s bytes) :=
  hclean.invariant hb fun _ _ _ hstep => hstep.bounded

/-- Data put into an open chunk at once is put there byte by byte. -/
theorem run_feed_takeData (hb : Bounded s) (hc : s.crashed = false)
    (hopen : 0 ≤ s.activeReadData) (data : List Byte) :
    (s.takeData data).1 = run (Recv.feed h) s (data.take (s.takeData data).2) := by
  induction data generalizing s with
  | nil =>
    obtain ⟨channels, d, hchunk⟩ := hb.chunk hc hopen
    rw [hb.fit.takeData_nil hchunk]
    rfl
  | cons b data ih =>
    obtain ⟨channels, d, hchunk⟩ := hb.chunk hc hopen
    rw [hb.fit.takeData_cons hchunk]
    split
    · rw [List.take_succ_cons, List.take_zero, run_cons, feed_chunk hc hopen]
      rfl
    · rename_i hmore
      obtain ⟨hbyte, hfit, hchunk'⟩ := hb.fit.takeData_byte hchunk hmore b
      rw [List.take_succ_cons, run_cons, feed_chunk hc hopen]
      have hb' : Bounded (s.takeData [b]).1 :=
        hbyte ▸ ⟨hfit, fun _ _ => ⟨_, _, hchunk'⟩⟩
      exact ih hb' (by rw [hbyte]; exact hc) (by rw [hbyte]; exact hopen)

/-- Space in front of a line is skipped. -/
theorem feed_space (hc : s.crashed = false) (hclosed : s.activeReadData < 0) (hbuf : s.buf = [])
    {b : Byte} (hb : isspace b = true) : s.feed h b = s := by
  by_cases hlf : b = lf
  · rw [hlf, feed_lf hc hclosed, Recv.feedLf, if_pos hbuf]
  · rw [feed_text hc hclosed hlf, hbuf, keep_space hb, ← hbuf]

theorem run_feed_skipSpace (hc : s.crashed = false) (hclosed : s.activeReadData < 0)
    (hbuf : s.buf = []) (rest : List Byte) :
    run (Recv.feed h) s (skipSpace rest) = run (Recv.feed h) s rest ∧
      (Along (Recv.feed h) (Clean h) s rest → Along (Recv.feed h) (Clean h) s (skipSpace rest)) := by
  induction rest with
  | nil => exact ⟨rfl, id⟩
  | cons b rest ih =>
    unfold skipSpace at ih ⊢
    rw [List.dropWhile_cons]
    split
    · rename_i hb
      rw [run_cons, along_cons, feed_space hc hclosed hbuf hb]
      exact ⟨ih.1, fun halong => ih.2 halong.2⟩
    · exact ⟨rfl, id⟩

/-! ## The buffer -/

/-- An empty chunk takes none of the bytes behind its header. -/
theorem takeData_empty {s : Recv} {channels : List DataRead} {d : DataRead}
    (hopen : OpenChunk s 0 channels d) (hempty : d.binaryReadChunkSize = 0) (data : List Byte) :
    s.takeData data = ((s.takeData []).1, 0) := by
  rw [takeData_eq hopen le_rfl, takeData_eq hopen le_rfl, hempty]
  simp

/-- A line with nothing behind it keeps its chunk open, if the chunk is not empty. -/
theorem endLine_nil {s' : Recv} (hs' : s.processLine h line = s') :
    (s.endLine h line []).1 =
      if s'.crashed = false ∧ 0 ≤ s'.activeReadData then (s'.takeData []).1 else s' := by
  unfold Recv.endLine
  rw [hs']
  dsimp only
  split <;> rfl

/-- After a line, the bytes left in the buffer are those behind the chunk. -/
theorem endLine_feed (hfit : Fit (s.processLine h line)) (hroomy : Roomy (s.processLine h line))
    (hbuf : s.buf = []) (rest : List Byte) :
    Between (s.endLine h line rest).1 (s.endLine h line rest).2 ∧
      (s.endLine h line rest).1.buf = [] ∧
      run (Recv.feed h) (s.endLine h line rest).1 (s.endLine h line rest).2 =
        run (Recv.feed h) (s.endLine h line []).1 rest ∧
      (Along (Recv.feed h) (Clean h) (s.endLine h line []).1 rest →
        Along (Recv.feed h) (Clean h) (s.endLine h line rest).1 (s.endLine h line rest).2) := by
  have hbuf' : (s.endLine h line rest).1.buf = [] := by
    unfold Recv.endLine
    dsimp only
    split <;> simp [hbuf]
  rw [endLine_nil rfl]
  unfold Recv.endLine at hbuf' ⊢
  dsimp only at hbuf' ⊢
  generalize s.processLine h line = s' at *
  by_cases hopen : s'.crashed = false ∧ 0 ≤ s'.activeReadData
  · rw [if_pos hopen] at hbuf'
    rw [if_pos hopen, if_pos hopen]
    rcases hroomy hopen.1 hopen.2 with hnone | ⟨channels, d, hchunk⟩
    · -- a chunk of no channel: nothing goes on
      have htake : ∀ data, s'.takeData data = (s'.crash, 0) := fun data => by
        simp only [Recv.takeData, hnone]
      simp only [htake, List.drop_zero] at hbuf' ⊢
      exact ⟨⟨⟨hfit.congr rfl rfl, fun hlive => by cases hlive⟩, fun hlive => by cases hlive⟩,
        hbuf', trivial, id⟩
    obtain ⟨hbounded, hall⟩ := hfit.takeData hchunk rest
    have hbetween : Between (s'.takeData rest).1 (rest.drop (s'.takeData rest).2) := by
      refine ⟨hbounded, fun _ hactive => ?_⟩
      rw [hall hactive, List.drop_length]
    by_cases hempty : d.binaryReadChunkSize = 0
    · rw [takeData_empty hchunk hempty rest] at hbetween hbuf' ⊢
      exact ⟨hbetween, hbuf', rfl, id⟩
    · have hleast := hchunk.least
      have hchunk1 : OpenChunk s' 1 channels d := ⟨hchunk.active, by omega, hchunk.rest⟩
      have hdone : Bounded s' := ⟨hfit, fun _ _ => ⟨channels, d, hchunk1⟩⟩
      have hsplit := List.take_append_drop (s'.takeData rest).2 rest
      rw [hfit.takeData_nil hchunk1]
      refine ⟨hbetween, hbuf', ?_, fun halong => ?_⟩
      · conv_rhs => rw [← hsplit, run_append]
        rw [← run_feed_takeData hdone hopen.1 hopen.2]
      · rw [← hsplit, along_append, ← run_feed_takeData hdone hopen.1 hopen.2] at halong
        exact halong.2
  · rw [if_neg hopen] at hbuf'
    rw [if_neg hopen, if_neg hopen]
    have hclosed : Bounded s' := ⟨hfit, fun hcrash hactive => absurd ⟨hcrash, hactive⟩ hopen⟩
    exact ⟨⟨hclosed, fun hcrash hactive => absurd ⟨hcrash, hactive⟩ hopen⟩, hbuf', rfl, id⟩

theorem endLine_length_le (rest : List Byte) :
    (s.endLine h line rest).2.length ≤ rest.length := by
  unfold Recv.endLine
  dsimp only
  split
  · simp
  · exact le_rfl

/-- The text in front of the scanned bytes matters only when none are left. -/
theorem scan_command (fuel : Nat) (command : List Byte) {rest : List Byte}
    (hrest : atEnd rest = false) :
    s.scan h (fuel + 1) command rest = s.scan h (fuel + 1) [] rest := by
  simp [Recv.scan, hrest]

theorem scan_nil (hc : s.crashed = false) (fuel : Nat) (command : List Byte) :
    s.scan h fuel command [] = { s with buf := command } := by
  cases fuel with
  | zero => rfl
  | succ fuel => simp [Recv.scan, hc, atEnd]

/-- What comes behind the text of a line. -/
theorem dropWhile_inLine_cons {text : List Byte} {b : Byte} {rest : List Byte}
    (h : text.dropWhile inLine = b :: rest) : b = 0 ∨ b = lf ∨ b = cr := by
  have hb := List.head?_dropWhile_not inLine text
  rw [h] at hb
  by_contra hne
  rw [not_or, not_or] at hne
  simp [(inLine_iff b).2 hne] at hb

theorem skipSpace_head {text : List Byte} : ∀ b ∈ (skipSpace text).head?, isspace b = false := by
  intro b hb
  have hnot := List.head?_dropWhile_not isspace text
  rw [skipSpace] at hb
  rw [hb] at hnot
  simpa using hnot

/-- A line whose text has been kept ends. -/
theorem feed_lf_word (hc : s.crashed = false) (hclosed : s.activeReadData < 0) (hbuf : s.buf = [])
    {kept line : List Byte} (hne : kept ≠ []) (hline : lineOf kept = line) :
    ({ s with buf := kept } : Recv).feed h lf = (s.endLine h line []).1 := by
  rw [feed_lf (s := { s with buf := kept }) hc hclosed, Recv.feedLf, if_neg hne, hline]
  show (({ s with buf := [] } : Recv).endLine h line []).1 = (s.endLine h line []).1
  rw [← hbuf]

/-- Text that begins with neither a space nor a NUL, but with no line, is no text. -/
theorem nil_of_takeWhile_inLine {text : List Byte} (hnul : ∀ b ∈ text.head?, b ≠ 0)
    (hstart : ∀ b ∈ text.head?, isspace b = false) (hne : text.takeWhile inLine = []) : text = [] := by
  have hsplit := List.takeWhile_append_dropWhile (p := inLine) (l := text)
  cases htext : text with
  | nil => rfl
  | cons b more =>
    rw [hne, List.nil_append] at hsplit
    have hfirst : b ∈ text.head? := by rw [htext]; rfl
    rcases dropWhile_inLine_cons (hsplit.trans htext) with hb | hb | hb
    · exact absurd hb (hnul b hfirst)
    · have hspace := hstart b hfirst
      rw [hb] at hspace
      cases hspace
    · have hspace := hstart b hfirst
      rw [hb] at hspace
      cases hspace

/-- Behind a bare CR bytes are taken as if nothing had been kept in front of it. -/
theorem bareCr_feed (hc : s.crashed = false) (hclosed : s.activeReadData < 0) (hbuf : s.buf = [])
    (hbounded : Bounded s) {command more : List Byte} {c : Byte} (hlf : c ≠ lf)
    (hclean : Along (Recv.feed h) (Clean h) { s with buf := command ++ [cr] } (c :: more)) :
    Along (Recv.feed h) (Clean h) s (cr :: c :: more) ∧
      run (Recv.feed h) s (cr :: c :: more) =
        run (Recv.feed h) { s with buf := command ++ [cr] } (c :: more) := by
  have hcr : s.feed h cr = s := feed_space hc hclosed hbuf rfl
  have hsame : ({ s with buf := command ++ [cr] } : Recv).feed h c = s.feed h c := by
    rw [feed_text (s := { s with buf := command ++ [cr] }) hc hclosed hlf,
      feed_text hc hclosed hlf, keep_bare_cr, hbuf]
  constructor
  · refine ⟨⟨fun _ _ => by decide, fun _ _ hne => absurd hne (by decide),
      by rw [hcr]; exact hbounded⟩, ?_⟩
    rw [hcr, along_cons, ← hsame]
    exact ⟨⟨hclean.1.text, fun _ _ heq => absurd heq hlf, hsame ▸ hclean.1.bounded⟩, hclean.2⟩
  · rw [run_cons, hcr, run_cons, run_cons, hsame]

/-- The end of a line, when the loop goes on behind it as it should. -/
theorem scan_endLine {fuel : Nat} {command kept more : List Byte} (hc : s.crashed = false)
    (hclosed : s.activeReadData < 0) (hbuf : s.buf = []) (hbounded : Bounded s) (hkept : kept ≠ [])
    (hlineOf : lineOf kept = command)
    (halong : Along (Recv.feed h) (Clean h) { s with buf := kept } (lf :: more))
    (hscan : (s.endLine h command more).1.buf = [] →
      Between (s.endLine h command more).1 (s.endLine h command more).2 →
      Along (Recv.feed h) (Clean h) (s.endLine h command more).1 (s.endLine h command more).2 →
      (s.endLine h command more).1.scan h fuel [] (s.endLine h command more).2 =
        run (Recv.feed h) (s.endLine h command more).1 (s.endLine h command more).2) :
    (s.endLine h command more).1.scan h fuel [] (s.endLine h command more).2 =
      run (Recv.feed h) { s with buf := kept } (lf :: more) := by
  have hfeed := feed_lf_word (h := h) hc hclosed hbuf hkept hlineOf
  obtain ⟨hstep, halong⟩ := halong
  have hroomy : Roomy (s.processLine h command) := by
    have hroom := hstep.roomy hc hclosed rfl hkept
    rwa [hlineOf, show ({ s with buf := [] } : Recv) = s by rw [← hbuf]] at hroom
  have hfit := (processLine_done h hbounded.fit hclosed command).fit
  rw [hfeed] at halong
  obtain ⟨hbetween', hbuf', hrun', halong'⟩ := endLine_feed hfit hroomy hbuf more
  rw [run_cons, hfeed, ← hrun']
  exact hscan hbuf' hbetween' (halong' halong)

/-- **The loop of `processBuffer`** does to clean bytes what happens when they
arrive one by one. -/
theorem scan_feed {fuel : Nat} {rest : List Byte} (hfuel : rest.length < fuel)
    (hbuf : s.buf = []) (hbetween : Between s rest)
    (hclean : Along (Recv.feed h) (Clean h) s rest) :
    s.scan h fuel [] rest = run (Recv.feed h) s rest := by
  induction fuel generalizing s rest with
  | zero => omega
  | succ fuel ih =>
    rcases Bool.eq_false_or_eq_true s.crashed with hc | hc
    · rw [run_feed_crashed hc, Recv.scan, if_pos hc]
    by_cases hnil : rest = []
    · rw [hnil, scan_nil hc, run_nil, ← hbuf]
    have hclosed : s.activeReadData < 0 := by
      by_contra hopen
      exact hnil (hbetween.rest hc (not_lt.1 hopen))
    have hrest : atEnd rest = false := by
      cases rest with
      | nil => exact absurd rfl hnil
      | cons b rest => simpa [atEnd] using hclean.1.text hc hclosed
    obtain ⟨hspace, hskip⟩ := run_feed_skipSpace (h := h) hc hclosed hbuf rest
    replace hclean := hskip hclean
    have hlen : (skipSpace rest).length ≤ rest.length := List.length_dropWhile_le _ _
    have hstart : ∀ b ∈ (skipSpace rest).head?, isspace b = false := skipSpace_head
    rw [← hspace, Recv.scan, if_neg (by simp [hc]), if_neg (by simp [hrest])]
    dsimp only
    generalize skipSpace rest = text at *
    have htext : ∀ b ∈ text.takeWhile inLine, inLine b = true :=
      fun b hb => List.mem_takeWhile_imp hb
    have hsplit := List.takeWhile_append_dropWhile (p := inLine) (l := text)
    by_cases hne : text.takeWhile inLine = []
    · -- nothing but space was left
      have hnul : ∀ b ∈ text.head?, b ≠ 0 := by
        intro b hb
        obtain ⟨more, rfl⟩ := List.head?_eq_some_iff.mp hb
        exact hclean.1.text hc hclosed
      have htextNil := nil_of_takeWhile_inLine hnul hstart hne
      subst htextNil
      simp only [List.takeWhile_nil, List.dropWhile_nil, ending, scan_nil hc, run_nil]
      rw [← hbuf]
    -- the text of the line is kept, and what stands behind it comes
    obtain ⟨hkeep, hword⟩ := run_keep_word htext
      (fun b hb => hstart b (by rw [← hsplit, List.head?_append, hb]; rfl)) hne
    generalize text.takeWhile inLine = command at *
    have hrunText : run (Recv.feed h) s command = { s with buf := command } := by
      rw [run_feed_text hc hclosed (isText_of_inLine htext), hbuf, hkeep]
    rw [← hsplit, along_append, hrunText] at hclean
    obtain ⟨-, hclean⟩ := hclean
    have hrun : run (Recv.feed h) s text =
        run (Recv.feed h) { s with buf := command } (text.dropWhile inLine) := by
      conv_lhs => rw [← hsplit, run_append, hrunText]
    rw [hrun]
    have hless : (text.dropWhile inLine).length < fuel := by
      have := congrArg List.length hsplit
      have := List.length_pos_iff.2 hne
      rw [List.length_append] at *
      omega
    have hfeedCr : ({ s with buf := command } : Recv).feed h cr = { s with buf := command ++ [cr] } := by
      rw [feed_text (s := { s with buf := command }) hc hclosed (by decide), hword.keep_cr]
    -- a line whose end has come
    have hline : ∀ (kept more : List Byte), kept ≠ [] → lineOf kept = command →
        more.length < fuel →
        Along (Recv.feed h) (Clean h) { s with buf := kept } (lf :: more) →
        (s.endLine h command more).1.scan h fuel [] (s.endLine h command more).2 =
          run (Recv.feed h) { s with buf := kept } (lf :: more) := by
      intro kept more hkeptNe hlineOf hmore halong
      refine scan_endLine hc hclosed hbuf hbetween.bounded hkeptNe hlineOf halong ?_
      intro hbuf' hbetween' halong'
      exact ih (lt_of_le_of_lt (endLine_length_le more) hmore) hbuf' hbetween' halong'
    generalize hbehind : text.dropWhile inLine = behind at *
    cases behind with
    | nil =>
      simp only [ending, scan_nil hc, run_nil]
    | cons b more =>
      rcases dropWhile_inLine_cons hbehind with rfl | rfl | rfl
      · exact absurd rfl (hclean.1.text hc hclosed)
      · exact hline command more hne hword.lineOf (by simp at hless; omega) hclean
      · cases more with
        | nil =>
          simp only [ending, run_cons, run_nil, hfeedCr]
          rfl
        | cons c more =>
          rw [along_cons, hfeedCr] at hclean
          rw [run_cons, hfeedCr]
          by_cases hlf : c = lf
          · rw [hlf] at hclean ⊢
            exact hline (command ++ [cr]) more (by simp) (lineOf_cr command)
              (by simp at hless; omega) hclean.2
          · -- a bare CR: what follows is taken as if nothing had been kept
            have hnul : c ≠ 0 := hclean.2.1.text hc hclosed
            obtain ⟨halong, hrunCr⟩ := bareCr_feed hc hclosed hbuf hbetween.bounded hlf hclean.2
            have hend : ending (cr :: c :: more) = .unfinished (cr :: c :: more) := by
              simp [ending, hlf, hnul, show cr ≠ lf by decide]
            rw [hend]
            dsimp only
            obtain ⟨fuel, rfl⟩ := Nat.exists_eq_succ_of_ne_zero (n := fuel) (by omega)
            rw [Nat.succ_eq_add_one, scan_command _ _ (by simp [atEnd, cr]), ← hrunCr]
            exact ih hless hbuf ⟨hbetween.bounded, fun _ hopen => absurd hopen (not_le.2 hclosed)⟩
              halong

end

end Rts2.Connection

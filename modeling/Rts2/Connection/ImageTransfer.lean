import Rts2.Connection.BinaryTransfer
import Rts2.Connection.ReadOn
import Mathlib.Data.Nat.Digits.Lemmas

/-! # An image, from the calls that send it to `fullDataReceived`

Any number of channels and sizes, any calls within them, any partial writes and any
split into reads. The image arrives if and only if the last call that goes out is the
first after which nothing is missing. -/
namespace Rts2.Connection
open Rts2.Lib

/-! ## Sending the pieces -/

/-- A call of `sendBinaryData`. -/
def Sender.sendCall (data_conn : Int) (s : Sender) (c : Call) : Sender :=
  (s.sendBinaryData data_conn c.chan c.data c.header c.answers).1

/-- The header of the call goes out in one `write`. -/
def Call.goesOut (data_conn : Int) (c : Call) : Bool :=
  writesWhole ((dataLine data_conn c.chan c.data.length).length + 1) c.header

section
variable {s : Sender} {data_conn : Int} {rest : List Nat}

theorem sendCalls_closed (hclosed : s.isOpen = false) (calls : List Call) :
    run (Sender.sendCall data_conn) s calls = s := by
  induction calls with
  | nil => rfl
  | cons c calls ih =>
    have hsame : s.sendCall data_conn c = s := by
      rw [Sender.sendCall, Sender.sendBinaryData, sendMsg_closed hclosed]
    rw [run_cons, hsame, ih]

/-- **The stream of the calls**: those before the first that is cut, and the part of
that one's header. -/
theorem sendCalls_sent (hopen : s.isOpen = true) (hsending : Sending s data_conn rest)
    {calls : List Call} (hwithin : Along Call.leaves (fun rest c => c.Within rest) rest calls)
    (hsends : ∀ c ∈ calls, Answer.error ∉ c.answers) :
    ∃ part, (run (Sender.sendCall data_conn) s calls).sent =
        s.sent ++ (stream ((calls.takeWhile (Call.goesOut data_conn)).map (Call.item data_conn)) ++
          part) ∧
      (part = [] ∨ ∃ c ∈ calls, part <+: dataLine data_conn c.chan c.data.length) := by
  induction calls generalizing s rest with
  | nil => exact ⟨[], (List.append_nil _).symm, .inl rfl⟩
  | cons c calls ih =>
    obtain ⟨hc, hcalls⟩ := hwithin
    obtain ⟨hsend, hsends⟩ := List.forall_mem_cons.mp hsends
    rw [run_cons, List.takeWhile_cons]
    cases hout : c.goesOut data_conn with
    | true =>
      have hmsg := sendMsg_whole hopen hout
      obtain ⟨s', hloop, hsent, hopen', hsending'⟩ := sendLoop_spec c.chan hsend
        (s := { s with sent := s.sent ++ (dataLine data_conn c.chan c.data.length ++ [lf]) })
        ⟨hsending.entry, hsending.total⟩ hc.2
      have hcall : s.sendCall data_conn c = s' := by
        rw [Sender.sendCall, Sender.sendBinaryData, hmsg]
        exact congrArg Prod.fst hloop
      obtain ⟨part, hrun, hpart⟩ := ih (hopen'.trans hopen) hsending' hcalls hsends
      refine ⟨part, ?_, hpart.imp_right fun ⟨c', hc', hbegin⟩ =>
        ⟨c', List.mem_cons_of_mem _ hc', hbegin⟩⟩
      rw [hcall, hrun, hsent, if_pos rfl, List.map_cons]
      simp [stream, Item.bytes, Item.line, Call.item]
    | false =>
      obtain ⟨part, hbegin, hmsg⟩ := sendMsg_cut hopen hout
      have hcall : s.sendCall data_conn c =
          { s with sent := s.sent ++ part }.connectionError := by
        rw [Sender.sendCall, Sender.sendBinaryData, hmsg]
      refine ⟨part, ?_, .inr ⟨c, List.mem_cons_self, hbegin⟩⟩
      rw [hcall, sendCalls_closed rfl, if_neg (by decide)]
      rfl

end

/-! ## Images -/

/-- An image and the way it is sent: the channels, the calls, and what the socket does
with their bytes. A size is what an address space holds, a number of channels an
`int`; the calls stay within the sizes, and no `send` fails. -/
structure Transfer where
  dataType : Int32
  chansize : List Nat
  declared : List Answer
  calls : List Call
  channum_lt : chansize.length < 2 ^ 31
  total_lt : chansize.sum < 2 ^ 63
  within : Along Call.leaves (fun rest c => c.Within rest) chansize calls
  sends : ∀ c ∈ calls, Answer.error ∉ c.answers

/-- What the channels were sent. -/
def Transfer.image (t : Transfer) : List (List Byte) :=
  run Call.put (List.replicate t.chansize.length []) t.calls

/-- `startBinaryData`, and the calls of `sendBinaryData` with what it returned. -/
def Transfer.send (t : Transfer) (s : Sender) : Sender :=
  run (Sender.sendCall (s.startBinaryData t.dataType.toInt t.chansize t.declared).2)
    (s.startBinaryData t.dataType.toInt t.chansize t.declared).1 t.calls

/-- Two connections of which one has sent `before` to the other and neither is broken.
The buffer, counted by an `int`, has room for every line. -/
structure Session (h : Handlers) where
  sender : Sender
  before : List Item
  isOpen : sender.isOpen = true
  dataConn_nonneg : 0 ≤ sender.dataConn
  dataConn_lt : sender.dataConn < 2 ^ 31 - 1
  sent : sender.sent = stream before
  protocol : ProtocolStream h before
  alive : (run (Recv.deliver h) .start before).crashed = false
  received : (run (Recv.deliver h) .start before).isOpen = true
  short : ∀ it ∈ before, it.line.length + maxData < 2 ^ 31

/-- The data connection of the next image. -/
def Session.conn {h : Handlers} (S : Session h) : Int := S.sender.dataConn + 1

/-- The receiver before the image. -/
def Session.old {h : Handlers} (S : Session h) : Recv := run (Recv.deliver h) .start S.before

/-- The receiver when it has read the image in pieces of at most these sizes. -/
def Session.reads {h : Handlers} (S : Session h) (t : Transfer) (sizes : List Nat) : Link :=
  readsOf h (t.send S.sender).sent sizes

/-- The image arrives however the stream is read. -/
structure Delivered {h : Handlers} (S : Session h) (t : Transfer) : Prop where
  read : ∀ sizes, (t.send S.sender).sent.length ≤ (sizes.filter (0 < ·)).length →
    (S.reads t sizes).input = []
  received : ∀ sizes, (S.reads t sizes).input = [] →
    Received S.conn S.old t.image (S.reads t sizes).conn

/-- The `C` line goes out in one `write`. -/
def Transfer.declares (t : Transfer) (data_conn : Int) : Bool :=
  writesWhole ((binaryLine data_conn t.dataType.toInt t.chansize).length + 1) t.declared

/-- The calls that go out, to the first whose header is cut. -/
def Transfer.out (t : Transfer) (data_conn : Int) : List Call :=
  if t.declares data_conn then t.calls.takeWhile (Call.goesOut data_conn) else []

/-- Of the calls that go out, the last is the first after which nothing is missing. -/
def Transfer.completes (t : Transfer) (data_conn : Int) : Bool :=
  lastCompletes t.chansize.sum (t.out data_conn)

/-- What goes out, whole. -/
def Transfer.items (t : Transfer) (data_conn : Int) : List Item :=
  if t.declares data_conn then
    ⟨binaryLine data_conn t.dataType.toInt t.chansize, false, []⟩ ::
      (t.out data_conn).map (Call.item data_conn)
  else []

/-! ## The lines are short -/

theorem decimal_length {n k : Nat} (hk : 0 < k) (hn : n < 10 ^ k) :
    (decimal n).length ≤ k := by
  have hdigits : (Nat.digits 10 n).length ≤ k := (Nat.digits_length_le_iff (by decide) n).mpr hn
  show (decimalNat n).length ≤ k
  unfold decimalNat
  split
  · exact hk
  · rwa [List.length_map, List.length_reverse]

theorem dataLine_length {conn : Int} (hl : 0 ≤ conn) (hu : conn < 2 ^ 31) {chan size : Nat}
    (hchan : chan < 2 ^ 31) (hsize : size < 2 ^ 63) :
    (dataLine conn chan size).length + maxData < 2 ^ 31 := by
  have hconn := decimal_length (n := conn.toNat) (k := 10) (by decide) (by omega)
  rw [Int.toNat_of_nonneg hl] at hconn
  have hchan' := decimal_length (n := chan) (k := 10) (by decide) (by omega)
  have hsize' := decimal_length (n := size) (k := 19) (by decide) (by omega)
  have hmax : maxData = 2000 := rfl
  simp only [dataLine, protoData, List.length_append, List.length_cons, List.length_nil]
  omega

/-! ## The stream of an image -/

section
variable {h : Handlers} (S : Session h) (t : Transfer)

theorem Session.conn_nonneg : 0 ≤ S.conn := Int.le_add_one S.dataConn_nonneg

theorem Session.conn_lt : S.conn < 2 ^ 31 := by
  have hlt := S.dataConn_lt
  unfold Session.conn
  omega

theorem Session.old_idle : Idle S.old :=
  (stream_feed ⟨bounded_start, rfl, fun _ => by decide⟩ S.protocol).2.2

/-- What has gone out: whole lines and pieces, and a part of the line that was cut. -/
theorem send_sent :
    ∃ part, (t.send S.sender).sent = stream (S.before ++ t.items S.conn) ++ part ∧
      (part = [] ∨ part <+: binaryLine S.conn t.dataType.toInt t.chansize ∨
        ∃ c ∈ t.calls, part <+: dataLine S.conn c.chan c.data.length) := by
  have hstream : stream (S.before ++ t.items S.conn) =
      S.sender.sent ++ stream (t.items S.conn) := by
    rw [S.sent, stream, List.map_append, List.flatten_append]
    rfl
  rw [hstream]
  cases hout : t.declares S.conn with
  | true =>
    have hmsg := sendMsg_whole (s := { S.sender with dataConn := S.conn }) S.isOpen hout
    have hstart : S.sender.startBinaryData t.dataType.toInt t.chansize t.declared =
        ({ S.sender with
          dataConn := S.conn
          sent := S.sender.sent ++ (binaryLine S.conn t.dataType.toInt t.chansize ++ [lf])
          writeChannels := Function.update S.sender.writeChannels S.conn (some t.chansize) },
          S.conn) := by
      rw [Sender.startBinaryData]
      exact hmsg ▸ rfl
    obtain ⟨part, hrun, hpart⟩ := sendCalls_sent
      (s := { S.sender with
          dataConn := S.conn
          sent := S.sender.sent ++ (binaryLine S.conn t.dataType.toInt t.chansize ++ [lf])
          writeChannels := Function.update S.sender.writeChannels S.conn (some t.chansize) })
      S.isOpen ⟨.inl (Function.update_self ..), by have := t.total_lt; omega⟩ t.within t.sends
    refine ⟨part, ?_, hpart.imp_right .inr⟩
    rw [Transfer.send, hstart, hrun, Transfer.items, Transfer.out, hout, if_pos rfl, if_pos rfl]
    simp [stream, Item.bytes, Item.line]
  | false =>
    obtain ⟨part, hbegin, hmsg⟩ :=
      sendMsg_cut (s := { S.sender with dataConn := S.conn }) S.isOpen hout
    have hstart : S.sender.startBinaryData t.dataType.toInt t.chansize t.declared =
        ({ S.sender with
          dataConn := S.conn
          sent := S.sender.sent ++ part }.connectionError, -1) := by
      rw [Sender.startBinaryData]
      exact hmsg ▸ rfl
    refine ⟨part, ?_, .inr (.inl hbegin)⟩
    rw [Transfer.send, hstart, sendCalls_closed rfl, Transfer.items, hout, if_neg (by decide)]
    simp [stream, Sender.connectionError]

end

/-! ## What arrives -/

/-- Behind calls that leave nothing, calls within the sizes put nothing. -/
theorem put_nothing {rest : List Nat} (hnone : rest.sum = 0) {calls : List Call}
    (hwithin : Along Call.leaves (fun rest c => c.Within rest) rest calls)
    (contents : List (List Byte)) : run Call.put contents calls = contents := by
  induction calls generalizing rest contents with
  | nil => rfl
  | cons c calls ih =>
    obtain ⟨⟨-, hlen⟩, hcalls⟩ := hwithin
    have hle := getD_le_sum rest c.chan
    have hdata : c.data = [] := List.length_eq_zero_iff.mp (by omega)
    have hput : c.put contents = contents := by
      simp only [Call.put, hdata, List.append_nil]
      exact List.modify_id _ _
    have hleaves : (c.leaves rest).sum + c.data.length = rest.sum := takeOff_sum hlen
    rw [run_cons, hput]
    exact ih (by omega) hcalls contents

theorem leaves_nothing {rest : List Nat} {calls : List Call}
    (hwithin : Along Call.leaves (fun rest c => c.Within rest) rest calls)
    (hlast : lastCompletes rest.sum calls = true) : (run Call.leaves rest calls).sum = 0 := by
  induction calls generalizing rest with
  | nil => cases hlast
  | cons c calls ih =>
    obtain ⟨hc, hcalls⟩ := hwithin
    have hsum : (c.leaves rest).sum + c.data.length = rest.sum := takeOff_sum hc.2
    rw [lastCompletes] at hlast
    split at hlast
    next hle =>
      rw [List.isEmpty_iff.mp hlast]
      show (c.leaves rest).sum = 0
      omega
    next hlt =>
      rw [show rest.sum - c.data.length = (c.leaves rest).sum by omega] at hlast
      exact ih hcalls hlast

section
variable {h : Handlers} (S : Session h) (t : Transfer)

/-- What has gone out is received, whole, if its last call completes it; otherwise no
image is. -/
theorem items_received :
    Along (Recv.deliver h) (ItemOk h) S.old (t.items S.conn) ∧
      (t.completes S.conn = true →
        Received S.conn S.old t.image (run (Recv.deliver h) S.old (t.items S.conn))) ∧
      ∀ contents, Received S.conn S.old contents
          (run (Recv.deliver h) S.old (t.items S.conn)) → t.completes S.conn = true := by
  unfold Transfer.items Transfer.completes Transfer.out
  split
  next =>
    obtain ⟨hok, hrec⟩ := deliver_binary (h := h) S.conn_nonneg S.conn_lt S.old_idle S.alive
      t.dataType t.channum_lt t.total_lt
    have hall := t.within
    rw [← List.takeWhile_append_dropWhile (p := Call.goesOut S.conn) (l := t.calls),
      along_append] at hall
    obtain ⟨hwithin, hbehind⟩ := hall
    obtain ⟨hoks, hlast, honly⟩ := hrec.run (h := h) S.conn_nonneg S.conn_lt t.channum_lt hwithin
    refine ⟨⟨hok, hoks⟩, fun hcompletes => ?_, honly⟩
    have himage : t.image = run Call.put (List.replicate t.chansize.length [])
        (t.calls.takeWhile (Call.goesOut S.conn)) := by
      conv_lhs => rw [Transfer.image,
        ← List.takeWhile_append_dropWhile (p := Call.goesOut S.conn) (l := t.calls), run_append]
      exact put_nothing (leaves_nothing hwithin hcompletes) hbehind _
    rw [himage]
    exact hlast hcompletes
  next =>
    refine ⟨trivial, nofun, fun contents hreceived => ?_⟩
    obtain ⟨channels, hfull, -⟩ := hreceived.full
    simp at hfull

end

/-! ## What is read -/

theorem Received.withBuf {conn : Int} {old s : Recv} {contents : List (List Byte)}
    (hreceived : Received conn old contents s) (buf : List Byte) :
    Received conn old contents { s with buf := buf } :=
  ⟨hreceived.alive, hreceived.isOpen, hreceived.closed, hreceived.gone, hreceived.full⟩

section
variable {h : Handlers} (S : Session h) (t : Transfer)

/-- What has gone out, byte by byte, leaves what its lines and pieces leave, and the
part of the line that was cut. -/
theorem send_feed :
    Along (Recv.feed h) (Clean h) .start (t.send S.sender).sent ∧
      run (Recv.feed h) .start (t.send S.sender).sent =
        { run (Recv.deliver h) S.old (t.items S.conn) with
          buf := (run (Recv.feed h) .start (t.send S.sender).sent).buf } := by
  obtain ⟨part, hsent, hpart⟩ := send_sent S t
  have htext : IsText part := by
    rcases hpart with rfl | hbegin | ⟨c, -, hbegin⟩
    · exact fun b hb => by cases hb
    · exact fun b hb => (noLineEnd_binaryLine _ _ _).isText b (hbegin.subset hb)
    · exact fun b hb => (noLineEnd_dataLine _ _ _).isText b (hbegin.subset hb)
  have hok : ProtocolStream h (S.before ++ t.items S.conn) :=
    (along_append _ _ _).mpr ⟨S.protocol, (items_received S t).1⟩
  obtain ⟨hclean, hrun⟩ := stream_part ⟨bounded_start, rfl, fun _ => by decide⟩ hok htext
  rw [run_append (Recv.deliver h)] at hrun
  rw [← hsent] at hclean hrun
  exact ⟨hclean, hrun⟩

/-- The calls name channels and pieces of an image. -/
theorem call_bounds {rest : List Nat} {calls : List Call}
    (hwithin : Along Call.leaves (fun rest c => c.Within rest) rest calls) :
    ∀ c ∈ calls, c.chan < rest.length ∧ c.data.length ≤ rest.sum := by
  induction calls generalizing rest with
  | nil => exact fun c hc => by cases hc
  | cons c calls ih =>
    obtain ⟨⟨hchan, hlen⟩, hcalls⟩ := hwithin
    have hle := getD_le_sum rest c.chan
    have hsum : (c.leaves rest).sum + c.data.length = rest.sum := takeOff_sum hlen
    have hcount : (c.leaves rest).length = rest.length := List.length_modify _ _ _
    intro c' hc'
    rcases List.mem_cons.mp hc' with rfl | hc'
    · exact ⟨hchan, by omega⟩
    · obtain ⟨hchan', hlen'⟩ := ih hcalls c' hc'
      exact ⟨by omega, by omega⟩

/-- The buffer has room for all that comes. -/
theorem send_kept
    (hshort : (binaryLine S.conn t.dataType.toInt t.chansize).length + maxData < 2 ^ 31)
    {taken : List Byte} (htaken : taken <+: (t.send S.sender).sent) :
    (run (Recv.feed h) .start taken).buf.length + maxData < 2 ^ 31 := by
  have hmax : maxData = 2000 := rfl
  obtain ⟨part, hsent, hpart⟩ := send_sent S t
  have hdata : ∀ c ∈ t.calls,
      (dataLine S.conn c.chan c.data.length).length + maxData < 2 ^ 31 := by
    intro c hc
    obtain ⟨hchan, hlen⟩ := call_bounds t.within c hc
    have hnum := t.channum_lt
    have htotal := t.total_lt
    exact dataLine_length S.conn_nonneg S.conn_lt (by omega) (by omega)
  have hpartShort : part.length + maxData < 2 ^ 31 := by
    rcases hpart with rfl | hbegin | ⟨c, hc, hbegin⟩
    · decide
    · exact lt_of_le_of_lt (Nat.add_le_add_right hbegin.length_le _) hshort
    · exact lt_of_le_of_lt (Nat.add_le_add_right hbegin.length_le _) (hdata c hc)
  have hlines : ∀ it ∈ S.before ++ t.items S.conn, it.line.length + maxData < 2 ^ 31 := by
    intro it hit
    rcases List.mem_append.mp hit with hit | hit
    · exact S.short it hit
    · unfold Transfer.items Transfer.out at hit
      split at hit
      · rcases List.mem_cons.mp hit with rfl | hit
        · exact hshort
        · obtain ⟨c, hc, rfl⟩ := List.mem_map.mp hit
          exact hdata c ((List.takeWhile_sublist _).subset hc)
      · cases hit
  have hok : ProtocolStream h (S.before ++ t.items S.conn) :=
    (along_append _ _ _).mpr ⟨S.protocol, (items_received S t).1⟩
  rw [hsent] at htaken
  have hkept := stream_kept (2 ^ 31 - 1 - maxData)
    ⟨bounded_start, rfl, fun _ => by decide⟩ hok (fun it hit => by have := hlines it hit; omega)
    (by omega) htaken
  omega

end

/-- **An image arrives** if and only if the last call that goes out is the first after
which nothing is missing. -/
theorem image_delivered {h : Handlers} (S : Session h) (t : Transfer)
    (hshort : (binaryLine S.conn t.dataType.toInt t.chansize).length + maxData < 2 ^ 31) :
    Delivered S t ↔ t.completes S.conn = true := by
  obtain ⟨-, hlast, honly⟩ := items_received S t
  obtain ⟨hclean, hfeeds⟩ := send_feed S t
  constructor
  · intro hdelivered
    -- reads of one byte each
    have hnil := hdelivered.read (List.replicate (t.send S.sender).sent.length 1) (by simp)
    have hreceived := hdelivered.received _ hnil
    obtain ⟨data, hdata, harrived⟩ := (Arrived.start h (t.send S.sender).sent).run hclean
      (List.replicate (t.send S.sender).sent.length 1)
    have hall : (t.send S.sender).sent = data ++ (S.reads t _).input := hdata
    rw [hnil, List.append_nil] at hall
    rw [List.nil_append, ← hall] at harrived
    rcases harrived.conn with hconn | hconn
    · have hsame : (S.reads t _).conn = _ := hconn
      rw [hsame, hfeeds] at hreceived
      exact honly t.image (hreceived.withBuf _)
    · have hsame : (S.reads t _).conn = _ := hconn
      rw [hsame] at hreceived
      have hclosed : false = S.old.isOpen := hreceived.isOpen
      exact absurd (hclosed.trans S.received) (by decide)
  · intro hcompletes
    have hreceived := hlast hcompletes
    have hreadable : Readable h (2 ^ 31 - 1 - maxData) (t.send S.sender).sent := by
      refine ⟨hclean, ?_, ?_, fun taken htaken => ?_⟩
      · rw [hfeeds]
        exact hreceived.alive
      · rw [hfeeds]
        exact hreceived.isOpen.trans S.received
      · have hkept := send_kept S t hshort htaken
        omega
    have hmost : 2 ^ 31 - 1 - maxData + maxData < 2 ^ 31 := by decide
    refine ⟨fun sizes => (readsOf_all hmost hreadable sizes).2, fun sizes hnil => ?_⟩
    show Received S.conn S.old t.image (readsOf h (t.send S.sender).sent sizes).conn
    rw [(readsOf_all hmost hreadable sizes).1 hnil, hfeeds]
    exact hreceived.withBuf _

/-- Handlers that leave every line alone, one connection new to another. -/
def newSession : Session quietHandlers where
  sender := { isOpen := true, dataConn := 0, writeChannels := fun _ => none, sent := [] }
  before := []
  isOpen := rfl
  dataConn_nonneg := by decide
  dataConn_lt := by decide
  sent := rfl
  protocol := trivial
  alive := rfl
  received := rfl
  short := by simp

/-- Two channels, of 3 and 0 bytes; the last piece goes out byte by byte. -/
def smallTransfer : Transfer where
  dataType := 16
  chansize := [3, 0]
  declared := [.eintr]
  calls := [⟨1, [], [], []⟩, ⟨0, [10], [], []⟩,
    ⟨0, [13, 0], [.eintr, .takes 100], [.takes 1, .eintr]⟩]
  channum_lt := by decide
  total_lt := by decide
  within := by decide
  sends := by decide

theorem image_delivered_small : Delivered newSession smallTransfer :=
  (image_delivered newSession smallTransfer (by decide +kernel)).mpr (by decide +kernel)

/-- One byte, and a piece of no bytes behind it. -/
def trailingTransfer : Transfer where
  dataType := 16
  chansize := [1]
  declared := []
  calls := [⟨0, [7], [], []⟩, ⟨0, [], [], []⟩]
  channum_lt := by decide
  total_lt := by decide
  within := by decide
  sends := by decide

theorem trailing_piece_crashes : ¬ Delivered newSession trailingTransfer := by
  intro hdelivered
  have hreceived := hdelivered.received [100] (by decide +kernel)
  exact absurd hreceived.alive (by decide +kernel)

end Rts2.Connection

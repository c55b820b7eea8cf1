import Rts2.Connection.Params
import Mathlib.Algebra.BigOperators.Group.List.Basic

/-! # Binary data channels

A `C` line declares the channels of a data connection and their sizes; `D` lines
announce chunks, whose bytes follow. Sizes are `size_t`, the chunk is signed. -/
namespace Rts2.Connection

/-- Subtraction of `size_t`. -/
def sizeSub (a b : Nat) : Nat := (a + 2 ^ 64 - b % 2 ^ 64) % 2 ^ 64

theorem sizeSub_of_le {a b : Nat} (h : b ≤ a) (ha : a < 2 ^ 64) : sizeSub a b = a - b := by
  rw [sizeSub, Nat.mod_eq_of_lt (lt_of_le_of_lt h ha)]
  omega

/-- `DataRead`: `bytes` is what stands between `binaryReadBuff` and
`binaryReadTop`, in a buffer of `size` bytes. -/
structure DataRead where
  size : Nat
  bytes : List Byte
  binaryReadDataSize : Nat
  binaryReadChunkSize : Int
  binaryReadType : Int
  deriving DecidableEq, Repr

/-- The constructor of `DataRead`. -/
def DataRead.new (size : Nat) (type : Int) : DataRead where
  size := size
  bytes := []
  binaryReadDataSize := size
  binaryReadChunkSize := -1
  binaryReadType := type

/-- Bytes are put at `binaryReadTop` and both counters go down. -/
def DataRead.store (d : DataRead) (data : List Byte) : DataRead :=
  { d with
    bytes := d.bytes ++ data
    binaryReadDataSize := sizeSub d.binaryReadDataSize data.length
    binaryReadChunkSize := d.binaryReadChunkSize - data.length }

/-- The bytes `addData` takes: what there is, at most the chunk. -/
def DataRead.takes (d : DataRead) (dataSize : Nat) : Int :=
  if (dataSize : Int) > d.binaryReadChunkSize then d.binaryReadChunkSize else dataSize

/-- The buffer holds what was stored, and the rest counter counts what is left. -/
def DataRead.Fits (d : DataRead) : Prop :=
  d.bytes.length + d.binaryReadDataSize = d.size

instance (d : DataRead) : Decidable d.Fits := inferInstanceAs (Decidable (_ = _))

/-- `DataChannels`, read from the socket or in shared memory segments. -/
inductive DataChannels where
  | data (channels : List DataRead)
  | shared (segments : List Int)
  deriving DecidableEq, Repr

/-- `std::vector::at`, which throws on an index out of range. -/
def atIdx {α : Type} (l : List α) (i : Int) : Option α :=
  if i < 0 then none else l[i.toNat]?

/-- The sizes in a `C` line. -/
def readSizes : Nat → List Byte → Option (List Int × List Byte)
  | 0, s => some ([], s)
  | n + 1, s =>
    match paramNextLong s with
    | none => none
    | some (chansize, rest) =>
      (readSizes n rest).map fun r => (chansize :: r.1, r.2)

/-- The segments in an `I` line. -/
def readSegments : Nat → List Byte → Option (List Int × List Byte)
  | 0, s => some ([], s)
  | n + 1, s =>
    match paramNextInteger s with
    | none => none
    | some (seg, rest) =>
      (readSegments n rest).map fun r => (seg :: r.1, r.2)

/-- Buffers of these sizes can be allocated: a negative size is a `size_t` from
`2^63` on, which `new` refuses, and no address space holds `2^63` bytes. -/
def canAllocate (sizes : List Int) : Bool :=
  sizes.all (0 ≤ ·) && sizes.sum < 2 ^ 63

/-- `DataChannels::initFromConnection`; `none` is an exception. -/
def initFromConnection (s : List Byte) : Option (List DataRead) :=
  match paramNextInteger s with
  | none => none
  | some (dataType, s) =>
    match paramNextInteger s with
    | none => none
    | some (channum, s) =>
      match readSizes channum.toNat s with
      | none => none
      | some (sizes, s) =>
        if canAllocate sizes && paramEnd s then
          some (sizes.map fun size => DataRead.new size.toNat dataType)
        else none

/-- `DataChannels::initSharedFromConnection`; `none` is an exception. -/
def initSharedFromConnection (s : List Byte) : Option (List Int) :=
  match paramNextInteger s with
  | none => none
  | some (channum, s) =>
    match readSegments channum.toNat s with
    | none => none
    | some (segments, s) => if paramEnd s then some segments else none

/-- `DataChannels::getRestSize` over channels read from the socket: a sum in
`long`, returned as `size_t`. -/
def restSize (channels : List DataRead) : Nat :=
  (channels.map DataRead.binaryReadDataSize).sum % 2 ^ 64

end Rts2.Connection

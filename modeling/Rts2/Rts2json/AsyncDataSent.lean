import Rts2.Rts2json.AsyncData

/-! # What an image client gets

As long as no pixel is sent in part, and types are known when they are used, the client gets the
announced bytes: the header with the requested type and each pixel converted once. -/
namespace Rts2.Rts2json.AsyncData
open Rts2.Lib Rts2.Connection

variable {r : Request} {s : State}

/-! ## Types and sizes -/

theorem ntohs_bounds (buff : List Byte) : 0 ≤ ntohs buff ∧ ntohs buff < 65536 := by
  have h0 := (buff.getD 0 0).toNat_lt
  have h1 := (buff.getD 1 0).toNat_lt
  unfold ntohs
  omega

/-- A type that is not negative is the number in the header. -/
theorem ntohs_imgh (h : 8 ≤ r.image.type) : ntohs r.image.imgh = r.image.type := by
  have hb := ntohs_bounds r.image.imgh
  unfold Image.type dataType at h ⊢
  rw [Int.bmod_def] at h ⊢
  omega

theorem ntohs_buff (h : 2 ≤ s.received) : ntohs (r.buff s) = ntohs r.image.imgh := by
  have hget : ∀ i < 2, (r.buff s).getD i 0 = r.image.imgh.getD i 0 := by
    intro i hi
    have himgh : i < r.image.imgh.length := by
      rw [r.image.length_imgh]
      exact hi.trans (by decide)
    have hbytes : i < (r.image.bytes.take s.received).length := by
      rw [List.length_take, Image.bytes, List.length_append]
      omega
    rw [List.getD_eq_getElem?_getD, List.getD_eq_getElem?_getD, Request.buff,
      List.getElem?_append_left hbytes, List.getElem?_take_of_lt (by omega), Image.bytes,
      List.getElem?_append_left himgh]
  unfold ntohs
  rw [hget 0 (by omega), hget 1 (by omega)]

theorem sizeT_natCast {x : Nat} (h : x < 2 ^ 64) : sizeT (x : Int) = x := by
  unfold sizeT
  omega

theorem sizeT_tdiv {type : Int} (h : 8 ≤ type) (hsmall : type.toNat / 8 < 2 ^ 64) :
    sizeT (type.tdiv 8) = type.toNat / 8 := by
  have hcast : type.tdiv 8 = ((type.toNat / 8 : Nat) : Int) := by
    rw [Int.tdiv_eq_ediv_of_nonneg (by omega)]
    omega
  rw [hcast, sizeT_natCast hsmall]

theorem pixelByteSize_eq {type : Int} (h : 8 ≤ type) (hne : type ≠ 40) :
    pixelByteSize type = type.toNat / 8 := by
  rw [pixelByteSize, if_neg hne]
  omega

theorem pixelByteSize_pos {type : Int} (h : 8 ≤ type) : 0 < pixelByteSize type := by
  unfold pixelByteSize
  split <;> omega

theorem Image.sized (image : Image) : Sized (pixelByteSize image.type) image.pixels :=
  image.length_pixel

theorem Image.length_bytes (image : Image) :
    image.bytes.length = imghdrSize + pixelByteSize image.type * image.pixels.length := by
  rw [Image.bytes, List.length_append, image.length_imgh, image.sized.length_flatten]

/-! ## What is expected -/

/-- The header with the requested type. -/
def Request.header (r : Request) : List Byte := htons r.newType ++ r.image.imgh.drop 2

theorem Request.length_header (r : Request) : r.header.length = imghdrSize := by
  rw [Request.header, List.length_append, List.length_drop, r.image.length_imgh]
  rfl

/-- The pixels of the response. -/
def Request.converted (r : Request) : List (List Byte) :=
  r.image.pixels.map (r.scaling.pixel r.image.type)

theorem Request.sized (r : Request) : Sized (pixelByteSize r.newType) r.converted :=
  sized_map _ (r.scaling.length_pixel _) _

theorem expected_plain (h : ¬r.Converts r.image.type) : r.expected = r.image.bytes := by
  unfold Request.expected
  rw [if_pos]
  by_cases h0 : r.newType = 0
  · exact .inl h0
  · exact .inr (Classical.not_not.mp fun hne => h ⟨h0, hne⟩)

theorem expected_converts (h : r.Converts r.image.type) :
    r.expected = r.header ++ r.converted.flatten := by
  unfold Request.expected
  rw [if_neg fun hor => hor.elim h.1 h.2]
  rfl

theorem length_expected_converts (h : r.Converts r.image.type) :
    r.expected.length = imghdrSize + pixelByteSize r.newType * r.image.pixels.length := by
  rw [expected_converts h, List.length_append, r.length_header, r.sized.length_flatten,
    Request.converted, List.length_map]

/-! ## Lengths -/

/-- What `TypesFit` says when pixels are converted. -/
structure Pixels (r : Request) : Prop where
  old : sizeT (r.image.type.tdiv 8) = pixelByteSize r.image.type
  new : sizeT (r.newType.tdiv 8) = pixelByteSize r.newType
  type : 8 ≤ r.image.type
  newType : 8 ≤ r.newType
  small : pixelByteSize r.newType * r.image.bytes.length < 2 ^ 64

theorem toNat_div_lt {r : Request} (h : r.newType.toNat / 8 * r.image.bytes.length < 2 ^ 64) :
    r.newType.toNat / 8 < 2 ^ 64 := by
  have hpos : 0 < r.image.bytes.length := by
    rw [r.image.length_bytes, imghdrSize]
    omega
  exact lt_of_le_of_lt (Nat.le_mul_of_pos_right _ hpos) h

theorem type_lt (r : Request) : r.image.type.toNat / 8 < 2 ^ 64 := by
  have hlt := @Int.bmod_lt (ntohs r.image.imgh) 65536 (by decide)
  have htype : r.image.type = (ntohs r.image.imgh).bmod 65536 := rfl
  omega

theorem TypesFit.pixels (h : TypesFit r) (hconv : r.Converts r.image.type) : Pixels r := by
  rcases h with h0 | ⟨htype, hnew, hsmall, hor⟩
  · exact absurd h0 hconv.1
  · obtain ⟨hne, hne'⟩ := hor.resolve_left hconv.2
    have hsize := pixelByteSize_eq hnew hne'
    refine ⟨?_, ?_, htype, hnew, ?_⟩
    · rw [sizeT_tdiv htype (type_lt r), pixelByteSize_eq htype hne]
    · rw [sizeT_tdiv hnew (toNat_div_lt hsmall), hsize]
    · rw [hsize]
      exact hsmall

theorem scaled_mul {num den : Int} {a b m : Nat} (hnum : sizeT (num.tdiv 8) = a)
    (hden : sizeT (den.tdiv 8) = b) (hb : 0 < b) (hlt : a * (b * m) < 2 ^ 64) :
    scaled (b * m) num den = a * m := by
  rw [scaled, hnum, hden, Nat.mod_eq_of_lt hlt, Nat.mul_left_comm, Nat.mul_div_cancel_left _ hb]

theorem State.check_pos {p : Prop} [Decidable p] (h : p) (s : State) : s.check p = s := by
  unfold State.check
  rw [decide_eq_true h, Bool.and_true]

section
variable (h : Pixels r)
include h

theorem Pixels.old_pos : 0 < pixelByteSize r.image.type := pixelByteSize_pos h.type
theorem Pixels.new_pos : 0 < pixelByteSize r.newType := pixelByteSize_pos h.newType

/-- The bound for the whole image is one for its pixels. -/
theorem Pixels.small_mul {k : Nat} (hk : k ≤ r.image.pixels.length) :
    imghdrSize + pixelByteSize r.newType * (pixelByteSize r.image.type * k) < 2 ^ 64 := by
  have hsmall := h.small
  rw [r.image.length_bytes, Nat.mul_add] at hsmall
  have hheader := Nat.le_mul_of_pos_left imghdrSize h.new_pos
  have hmono := Nat.mul_le_mul_left (pixelByteSize r.newType)
    (Nat.mul_le_mul_left (pixelByteSize r.image.type) hk)
  omega

theorem Pixels.new_mul_lt {k : Nat} (hk : k ≤ r.image.pixels.length) :
    imghdrSize + pixelByteSize r.newType * k < 2 ^ 64 := by
  have hlt := h.small_mul hk
  have hle := Nat.mul_le_mul_left (pixelByteSize r.newType) (Nat.le_mul_of_pos_left k h.old_pos)
  omega

theorem Pixels.old_mul_lt {k : Nat} (hk : k ≤ r.image.pixels.length) :
    imghdrSize + pixelByteSize r.image.type * k < 2 ^ 64 := by
  have hlt := h.small_mul hk
  have hle := Nat.le_mul_of_pos_left (pixelByteSize r.image.type * k) h.new_pos
  omega

/-- The announced length of a converted image. -/
theorem Pixels.announced (hconv : r.Converts r.image.type) :
    (imghdrSize + scaled (r.image.bytes.length - imghdrSize) r.newType r.image.type) % 2 ^ 64 =
      r.expected.length := by
  have hlt := h.small_mul (le_refl _)
  have hlength : r.image.bytes.length - imghdrSize =
      pixelByteSize r.image.type * r.image.pixels.length := by
    rw [r.image.length_bytes, Nat.add_sub_cancel_left]
  rw [hlength, scaled_mul h.new h.old h.old_pos (by omega),
    Nat.mod_eq_of_lt (h.new_mul_lt (le_refl _)), length_expected_converts hconv]

end

/-- The announced length of an image that already is of the type. -/
theorem announced_same (htypes : TypesFit r) (h0 : r.newType ≠ 0) (h : r.newType = r.image.type) :
    (imghdrSize + scaled (r.image.bytes.length - imghdrSize) r.newType r.image.type) % 2 ^ 64 =
      r.expected.length := by
  obtain ⟨htype, -, hsmall, -⟩ := htypes.resolve_left h0
  rw [h] at hsmall
  have hsize := sizeT_tdiv htype (type_lt r)
  have hpos : 0 < r.image.type.toNat / 8 := by omega
  have hle : imghdrSize ≤ r.image.bytes.length := by
    rw [r.image.length_bytes]
    exact Nat.le_add_right _ _
  have hmul := Nat.mul_le_mul_left (r.image.type.toNat / 8)
    (Nat.sub_le r.image.bytes.length imghdrSize)
  have hlength : r.image.bytes.length < 2 ^ 64 := r.image.length_lt
  rw [scaled, h, hsize, Nat.mod_eq_of_lt (lt_of_le_of_lt hmul hsmall), Nat.mul_div_cancel_left _ hpos,
    Nat.add_sub_cancel' hle, Nat.mod_eq_of_lt hlength,
    expected_plain fun hconv => hconv.2 h]

/-- `announce`, the first time. -/
theorem announce_first (htypes : TypesFit r) (hbytes : s.bytesSoFar = 0)
    (hheader : s.headerSend = false) (htype : s.oldType = 0) (hannounced : s.announced = [])
    (hreceived : r.newType ≠ 0 → 2 ≤ s.received) :
    announce r s =
      { s with
        oldType := if r.newType = 0 then 0 else r.image.type
        headerSend := true
        announced := [r.expected.length] } := by
  have hle : imghdrSize ≤ r.image.bytes.length := by
    rw [r.image.length_bytes]
    exact Nat.le_add_right _ _
  unfold announce
  rw [if_pos ⟨hbytes, hheader, hle⟩]
  by_cases h0 : r.newType = 0
  · rw [if_neg (not_not.mpr h0), if_pos h0, hannounced, expected_plain fun hconv => hconv.1 h0]
    simp only [List.nil_append, htype]
  · obtain ⟨hold, hnew, -, -⟩ := htypes.resolve_left h0
    have hntohs : ntohs (r.buff s) = r.image.type :=
      (ntohs_buff (hreceived h0)).trans (ntohs_imgh hold)
    have hnumber : (imghdrSize + scaled (r.image.bytes.length - imghdrSize) r.newType r.image.type) %
        2 ^ 64 = r.expected.length := by
      by_cases hsame : r.newType = r.image.type
      · exact announced_same htypes h0 hsame
      · exact (htypes.pixels ⟨h0, hsame⟩).announced ⟨h0, hsame⟩
    have hfits : 0 ≤ r.newType ∧ 8 ≤ r.image.type := ⟨by omega, hold⟩
    rw [if_pos h0, if_neg h0]
    simp only [htype, if_true, hntohs, hannounced, hnumber, List.nil_append, State.check_pos hfits]

theorem announce_again (h : s.headerSend = true) : announce r s = s :=
  if_neg fun hfirst => Bool.false_ne_true (hfirst.2.1.symm.trans h)

/-! ## What is sent next -/

/-- The first `bufs` bytes of a buffer are those that the client expects next. -/
structure Next (r : Request) (bytesSoFar : Nat) (buf : List Byte) (bufs : Nat) : Prop where
  le_buf : bufs ≤ buf.length
  le : bytesSoFar + bufs ≤ r.expected.length
  eq : buf.take bufs = (r.expected.drop bytesSoFar).take bufs

/-- `k` pixels were sent, which have all arrived. -/
structure At (r : Request) (s : State) (k : Nat) : Prop where
  oldType : s.oldType = r.image.type
  bytesSoFar : s.bytesSoFar = imghdrSize + pixelByteSize r.newType * k
  le : imghdrSize + pixelByteSize r.image.type * k ≤ s.received
  received : s.received ≤ r.image.bytes.length
  fits : pixelByteSize r.newType *
      ((s.received - (imghdrSize + pixelByteSize r.image.type * k)) / pixelByteSize r.image.type) ≤
    s.received - (imghdrSize + pixelByteSize r.image.type * k)

section
variable {k : Nat} (h : Pixels r) (hat : At r s k)
include h hat

theorem At.le_length : k ≤ r.image.pixels.length := by
  have hle := hat.le.trans hat.received
  rw [r.image.length_bytes] at hle
  exact Nat.le_of_mul_le_mul_left (Nat.le_of_add_le_add_left hle) h.old_pos

theorem At.bosend : r.bosend s = imghdrSize + pixelByteSize r.image.type * k := by
  have hk := hat.le_length h
  have hnew := h.new_mul_lt hk
  have hlt : pixelByteSize r.image.type * (pixelByteSize r.newType * k) < 2 ^ 64 := by
    have hsmall := h.small_mul hk
    rw [Nat.mul_left_comm]
    omega
  rw [Request.bosend, hat.bytesSoFar, sizeSub_of_le (Nat.le_add_right _ _) hnew, Nat.add_sub_cancel_left,
    hat.oldType, scaled_mul h.old h.new h.new_pos hlt, Nat.mod_eq_of_lt (h.old_mul_lt hk)]

/-- What has arrived after the pixels that were sent. -/
theorem At.left : sizeSub s.received (r.bosend s) =
    s.received - (imghdrSize + pixelByteSize r.image.type * k) := by
  rw [hat.bosend h, sizeSub_of_le hat.le (lt_of_le_of_lt hat.received r.image.length_lt)]

theorem At.newData : r.newData s = ((r.image.pixels.drop k).flatten).take
    (s.received - (imghdrSize + pixelByteSize r.image.type * k)) := by
  have hlength : (r.image.bytes.take s.received).length = s.received := by
    rw [List.length_take, Nat.min_eq_left hat.received]
  have hle : imghdrSize + pixelByteSize r.image.type * k ≤ (r.image.bytes.take s.received).length := by
    rw [hlength]
    exact hat.le
  rw [Request.newData, hat.left h, hat.bosend h, Request.buff, List.drop_append_of_le_length hle,
    List.take_append_of_le_length (by rw [List.length_drop, hlength]), List.drop_take, List.take_take,
    Nat.min_self, Image.bytes, ← List.drop_drop, ← r.image.length_imgh, List.drop_left,
    r.image.sized.drop_flatten]

theorem At.numpix : r.numpix s =
    (s.received - (imghdrSize + pixelByteSize r.image.type * k)) / pixelByteSize r.image.type := by
  rw [Request.numpix, hat.left h, hat.oldType, h.old]

theorem At.numpix_le : k + r.numpix s ≤ r.image.pixels.length := by
  have hreceived := hat.received
  rw [r.image.length_bytes] at hreceived
  have hmul := Nat.div_mul_le_self
    (s.received - (imghdrSize + pixelByteSize r.image.type * k)) (pixelByteSize r.image.type)
  rw [← hat.numpix h, Nat.mul_comm] at hmul
  have hle := hat.le
  refine Nat.le_of_mul_le_mul_left (?_ : pixelByteSize r.image.type * _ ≤ _) h.old_pos
  rw [Nat.mul_add]
  omega

theorem At.length_newData : (r.newData s).length =
    s.received - (imghdrSize + pixelByteSize r.image.type * k) := by
  have hreceived := hat.received
  rw [r.image.length_bytes] at hreceived
  rw [hat.newData h, List.length_take, (r.image.sized.drop k).length_flatten, List.length_drop,
    Nat.mul_sub]
  omega

theorem At.old_le : pixelByteSize r.image.type * r.numpix s ≤ (r.newData s).length := by
  rw [hat.numpix h, hat.length_newData h]
  exact Nat.mul_div_le _ _

theorem At.pixelsFit : r.PixelsFit s := by
  have hbosend : r.BosendFits s := by
    refine ⟨?_, ?_, h.newType⟩
    · rw [hat.bytesSoFar]
      exact Nat.le_add_right _ _
    · rw [hat.oldType]
      have htype := h.type
      omega
  refine ⟨hbosend, ?_, ?_, ?_, ?_⟩
  · rw [hat.bosend h]
    exact hat.le
  · rw [hat.oldType]
    exact h.type
  · rw [hat.oldType]
    exact hat.old_le h
  · rw [hat.numpix h, hat.length_newData h]
    exact hat.fits

theorem At.scaledLength : r.scaledLength s = pixelByteSize r.newType * r.numpix s := by
  have hlt := h.new_mul_lt (Nat.le_of_add_left_le (hat.numpix_le h))
  rw [Request.scaledLength, h.new, Nat.mod_eq_of_lt (by omega)]

/-- The pixels that are scaled. -/
theorem At.scaledData : ∃ rest, r.scaledData s =
    ((r.converted.drop k).take (r.numpix s)).flatten ++ rest := by
  have hle : r.numpix s ≤ (r.image.pixels.drop k).length := by
    have hnumpix := hat.numpix_le h
    rw [List.length_drop]
    omega
  have hpieces : pieces (pixelByteSize r.image.type) (r.numpix s) (r.newData s) =
      (r.image.pixels.drop k).take (r.numpix s) := by
    have hfit := hat.old_le h
    rw [hat.length_newData h] at hfit
    rw [hat.newData h, pieces_take hfit, (r.image.sized.drop k).pieces_flatten hle]
  refine ⟨(r.newData s).drop (pixelByteSize r.newType * r.numpix s), ?_⟩
  rw [Request.scaledData, getScaledData, hat.oldType, hpieces, List.flatMap_def, List.map_take,
    List.map_drop]
  rfl

/-- They are what the client expects next. -/
theorem At.next (hconv : r.Converts r.image.type) :
    Next r s.bytesSoFar (r.scaledData s) (r.scaledLength s) := by
  obtain ⟨rest, hdata⟩ := hat.scaledData h
  have hlength : ((r.converted.drop k).take (r.numpix s)).flatten =
      (r.converted.drop k).flatten.take (pixelByteSize r.newType * r.numpix s) :=
    ((r.sized.drop k).take_flatten _).symm
  have hnumpix := hat.numpix_le h
  have hsize : ((r.converted.drop k).take (r.numpix s)).flatten.length =
      pixelByteSize r.newType * r.numpix s := by
    rw [hlength, List.length_take, (r.sized.drop k).length_flatten, List.length_drop, Request.converted,
      List.length_map, Nat.min_eq_left (Nat.mul_le_mul_left _ (by omega))]
  have hdrop : r.expected.drop s.bytesSoFar = (r.converted.drop k).flatten := by
    rw [expected_converts hconv, hat.bytesSoFar, ← List.drop_drop, ← r.length_header, List.drop_left,
      r.sized.drop_flatten]
  refine ⟨?_, ?_, ?_⟩
  · rw [hat.scaledLength h, hdata, List.length_append, hsize]
    exact Nat.le_add_right _ _
  · have hmul := Nat.mul_le_mul_left (pixelByteSize r.newType) hnumpix
    rw [length_expected_converts hconv, hat.scaledLength h, hat.bytesSoFar, Nat.add_assoc, ← Nat.mul_add]
    exact Nat.add_le_add_left hmul _
  · rw [hat.scaledLength h, hdata, hdrop, ← hsize, List.take_left, hsize, ← hlength]

end

theorem length_buff (h : s.received ≤ r.image.bytes.length) : s.received ≤ (r.buff s).length := by
  rw [Request.buff, List.length_append, List.length_take, Nat.min_eq_left h]
  exact Nat.le_add_right _ _

theorem take_buff {n : Nat} (hn : n ≤ s.received) (h : s.received ≤ r.image.bytes.length) :
    (r.buff s).take n = r.image.bytes.take n := by
  have hlength : n ≤ (r.image.bytes.take s.received).length := by
    rw [List.length_take, Nat.min_eq_left h]
    exact hn
  rw [Request.buff, List.take_append_of_le_length hlength, List.take_take, Nat.min_eq_left hn]

/-- The header, or the rest of it. -/
theorem next_header (hconv : r.Converts r.image.type) {bytesSoFar : Nat} (hlt : bytesSoFar < imghdrSize)
    (hreceived : imghdrSize ≤ s.received) (h : s.received ≤ r.image.bytes.length) :
    Next r bytesSoFar
      ((htons r.newType ++ (r.buff s |>.take imghdrSize).drop 2).drop bytesSoFar)
      (imghdrSize - bytesSoFar) := by
  have himgh : (r.buff s).take imghdrSize = r.image.imgh := by
    rw [take_buff hreceived h, Image.bytes, ← r.image.length_imgh, List.take_left]
  have hheader : htons r.newType ++ (r.buff s |>.take imghdrSize).drop 2 = r.header := by
    rw [himgh]
    rfl
  have hlength : (r.header.drop bytesSoFar).length = imghdrSize - bytesSoFar := by
    rw [List.length_drop, r.length_header]
  rw [hheader]
  refine ⟨hlength.ge, ?_, ?_⟩
  · rw [length_expected_converts hconv]
    omega
  · rw [expected_converts hconv, List.drop_append_of_le_length (by rw [r.length_header]; exact hlt.le),
      List.take_append_of_le_length hlength.ge]

/-- What has arrived, when it is sent as it is. -/
theorem next_plain (hplain : ¬r.Converts r.image.type) (hle : s.bytesSoFar ≤ s.received)
    (h : s.received ≤ r.image.bytes.length) :
    Next r s.bytesSoFar (r.buff s |>.drop s.bytesSoFar) (s.received - s.bytesSoFar) := by
  have hbuff := length_buff h
  refine ⟨?_, ?_, ?_⟩
  · rw [List.length_drop]
    exact Nat.sub_le_sub_right hbuff _
  · rw [expected_plain hplain, Nat.add_sub_cancel' hle]
    exact h
  · rw [expected_plain hplain, ← List.drop_take, ← List.drop_take, take_buff (le_refl _) h]

/-! ## Sending -/

/-- What holds while the image is sent. -/
structure Serving (r : Request) (s : State) : Prop where
  within : s.within = true
  ending : s.ending = none
  received : s.received ≤ r.image.bytes.length
  sent : s.sent = r.expected.take s.bytesSoFar
  le : s.bytesSoFar ≤ r.expected.length
  header : s.headerSend = true → s.announced = [r.expected.length] ∧
    s.oldType = if r.newType = 0 then 0 else r.image.type
  first : s.headerSend = false → s.announced = [] ∧ s.bytesSoFar = 0 ∧ s.oldType = 0
  plain : ¬r.Converts r.image.type → s.bytesSoFar ≤ s.received
  pixels : r.Converts r.image.type → 0 < s.bytesSoFar → imghdrSize ≤ s.received ∧
    s.bytesSoFar ≤ imghdrSize + pixelByteSize r.newType *
      ((s.received - imghdrSize) / pixelByteSize r.image.type)

/-- The image is sent, or it has ended as it should. -/
def Inv (r : Request) (s : State) : Prop := Serving r s ∨ s.ending ≠ none ∧ Sends r s

theorem output_none (h : s.ending = none) : s.output = s.sent := by
  unfold State.output
  rw [h]

theorem Serving.announced (h : Serving r s) :
    s.announced = [] ∧ s.sent = [] ∨ s.announced = [r.expected.length] := by
  cases hsend : s.headerSend with
  | true => exact .inr (h.header hsend).1
  | false =>
    obtain ⟨hnone, hzero, -⟩ := h.first hsend
    refine .inl ⟨hnone, ?_⟩
    rw [h.sent, hzero, List.take_zero]

theorem Inv.sends (h : Inv r s) : Sends r s := by
  rcases h with h | ⟨-, h⟩
  · have hout := output_none h.ending
    refine ⟨h.within, ?_, ?_, ?_⟩
    · rw [hout]
      exact h.announced
    · rw [hout, h.sent]
      exact List.take_prefix _ _
    · rw [h.ending]
      intro hend
      rcases hend with hend | ⟨_, hend⟩ <;> cases hend
  · exact h

/-- An ending without a response, when nothing is missing if it finished. -/
theorem Serving.ends (h : Serving r s) {ending : Ending} (hresponse : ∀ rest, ending ≠ .response rest)
    (hwhole : ending = .finished → s.headerSend = true ∧ s.bytesSoFar = r.expected.length) :
    Inv r { s with ending := some ending } := by
  have hout : State.output { s with ending := some ending } = s.sent := by
    cases ending with
    | response rest => exact absurd rfl (hresponse rest)
    | lost => rfl
    | closed => rfl
    | finished => rfl
  refine .inr ⟨fun hnone => Option.some_ne_none _ hnone, h.within, ?_, ?_, ?_⟩
  · rw [hout]
    exact h.announced
  · rw [hout, h.sent]
    exact List.take_prefix _ _
  · intro hend
    rcases hend with hend | ⟨rest, hend⟩
    · obtain ⟨hsend, hall⟩ := hwhole (Option.some.inj hend)
      refine ⟨?_, (h.header hsend).1⟩
      rw [hout, h.sent, hall, List.take_length]
    · exact absurd (Option.some.inj hend) (hresponse rest)

/-- A response with the rest. -/
theorem Serving.responds (h : Serving r s) (hsend : s.headerSend = true) {buf : List Byte} {length : Nat}
    (hnext : Next r s.bytesSoFar buf length) (hall : s.bytesSoFar + length = r.expected.length) :
    Inv r (setResponse buf length s) := by
  have hout : (setResponse buf length s).output = r.expected := by
    have hrest : s.sent ++ buf.take length = r.expected := by
      rw [hnext.eq, h.sent, ← List.take_add, hall, List.take_length]
    exact hrest
  refine .inr ⟨fun hnone => Option.some_ne_none _ hnone, ?_, ?_, ?_, ?_⟩
  · unfold setResponse
    rw [State.check_pos hnext.le_buf]
    exact h.within
  · exact .inr (h.header hsend).1
  · exact hout ▸ List.prefix_rfl
  · intro _
    exact ⟨hout, (h.header hsend).1⟩

/-- A send of what the client expects next. -/
theorem Serving.sendNext (h : Serving r s) (hsend : s.headerSend = true) {buf : List Byte} {bufs : Nat}
    (hnext : Next r s.bytesSoFar buf bufs)
    (hplain : ¬r.Converts r.image.type → s.bytesSoFar + bufs ≤ s.received)
    (hpixels : r.Converts r.image.type → imghdrSize ≤ s.received ∧
      s.bytesSoFar + bufs ≤ imghdrSize + pixelByteSize r.newType *
        ((s.received - imghdrSize) / pixelByteSize r.image.type)) (ret : Ret) :
    Inv r (doSendData buf bufs ret s) := by
  unfold doSendData
  rw [State.check_pos hnext.le_buf]
  cases ret with
  | again => exact .inl h
  | error => exact h.ends (fun rest => Ending.noConfusion) fun hend => Ending.noConfusion hend
  | accepted bytes =>
    have hmin : min bytes bufs ≤ bufs := Nat.min_le_right _ _
    have hle := hnext.le
    refine .inl ⟨h.within, h.ending, h.received, ?_, ?_, h.header, ?_, ?_, ?_⟩
    · have htake : buf.take (min bytes bufs) =
          (r.expected.drop s.bytesSoFar).take (min bytes bufs) := by
        have htwice := congrArg (List.take (min bytes bufs)) hnext.eq
        rwa [List.take_take, List.take_take, Nat.min_eq_left hmin] at htwice
      rw [List.take_add, ← h.sent, ← htake]
    · exact le_trans (Nat.add_le_add_left hmin _) hle
    · intro hfirst
      exact absurd (hsend.symm.trans hfirst) (Bool.false_ne_true ∘ Eq.symm)
    · intro hconv
      exact le_trans (Nat.add_le_add_left hmin _) (hplain hconv)
    · intro hconv _
      obtain ⟨hreceived, hbound⟩ := hpixels hconv
      exact ⟨hreceived, le_trans (Nat.add_le_add_left hmin _) hbound⟩

/-! ## Steps -/

theorem Serving.converts_iff (h : Serving r s) (hsend : s.headerSend = true) :
    r.Converts s.oldType ↔ r.Converts r.image.type := by
  rw [(h.header hsend).2]
  unfold Request.Converts
  by_cases h0 : r.newType = 0
  · exact ⟨fun hconv => absurd h0 hconv.1, fun hconv => absurd h0 hconv.1⟩
  · rw [if_neg h0]

/-- When pixels are aligned, all that was sent are pixels that have arrived. -/
theorem Serving.at (h : Serving r s) (hp : Pixels r) (hsend : s.headerSend = true)
    (hconv : r.Converts r.image.type) (hle : imghdrSize ≤ s.bytesSoFar) (haligned : Aligned r s) :
    ∃ k, At r s k := by
  obtain ⟨⟨k, hk⟩, hfits⟩ := haligned
  have hbytes : s.bytesSoFar = imghdrSize + pixelByteSize r.newType * k := by omega
  rw [hk, Nat.mul_div_cancel_left _ hp.new_pos] at hfits
  obtain ⟨hreceived, hbound⟩ := h.pixels hconv (lt_of_lt_of_le (by decide) hle)
  rw [hbytes] at hbound
  have hcount : k ≤ (s.received - imghdrSize) / pixelByteSize r.image.type :=
    Nat.le_of_mul_le_mul_left (Nat.le_of_add_le_add_left hbound) hp.new_pos
  have hmul := (Nat.le_div_iff_mul_le hp.old_pos).mp hcount
  refine ⟨k, ?_, hbytes, ?_, h.received, hfits⟩
  · rw [(h.header hsend).2, if_neg hconv.1]
  · rw [Nat.mul_comm] at hmul
    omega

/-- The pixels that are sent have arrived. -/
theorem At.bound {k : Nat} (hat : At r s k) (h : Pixels r) :
    s.bytesSoFar + r.scaledLength s = imghdrSize + pixelByteSize r.newType *
      ((s.received - imghdrSize) / pixelByteSize r.image.type) := by
  have hle := hat.le
  have hdiv := (Nat.le_div_iff_mul_le h.old_pos).mpr
    (show k * pixelByteSize r.image.type ≤ s.received - imghdrSize by rw [Nat.mul_comm]; omega)
  have hnumpix : k + r.numpix s = (s.received - imghdrSize) / pixelByteSize r.image.type := by
    rw [hat.numpix h, ← Nat.sub_sub, Nat.sub_mul_div]
    omega
  rw [hat.scaledLength h, hat.bytesSoFar, ← hnumpix, Nat.mul_add, Nat.add_assoc]

theorem Serving.sendBytes (h : Serving r s) (htypes : TypesFit r) (hsend : s.headerSend = true)
    (hfits : r.Converts r.image.type → imghdrSize ≤ s.bytesSoFar → Aligned r s) (ret : Ret) :
    Inv r (sendBytes r ret s) := by
  unfold AsyncData.sendBytes
  by_cases hconv : r.Converts r.image.type
  · have hp := htypes.pixels hconv
    rw [if_pos ((h.converts_iff hsend).mpr hconv)]
    by_cases hheader : s.bytesSoFar < imghdrSize
    · rw [if_pos hheader]
      by_cases hreceived : imghdrSize ≤ s.received
      · rw [if_pos hreceived]
        refine h.sendNext hsend (next_header hconv hheader hreceived h.received)
          (fun hplain => absurd hconv hplain) (fun _ => ⟨hreceived, ?_⟩) ret
        rw [Nat.add_sub_cancel' hheader.le]
        exact Nat.le_add_right _ _
      · rw [if_neg hreceived]
        exact .inl h
    · have hle := Nat.le_of_not_lt hheader
      obtain ⟨k, hat⟩ := h.at hp hsend hconv hle (hfits hconv hle)
      rw [if_neg hheader, State.check_pos (hat.pixelsFit hp)]
      refine h.sendNext hsend (hat.next hp hconv) (fun hplain => absurd hconv hplain)
        (fun _ => ⟨?_, (hat.bound hp).le⟩) ret
      exact (h.pixels hconv (lt_of_lt_of_le (by decide) hle)).1
  · have hle := h.plain hconv
    have hsize : sizeSub s.received s.bytesSoFar = s.received - s.bytesSoFar :=
      sizeSub_of_le hle (lt_of_le_of_lt h.received r.image.length_lt)
    rw [if_neg fun hc => hconv ((h.converts_iff hsend).mp hc), State.check_pos hle, hsize]
    refine h.sendNext hsend (next_plain hconv hle h.received) (fun _ => ?_)
      (fun hc => absurd hc hconv) ret
    exact (Nat.add_sub_cancel' hle).le

/-- After the announcement. -/
theorem Serving.announce (h : Serving r s) (htypes : TypesFit r)
    (hfits : r.newType ≠ 0 → s.headerSend = false → 2 ≤ s.received) :
    Serving r (announce r s) ∧ (announce r s).headerSend = true ∧
      (announce r s).bytesSoFar = s.bytesSoFar ∧ (announce r s).received = s.received := by
  cases hsend : s.headerSend with
  | true =>
    rw [announce_again hsend]
    exact ⟨h, hsend, rfl, rfl⟩
  | false =>
    obtain ⟨hnone, hzero, htype⟩ := h.first hsend
    rw [announce_first htypes hzero hsend htype hnone fun h0 => hfits h0 hsend]
    refine ⟨?_, rfl, rfl, rfl⟩
    exact ⟨h.within, h.ending, h.received, h.sent, h.le, fun _ => ⟨rfl, rfl⟩,
      fun hfirst => absurd hfirst.symm Bool.false_ne_true, h.plain, h.pixels⟩

theorem Serving.sendData (h : Serving r s) (htypes : TypesFit r) (hfits : SendFits r s) (ret : Ret) :
    Inv r (sendData r ret s) := by
  have hstep := hfits h.ending
  obtain ⟨hannounced, hsend, hbytes, hreceived⟩ := h.announce htypes fun h0 => (hstep h0).1
  refine hannounced.sendBytes htypes hsend (fun hconv hle => ?_) ret
  have haligned := (hstep hconv.1).2 hconv.2 (hbytes ▸ hle)
  unfold Aligned at haligned ⊢
  rw [hbytes, hreceived]
  exact haligned

/-- With all that was received sent, nothing is missing. -/
theorem Serving.finishes (h : Serving r s) (hsend : s.headerSend = true)
    (hall : s.bytesSoFar = r.expected.length) : Inv r { s with ending := some .finished } :=
  h.ends (fun _ => Ending.noConfusion) fun _ => ⟨hsend, hall⟩

theorem Serving.closes (h : Serving r s) : Inv r { s with ending := some .closed } :=
  h.ends (fun _ => Ending.noConfusion) fun hend => Ending.noConfusion hend

/-- The end of a converted image. -/
theorem Serving.fullConverted (h : Serving r s) (hp : Pixels r) (hconv : r.Converts r.image.type)
    (hsend : s.headerSend = true) (hle : imghdrSize ≤ s.bytesSoFar)
    (haligned : s.received = r.image.bytes.length → Aligned r s) : Inv r (fullDataReceived r s) := by
  have hbosend : r.BosendFits s := by
    refine ⟨hle, ?_, hp.newType⟩
    have htype := hp.type
    rw [(h.header hsend).2, if_neg hconv.1]
    omega
  unfold AsyncData.fullDataReceived
  rw [if_pos ((h.converts_iff hsend).mpr hconv), State.check_pos hbosend]
  by_cases hrest : s.received < r.image.bytes.length
  · simp only [if_pos hrest]
    exact h.closes
  · have hall : s.received = r.image.bytes.length := le_antisymm h.received (Nat.le_of_not_lt hrest)
    obtain ⟨k, hat⟩ := h.at hp hsend hconv hle (haligned hall)
    have hwhole : s.bytesSoFar + r.scaledLength s = r.expected.length := by
      rw [hat.bound hp, hall, r.image.length_bytes, Nat.add_sub_cancel_left,
        Nat.mul_div_cancel_left _ hp.old_pos, length_expected_converts hconv]
    simp only [if_neg hrest]
    by_cases hmissing : r.bosend s < s.received
    · simp only [if_pos hmissing, if_neg (Nat.not_lt_of_ge hle), State.check_pos (hat.pixelsFit hp)]
      exact h.responds hsend (hat.next hp hconv) hwhole
    · simp only [if_neg hmissing]
      rw [hat.bosend hp, Nat.not_lt] at hmissing
      have hzero : r.scaledLength s = 0 := by
        rw [hat.scaledLength hp, hat.numpix hp, Nat.sub_eq_zero_of_le hmissing, Nat.zero_div,
          Nat.mul_zero]
      rw [hzero, Nat.add_zero] at hwhole
      exact h.finishes hsend hwhole

/-- The end of an image that is sent as it is. -/
theorem Serving.fullPlain (h : Serving r s) (hconv : ¬r.Converts r.image.type)
    (hnot : ¬r.Converts s.oldType) (hsend : s.received = r.image.bytes.length → s.headerSend = true) :
    Inv r (fullDataReceived r s) := by
  unfold AsyncData.fullDataReceived
  rw [if_neg hnot]
  by_cases hrest : s.received < r.image.bytes.length
  · rw [if_pos hrest]
    exact h.closes
  · have hall : s.received = r.image.bytes.length := le_antisymm h.received (Nat.le_of_not_lt hrest)
    have hle := h.plain hconv
    have hlength : r.expected.length = s.received := by rw [expected_plain hconv, hall]
    rw [if_neg hrest]
    by_cases hmissing : s.bytesSoFar < s.received
    · rw [if_pos hmissing]
      refine h.responds (hsend hall) (next_plain hconv hle h.received) ?_
      rw [hlength]
      exact Nat.add_sub_cancel' hle
    · rw [if_neg hmissing]
      refine h.finishes (hsend hall) ?_
      rw [hlength]
      exact le_antisymm hle (Nat.le_of_not_lt hmissing)

theorem Serving.fullDataReceived (h : Serving r s) (htypes : TypesFit r) (hfits : FullFits r s) :
    Inv r (fullDataReceived r s) := by
  obtain ⟨hsent, hheader⟩ := hfits h.ending
  by_cases hconv : r.Converts r.image.type
  · obtain ⟨hle, haligned⟩ := hheader hconv.1 hconv.2
    exact h.fullConverted (htypes.pixels hconv) hconv (hsent (.inl hconv.1)) hle haligned
  · have hnot : ¬r.Converts s.oldType := by
      intro hc
      exact hconv ((h.converts_iff (hsent (.inl hc.1))).mp hc)
    exact h.fullPlain hconv hnot fun hall => hsent (.inr hall)

theorem Serving.arrive (h : Serving r s) (bytes : Nat) : Serving r (step r s (.arrive bytes)) := by
  have hmore : s.received ≤ (step r s (.arrive bytes)).received :=
    Nat.le_min.mpr ⟨Nat.le_add_right _ _, h.received⟩
  refine ⟨h.within, h.ending, Nat.min_le_right _ _, h.sent, h.le, h.header, h.first, ?_, ?_⟩
  · intro hconv
    exact (h.plain hconv).trans hmore
  · intro hconv hpos
    obtain ⟨hreceived, hbound⟩ := h.pixels hconv hpos
    refine ⟨hreceived.trans hmore, hbound.trans ?_⟩
    exact Nat.add_le_add_left (Nat.mul_le_mul_left _
      (Nat.div_le_div_right (Nat.sub_le_sub_right hmore _))) _

theorem Sends.arrive (h : Sends r s) (bytes : Nat) : Sends r (step r s (.arrive bytes)) :=
  ⟨h.within, h.announced, h.ordered, h.whole⟩

/-- **Step** -/
theorem Inv.step (h : Inv r s) (htypes : TypesFit r) {e : Event} (hfits : StepFits r s e) :
    Inv r (step r s e) := by
  rcases h with h | ⟨hend, h⟩
  · have hnone := h.ending
    cases e with
    | arrive bytes => exact .inl (h.arrive bytes)
    | dataReceived ret =>
      simp only [AsyncData.step, if_pos hnone]
      exact h.sendData htypes hfits ret
    | idle ret =>
      by_cases hmore : s.bytesSoFar < s.received
      · simp only [AsyncData.step, if_pos (And.intro hnone hmore)]
        exact h.sendData htypes (hfits hmore) ret
      · simp only [AsyncData.step, if_neg fun hboth : s.ending = none ∧ _ => hmore hboth.2]
        exact .inl h
    | fullDataReceived =>
      simp only [AsyncData.step, if_pos hnone]
      exact h.fullDataReceived htypes hfits
  · refine .inr ?_
    cases e with
    | arrive bytes => exact ⟨hend, h.arrive bytes⟩
    | dataReceived ret =>
      simp only [AsyncData.step, if_neg hend]
      exact ⟨hend, h⟩
    | idle ret =>
      simp only [AsyncData.step, if_neg fun hboth : s.ending = none ∧ _ => hend hboth.1]
      exact ⟨hend, h⟩
    | fullDataReceived =>
      simp only [AsyncData.step, if_neg hend]
      exact ⟨hend, h⟩

/-! ## Runs -/

theorem inv_start (r : Request) : Inv r .start := by
  refine .inl ⟨rfl, rfl, Nat.zero_le _, ?_, Nat.zero_le _, ?_, ?_, ?_, ?_⟩
  · exact List.take_zero.symm
  · exact fun hsend => absurd hsend Bool.false_ne_true
  · exact fun _ => ⟨rfl, rfl, rfl⟩
  · exact fun _ => le_refl _
  · exact fun _ hpos => absurd hpos (Nat.lt_irrefl 0)

/-- A complete image is finished, or its rest is a response. -/
theorem fullDataReceived_ends (h : s.received = r.image.bytes.length) :
    (fullDataReceived r s).ending = some .finished ∨
      ∃ rest, (fullDataReceived r s).ending = some (.response rest) := by
  have hrest : ¬s.received < r.image.bytes.length := Nat.not_lt_of_ge h.ge
  unfold fullDataReceived
  by_cases hconv : r.Converts s.oldType
  · have hrest' : ¬(s.check (r.BosendFits s)).received < r.image.bytes.length := hrest
    simp only [if_pos hconv, if_neg hrest']
    split
    · split
      · exact .inr ⟨_, rfl⟩
      · exact .inr ⟨_, rfl⟩
    · exact .inl rfl
  · rw [if_neg hconv, if_neg hrest]
    split
    · exact .inr ⟨_, rfl⟩
    · exact .inl rfl

/-- **Run**: what the client gets is expected, and all of it when the image is complete. -/
theorem sends_expected (r : Request) (events : List Event) (htypes : TypesFit r)
    (hfits : Along (step r) (StepFits r) .start events) :
    let s := run (step r) .start events
    Sends r s ∧ (s.ending = none → s.received = r.image.bytes.length → FullFits r s →
      (step r s .fullDataReceived).output = r.expected ∧
        (step r s .fullDataReceived).announced = [r.expected.length]) := by
  have hinv : Inv r (run (step r) .start events) :=
    hfits.invariant (inv_start r) fun _ _ h => h.step htypes
  refine ⟨hinv.sends, fun hnone hall hfull => ?_⟩
  have hends := fullDataReceived_ends hall
  have hstep : step r (run (step r) .start events) .fullDataReceived =
      fullDataReceived r (run (step r) .start events) := if_pos hnone
  have hsends := (hinv.step htypes (e := .fullDataReceived) hfull).sends
  rw [hstep] at hsends ⊢
  exact hsends.whole hends

/-! ## An image of two pixels -/

/-- Two pixels of 16 bits, and their second bytes for 8 bits. -/
def twoPixels : Request where
  image :=
    { imgh := [0, 20] ++ List.replicate 42 0
      pixels := [[0, 10], [0, 250]]
      length_imgh := rfl
      length_pixel := by decide
      length_lt := by decide }
  stale := List.replicate 48 255
  newType := 8
  scaling := ⟨fun _ p => [p.getD 1 0], fun _ _ => rfl⟩

/-- The header is sent in two parts, the first pixel before the second one has arrived. -/
theorem sends_expected_twoPixels :
    let s := run (step twoPixels) .start [.arrive 46, .dataReceived (.accepted 20),
      .idle (.accepted 100), .dataReceived (.accepted 1), .idle .again, .arrive 2]
    Sends twoPixels s ∧ (s.ending = none → s.received = twoPixels.image.bytes.length →
      FullFits twoPixels s → (step twoPixels s .fullDataReceived).output = twoPixels.expected ∧
        (step twoPixels s .fullDataReceived).announced = [twoPixels.expected.length]) :=
  sends_expected twoPixels _ (.inr (by decide)) (by decide +kernel)

/-- When the socket takes nothing of the header before the image is complete, nothing is sent of what
was announced. -/
theorem header_not_taken :
    ¬∀ (r : Request) (events : List Event), Sends r (run (step r) .start events) := by
  intro h
  have hsends := h twoPixels [.arrive 48, .dataReceived .again, .fullDataReceived]
  have hwhole := (hsends.whole (.inl (by decide +kernel))).1
  exact absurd hwhole (by decide +kernel)

end Rts2.Rts2json.AsyncData

import Rts2.Values.IntegerLike

/-! # Integer values come back as they were sent

Integers and longs do, at any value and in arrays of any length. `ValueBool`
prints a number and reads `0` and `1` only: the unknown state is refused. -/
namespace Rts2.Values
open Rts2.Connection

/-! ## Numbers -/

theorem decimalNat_inj {n m : Nat} (h : decimalNat n = decimalNat m) : n = m := by
  rw [← digitsValue_decimalNat n, h, digitsValue_decimalNat]

theorem decimal_inj {n m : Int} (h : decimal n = decimal m) : n = m := by
  have hsign : ∀ k : Nat, ∀ l : List Byte, decimalNat k ≠ 45 :: l := by
    intro k l hk
    have hb := isdigit_decimalNat k 45 (by rw [hk]; exact List.mem_cons_self)
    exact absurd hb (by decide)
  unfold decimal at h
  split at h
  · split at h
    · have habs := decimalNat_inj (List.cons.inj h).2
      omega
    · exact absurd h.symm (hsign _ _)
  · split at h
    · exact absurd h (hsign _ _)
    · have habs := decimalNat_inj h
      omega

theorem decimal_head (n : Int) : ∃ b, (decimal n).head? = some b ∧ b.toNat < 58 ∧
    isspace b = false ∧ b ≠ quote ∧ b ≠ apostrophe := by
  obtain ⟨hne, -, hall⟩ := decimal_word n
  obtain ⟨b, l, hl⟩ := List.exists_cons_of_ne_nil hne
  have hmem : b ∈ decimal n := by rw [hl]; exact List.mem_cons_self
  have hb : b = 45 ∨ isdigit b = true := by
    unfold decimal at hmem
    split at hmem
    · exact (List.mem_cons.mp hmem).imp_right (isdigit_decimalNat _ b)
    · exact .inr (isdigit_decimalNat _ b hmem)
  refine ⟨b, by rw [hl]; rfl, ?_⟩
  rcases hb with rfl | hb
  · decide
  · have hword := hall b hmem
    simp only [isdigit, Bool.and_eq_true, decide_eq_true_eq, UInt8.le_iff_toNat_le] at hb
    obtain ⟨hb48, hb57⟩ := hb
    have h48 : (48 : Byte).toNat = 48 := rfl
    have h57 : (57 : Byte).toNat = 57 := rfl
    refine ⟨by omega, hword.1, hword.2.2, ?_⟩
    rintro rfl
    have h39 : apostrophe.toNat = 39 := rfl
    omega

/-- A number is no word. -/
theorem decimal_not_word (n : Int) (word : List Byte) {c : Byte} (hc : word.head? = some c)
    (h97 : 97 ≤ c.toNat) : (decimal n).map tolower ≠ word := by
  obtain ⟨b, hb, hlt, -⟩ := decimal_head n
  intro h
  have hlow : tolower b = b := by
    unfold tolower
    rw [if_neg]
    rintro ⟨h65, -⟩
    rw [UInt8.le_iff_toNat_le] at h65
    have h65' : (65 : Byte).toNat = 65 := rfl
    omega
  have hhead : ((decimal n).map tolower).head? = some b := by
    rw [List.head?_map, hb, Option.map_some, hlow]
  rw [h, hc] at hhead
  obtain rfl := Option.some.inj hhead
  omega

theorem charToBool_decimal (n : Int) :
    charToBool (decimal n) = if n = 1 then some true else if n = 0 then some false else none := by
  have hone : decimal n = [49] ↔ n = 1 :=
    ⟨fun h => decimal_inj (h.trans rfl), fun h => by rw [h]; rfl⟩
  have hzero : decimal n = [48] ↔ n = 0 :=
    ⟨fun h => decimal_inj (h.trans rfl), fun h => by rw [h]; rfl⟩
  have hon := decimal_not_word n onText rfl (by decide)
  have hoff := decimal_not_word n offText rfl (by decide)
  have htrue := decimal_not_word n trueText rfl (by decide)
  have hfalse := decimal_not_word n falseText rfl (by decide)
  have hyes := decimal_not_word n yesText rfl (by decide)
  have hno := decimal_not_word n noText rfl (by decide)
  simp [charToBool, hon, hoff, htrue, hfalse, hyes, hno, hone, hzero]

/-! ## One parameter -/

theorem lastParam_integer (n : Int32) : lastParam (nextInteger (decimal n.toInt)) = some n := by
  have h := paramNextInteger_decimal n [] (by simp)
  rw [List.append_nil] at h
  simp [lastParam, nextInteger, h, paramEnd, skipSpace]

theorem lastParam_long (n : Int64) : lastParam (paramNextLong (decimal n.toInt)) = some n.toInt := by
  have h := paramNextLong_decimal n [] (by simp)
  rw [List.append_nil] at h
  simp [lastParam, h, paramEnd, skipSpace]

theorem lastParam_decimal (n : Int) :
    lastParam (paramNextString (decimal n) []) = some (decimal n) := by
  obtain ⟨hne, hquote, hall⟩ := decimal_word n
  have h := paramNextString_word [] [] hne
    (fun b hb => ⟨(hall b hb).1, by simp⟩) hquote (by simp)
  rw [List.append_nil] at h
  simp [lastParam, h, paramEnd, skipSpace]

/-- A printed index is taken when it is the index of a name. -/
theorem selCharArr_decimal (names : List (List Byte)) (n : Int32) :
    selCharArr names (decimal n.toInt) =
      if 0 ≤ n.toInt ∧ n.toInt < names.length then some n else none := by
  have hl := n.le_toInt
  have hu := n.toInt_lt
  have hclamp : clampLong n.toInt = n.toInt := clampLong_of_mem (by omega) (by omega)
  have hint : toInt32 n.toInt = n.toInt := by
    unfold toInt32
    exact Int.bmod_eq_of_le (by omega) (by omega)
  unfold selCharArr
  rw [strtol_decimal, if_pos rfl, hclamp, hint]
  unfold selIndex
  split
  · rw [if_neg (by omega)]
  · rw [if_pos (by omega), Int32.ofInt_toInt]

/-! ## Arrays -/

theorem nextInteger_skipSpace (s : List Byte) : nextInteger (skipSpace s) = nextInteger s := by
  simp only [nextInteger, paramNextInteger, paramNumber, paramNextString_skipSpace]

theorem nextBool_skipSpace (s : List Byte) : nextBool (skipSpace s) = nextBool s := by
  simp only [nextBool, paramNextString_skipSpace]

theorem skipSpace_drop {tail : List Byte} (h : ∀ b ∈ tail.head?, isspace b = true) :
    skipSpace (tail.drop 1) = skipSpace tail := by
  cases tail with
  | nil => rfl
  | cons b tail =>
    have hb : isspace b = true := h b rfl
    simp [skipSpace, hb]

theorem readsBack_integer (n : Int32) : ReadsBack nextInteger (decimal n.toInt) n := by
  obtain ⟨b, hb, -, hspace, -⟩ := decimal_head n.toInt
  refine ⟨⟨b, hb, hspace⟩, fun tail htail => ⟨tail.drop 1, ?_, skipSpace_drop htail⟩⟩
  simp [nextInteger, paramNextInteger_decimal n tail htail]

theorem readsBack_bool {e : Int32} (he : e = 0 ∨ e = 1) :
    ReadsBack nextBool (decimal e.toInt) e := by
  obtain ⟨b, hb, -, hspace, -⟩ := decimal_head e.toInt
  refine ⟨⟨b, hb, hspace⟩, fun tail htail => ⟨tail.drop 1, ?_, skipSpace_drop htail⟩⟩
  obtain ⟨hne, hquote, hall⟩ := decimal_word e.toInt
  have h := paramNextString_word tail [] hne (fun b hb => ⟨(hall b hb).1, by simp⟩) hquote htail
  rw [nextBool, h, Option.bind_some, charToBool_decimal]
  rcases he with rfl | rfl
  · rfl
  · rfl

theorem unquoteRest_decimals (value : List Int32) :
    unquoteRest (joined (fun e : Int32 => decimal e.toInt) value) =
      joined (fun e : Int32 => decimal e.toInt) value := by
  refine unquoteRest_joined fun e he => ?_
  obtain ⟨b, hb, -, hword⟩ := decimal_head e.toInt
  exact ⟨b, hb, hword⟩

theorem setValue_integerArray (value old : List Int32) :
    (IntegerLike.integerArray old).setValue (IntegerLike.integerArray value).getValue =
      (0, .integerArray value) := by
  have hread := params_joined (f := id) nextInteger_skipSpace (l := value)
    fun e _ => readsBack_integer e
  simp [IntegerLike.setValue, IntegerLike.getValue, unquoteRest_decimals, hread]

/-- Only 0 and 1 come out of a boolean array. -/
theorem params_nextBool (s : List Byte) : ∀ e ∈ (params nextBool s).2, e = 0 ∨ e = 1 := by
  refine paramList_all (Q := fun _ => True) (fun s a rest _ h => ⟨?_, trivial⟩) _ trivial
  simp only [nextBool, Option.bind_eq_some_iff, Option.map_eq_some_iff, Prod.mk.injEq] at h
  obtain ⟨r, -, b, -, rfl, -⟩ := h
  cases b with
  | false => exact .inl rfl
  | true => exact .inr rfl

theorem setValue_boolArray (value old : List Int32) :
    (IntegerLike.boolArray old).setValue (IntegerLike.boolArray value).getValue =
      (0, .boolArray value) ↔ ∀ e ∈ value, e = 0 ∨ e = 1 := by
  simp only [IntegerLike.setValue, IntegerLike.getValue, unquoteRest_decimals, Prod.mk.injEq,
    IntegerLike.boolArray.injEq]
  constructor
  · rintro ⟨-, hvalue⟩
    have hknown := params_nextBool (joined (fun e : Int32 => decimal e.toInt) value)
    rwa [hvalue] at hknown
  · intro h
    have hread : params nextBool (joined (fun e : Int32 => decimal e.toInt) value) =
        (true, value.map id) :=
      params_joined nextBool_skipSpace fun e he => readsBack_bool (h e he)
    rw [hread]
    exact ⟨rfl, List.map_id _⟩

/-! ## The round trip -/

/-- The receiver's value takes over what was sent, and says so. -/
def IntegerLike.Restored (name : ValueName) (v : IntegerLike) : Prop :=
  ∀ receiver, v.SameType receiver → v.received name receiver = some (name.text, 0, v)

/-- A boolean is known, a selection holds the index of a name. -/
def IntegerLike.Sendable : IntegerLike → Prop
  | .bool value => value = 0 ∨ value = 1
  | .selection names value => 0 ≤ value.toInt ∧ value.toInt < names.length
  | .boolArray value => ∀ e ∈ value, e = 0 ∨ e = 1
  | _ => True

theorem received_eq (name : ValueName) (v receiver : IntegerLike) :
    v.received name receiver = some (name.text, receiver.setValue v.getValue) := by
  simp [IntegerLike.received, commandValue_valueLine]

theorem setValue_bool (value old : Int32) :
    (IntegerLike.bool old).setValue (IntegerLike.bool value).getValue =
      (0, .bool value) ↔ value = 0 ∨ value = 1 := by
  have hone : value.toInt = 1 ↔ value = 1 := by rw [← Int32.toInt_inj]; rfl
  have hzero : value.toInt = 0 ↔ value = 0 := by rw [← Int32.toInt_inj]; rfl
  simp only [IntegerLike.setValue, IntegerLike.getValue, lastParam_decimal, Option.bind_some,
    charToBool_decimal, hone, hzero]
  by_cases h1 : value = 1
  · simp [h1, ofBool]
  · by_cases h0 : value = 0
    · simp [h0, ofBool]
    · simp [h1, h0]

theorem setValue_selection (names : List (List Byte)) (value old : Int32) :
    (IntegerLike.selection names old).setValue (IntegerLike.selection names value).getValue =
      (0, .selection names value) ↔ 0 ≤ value.toInt ∧ value.toInt < names.length := by
  simp only [IntegerLike.setValue, IntegerLike.getValue, lastParam_decimal, Option.bind_some,
    selCharArr_decimal]
  by_cases h : 0 ≤ value.toInt ∧ value.toInt < names.length
  · simp [h]
  · simp [h]

theorem ofBool_ne_zero_iff (e : Int32) : ofBool (decide (e ≠ 0)) = e ↔ e = 0 ∨ e = 1 := by
  by_cases h0 : e = 0
  · simp [h0, ofBool]
  · simp [h0, ofBool, eq_comm]

/-- **A value comes back as it was sent** when it is sendable, and not otherwise. -/
theorem restored_iff (name : ValueName) (v : IntegerLike) : v.Restored name ↔ v.Sendable := by
  have hrestored : v.Restored name ↔
      ∀ receiver, v.SameType receiver → receiver.setValue v.getValue = (0, v) := by
    simp only [IntegerLike.Restored, received_eq, Option.some.injEq, Prod.mk.injEq, true_and]
  rw [hrestored]
  cases v with
  | integer value =>
    refine ⟨fun _ => trivial, fun _ receiver hsame => ?_⟩
    cases receiver <;> try exact hsame.elim
    simp [IntegerLike.setValue, IntegerLike.getValue, lastParam_integer]
  | long value =>
    refine ⟨fun _ => trivial, fun _ receiver hsame => ?_⟩
    cases receiver <;> try exact hsame.elim
    simp [IntegerLike.setValue, IntegerLike.getValue, lastParam_long]
  | bool value =>
    refine ⟨fun h => (setValue_bool value value).mp (h (.bool value) trivial),
      fun h receiver hsame => ?_⟩
    cases receiver <;> try exact hsame.elim
    exact (setValue_bool value _).mpr h
  | selection names value =>
    refine ⟨fun h => (setValue_selection names value value).mp (h (.selection names value) rfl),
      fun h receiver hsame => ?_⟩
    cases receiver <;> try exact hsame.elim
    obtain rfl : names = _ := hsame
    exact (setValue_selection names value _).mpr h
  | integerArray value =>
    refine ⟨fun _ => trivial, fun _ receiver hsame => ?_⟩
    cases receiver <;> try exact hsame.elim
    exact setValue_integerArray value _
  | boolArray value =>
    refine ⟨fun h => (setValue_boolArray value value).mp (h (.boolArray value) trivial),
      fun h receiver hsame => ?_⟩
    cases receiver <;> try exact hsame.elim
    exact (setValue_boolArray value _).mpr h

/-- `enabled` -/
def enabledName : ValueName where
  text := [101, 110, 97, 98, 108, 101, 100]
  ne_nil := by decide
  word := forall_of_all (by decide)
  unquoted := by decide

/-- An unknown boolean is sent as `V enabled 2`, which `setValue` refuses. -/
theorem unknown_bool_refused :
    IntegerLike.received enabledName (.bool 2) (.bool 2) =
      some (enabledName.text, -2, .bool 2) ∧
    ¬ ∀ name v, IntegerLike.Restored name v := by
  have hrefused : IntegerLike.received enabledName (.bool 2) (.bool 2) =
      some (enabledName.text, -2, .bool 2) := by decide +kernel
  refine ⟨hrefused, fun h => ?_⟩
  have htaken := h enabledName (.bool 2) (.bool 2) trivial
  rw [hrefused] at htaken
  exact absurd htaken (by decide)

end Rts2.Values

import Mathlib.Data.Nat.Digits.Lemmas
import Rts2.Rts2json.JsonValue
import Rts2.Values.IntegerRoundTrip

/-! # Reading the values back

The text of a connection is read as the object of its values exactly if no name,
string or description has a byte that JSON escapes: nothing is escaped. -/
namespace Rts2.JsonValue
open Rts2.Connection
open Rts2.Lib (Json)
open Rts2.Lib.Json
open Rts2.Values (trueText falseText)

/-! ## The object -/

def Double.json : Double → Json
  | .finite neg abs => .num (JsonDouble (.finite neg abs))
  | _ => .null

def number (n : Int) : Json := .num (decimal n)

def Scalar.json : Scalar → Json
  | .string value => .str value
  | .double value | .float value | .time value => value.json
  | .integer value | .selection value | .bool value => number value.toInt
  | .longint value => number value.toInt
  | .radec ra dec => .obj [(raName, ra.json), (decName, dec.json)]
  | .altaz alt az => .obj [(altName, alt.json), (azName, az.json)]
  | .pid p i d => .str (pidText p i d)

def Content.json : Content → Json
  | .scalar s => s.json
  | .stat numMes value mode stdev min max =>
    .arr (number numMes.toInt :: [value, mode, stdev, min, max].map Double.json)
  | .doubleMinMax value _ _ => value.json
  | .integerMinMax value _ _ => number value.toInt
  | .rectangle x y w h => .arr ([x, y, w, h].map fun s => number s.getValueInteger.toInt)
  | .stringArray value => .arr (value.map .str)
  | .doubleArray value => .arr (value.map Double.json)
  | .timeArray value => .arr (value.map Double.json)
  | .integerArray value => .arr (value.map fun n => number n.toInt)
  | .boolArray value => .arr (value.map fun n => .bool (decide (n ≠ 0)))
  | .timeserie value => value.json

def Value.json (v : Value) (extended : Bool) : Json :=
  if extended then
    .arr [number v.getFlags.toInt, v.content.json, number (if v.isError then 1 else 0),
      number (if v.isWarning then 1 else 0), .str v.description]
  else v.content.json

def Value.minmaxJson (v : Value) : Option (List Byte × Json) :=
  match v.content with
  | .doubleMinMax _ min max => some (v.name, .arr [min.json, max.json])
  | .integerMinMax _ min max => some (v.name, .arr [number min.toInt, number max.toInt])
  | _ => none

/-- The value is left out: it did not change since. -/
def Conn.skips (c : Conn) (since : Double) (v : Value) : Bool :=
  c.checks since && !since.isnan && !v.getValueChangedTime.isnan && v.getValueChangedTime.lt since

/-- The values that are sent. -/
def Conn.sent (c : Conn) (since : Double) : List Value := c.values.filter fun v => !c.skips since v

/-- The object of a connection. -/
def Conn.json (c : Conn) (since : Double) (extended : Bool) : Json :=
  .obj [
    (dName, .obj ((c.sent since).map fun v => (v.name, v.json extended))),
    (minmaxName, .obj (c.values.filterMap Value.minmaxJson)),
    (idleName, number (if c.isIdle then 1 else 0)),
    (stateName, .num (decimalNat c.getState.toNat)),
    (sstartName, c.getProgressStart.json),
    (sendName, c.getProgressEnd.json),
    (fName, (c.loop since extended).mfrom.json),
    (statestringName, .str c.getStateString),
    (typeName, number c.getOtherType.toInt)]

/-! ## Contents -/

def text? : Json → Option (List Byte)
  | .str s => some s
  | _ => none

def integer? : Json → Option Int
  | .num t => if (strtol t).2 = [] then some (strtol t).1 else none
  | _ => none

def bool? : Json → Option Bool
  | .bool b => some b
  | _ => none

/-- The content is in the data: strings, integers and booleans are as they were. -/
def Scalar.Recovers : Scalar → Json → Prop
  | .string value, j => text? j = some value
  | .integer value, j | .bool value, j | .selection value, j => integer? j = some value.toInt
  | .longint value, j => integer? j = some value.toInt
  | .pid p i d, j => text? j = some (pidText p i d)
  | .time _, _ | .double _, _ | .float _, _ | .radec _ _, _ | .altaz _ _, _ => True

def Content.Recovers : Content → Json → Prop
  | .scalar s, j => s.Recovers j
  | .stat numMes _ _ _ _ _, j => ∃ n l, j = .arr (n :: l) ∧ integer? n = some numMes.toInt
  | .integerMinMax value _ _, j => integer? j = some value.toInt
  | .rectangle x y w h, j => ∃ l, j = .arr l ∧ List.Forall₂ Scalar.Recovers [x, y, w, h] l
  | .stringArray value, j => ∃ l, j = .arr l ∧ l.map text? = value.map some
  | .integerArray value, j => ∃ l, j = .arr l ∧ l.map integer? = value.map fun n => some n.toInt
  | .boolArray value, j => ∃ l, j = .arr l ∧ l.map (fun b => (bool? b).map Values.ofBool) = value.map some
  | .doubleMinMax _ _ _, _ | .doubleArray _, _ | .timeArray _, _ | .timeserie _, _ => True

/-- The text of the connection in braces is one object, its object; and the data of every
value that is sent has its content. -/
def Conn.Recovered (c : Conn) (since : Double) (extended : Bool) : Prop :=
  parse (123 :: c.sendConnectionValues since extended ++ [125]) = some (c.json since extended) ∧
    ∀ v ∈ c.sent since, v.content.Recovers v.content.json

/-- A corner of a rectangle that an `int` holds. -/
def Scalar.Corner : Scalar → Prop
  | .string _ | .pid _ _ _ => False
  | .longint value => value.toInt32.toInt = value.toInt
  | _ => True

/-- Nothing in the content needs an escape, and it fits into its data. -/
def Content.Clean : Content → Prop
  | .scalar (.string value) => Plain value
  | .stringArray value => ∀ s ∈ value, Plain s
  | .boolArray value => ∀ n ∈ value, n = 0 ∨ n = 1
  | .rectangle x y w h => ∀ s ∈ [x, y, w, h], s.Corner
  | _ => True

/-- No name, string or description needs an escape. -/
structure Conn.Clean (c : Conn) (since : Double) (extended : Bool) : Prop where
  sent : ∀ v ∈ c.sent since, Plain v.name ∧ v.content.Clean ∧ (extended = true → Plain v.description)
  minmax : ∀ v ∈ c.values, v.minmax.isSome = true → Plain v.name
  state : Plain c.getStateString

/-! ## Numbers -/

theorem head_decimalNat {n : Nat} (h : n ≠ 0) : (decimalNat n).head? ≠ some 48 := by
  have hne : Nat.digits 10 n ≠ [] := Nat.digits_ne_nil_iff_ne_zero.mpr h
  have hlast := Nat.getLast_digit_ne_zero 10 h
  have hlt : (Nat.digits 10 n).getLast hne < 10 :=
    Nat.digits_lt_base (by decide) (List.getLast_mem hne)
  rw [decimalNat, if_neg h, List.head?_map, List.head?_reverse, List.getLast?_eq_some_getLast hne]
  intro heq
  have hbyte := congrArg UInt8.toNat (Option.some.inj heq)
  rw [digitByte_toNat hlt] at hbyte
  have h48 : (48 : Byte).toNat = 48 := rfl
  omega

/-- The whole part of a number. -/
theorem isNumber_decimalNat (n : Nat) (neg : Bool) (tail : List Byte)
    (htail : ∀ b ∈ tail.head?, Lib.Json.isDigit b = false) (hfraction : isFraction tail = true) :
    isNumber ((if neg then [45] else []) ++ (decimalNat n ++ tail)) = true := by
  have hdigits : ∀ b ∈ decimalNat n, Lib.Json.isDigit b = true := isdigit_decimalNat n
  have hne := decimalNat_ne_nil n
  have htake : (decimalNat n ++ tail).takeWhile Lib.Json.isDigit = decimalNat n := by
    rw [List.takeWhile_append_of_pos hdigits]
    cases tail with
    | nil => simp
    | cons b tail => simp [htail b rfl]
  have hdrop : (decimalNat n ++ tail).dropWhile Lib.Json.isDigit = tail := by
    rw [List.dropWhile_append_of_pos hdigits]
    cases tail with
    | nil => rfl
    | cons b tail => simp [htail b rfl]
  have hsign : (if ((if neg then [45] else []) ++ (decimalNat n ++ tail)).head? = some 45
      then ((if neg then [45] else []) ++ (decimalNat n ++ tail)).tail
      else (if neg then [45] else []) ++ (decimalNat n ++ tail)) = decimalNat n ++ tail := by
    cases neg with
    | true => rfl
    | false =>
      obtain ⟨b, l, hl⟩ := List.exists_cons_of_ne_nil hne
      have hb := (not_isspace_of_isdigit (hdigits b (by rw [hl]; exact List.mem_cons_self))).2.2.2.1
      simp [hl, hb]
  unfold isNumber
  simp only [hsign, htake, hdrop, hfraction, Bool.and_true]
  have hzero : (decimalNat n).length = 1 ∨ (decimalNat n).head? ≠ some 48 := by
    by_cases h : n = 0
    · rw [h]
      exact .inl rfl
    · exact .inr (head_decimalNat h)
  simp [hne, hzero]

theorem isNumByte_decimalNat (n : Nat) : ∀ b ∈ decimalNat n, isNumByte b = true := fun b hb =>
  isNumByte_of_isDigit (isdigit_decimalNat n b hb)

theorem spells_decimalNat (n : Nat) : Spells True (decimalNat n) (.num (decimalNat n)) := by
  have hnumber := isNumber_decimalNat n false [] (fun b hb => by cases hb) rfl
  simp only [Bool.false_eq_true, if_false, List.nil_append, List.append_nil] at hnumber
  exact spells_num hnumber (isNumByte_decimalNat n)

theorem spells_decimal (n : Int) : Spells True (decimal n) (number n) := by
  unfold number decimal
  split
  · have hnumber := isNumber_decimalNat n.natAbs true [] (fun b hb => by cases hb)
      rfl
    simp only [if_true, List.append_nil] at hnumber
    refine spells_num hnumber fun b hb => ?_
    rcases List.mem_cons.mp hb with rfl | hb
    · rfl
    · exact isNumByte_decimalNat _ b hb
  · exact spells_decimalNat _

/-- The digits after the point. -/
def places (n : Nat) : List Byte := List.replicate (20 - (decimalNat n).length) 48 ++ decimalNat n

theorem isDigit_places (n : Nat) : ∀ b ∈ places n, Lib.Json.isDigit b = true := by
  intro b hb
  rcases List.mem_append.mp hb with hb | hb
  · rw [List.eq_of_mem_replicate hb]
    rfl
  · exact isdigit_decimalNat n b hb

theorem isFraction_places (n : Nat) : isFraction (46 :: places n) = true := by
  have htake : (places n).takeWhile Lib.Json.isDigit = places n :=
    List.takeWhile_eq_self_iff.mpr (isDigit_places n)
  have hdrop : (places n).dropWhile Lib.Json.isDigit = [] :=
    List.dropWhile_eq_nil_iff.mpr (isDigit_places n)
  have hne : places n ≠ [] := fun h => decimalNat_ne_nil n (List.append_eq_nil_iff.mp h).2
  simp [isFraction, htake, hdrop, hne, isExponent]

theorem fixed_eq (x : ℚ≥0) : ∃ n m, fixed x = decimalNat n ++ 46 :: places m := ⟨_, _, rfl⟩

theorem isNumByte_fixed (n m : Nat) : ∀ b ∈ decimalNat n ++ 46 :: places m, isNumByte b = true := by
  intro b hb
  rcases List.mem_append.mp hb with hb | hb
  · exact isNumByte_decimalNat n b hb
  rcases List.mem_cons.mp hb with rfl | hb
  · rfl
  · exact isNumByte_of_isDigit (isDigit_places m b hb)

theorem spells_double (x : Double) : Spells True (JsonDouble x) x.json := by
  have hpoint : ∀ m, ∀ b ∈ (46 :: places m).head?, Lib.Json.isDigit b = false := by
    intro m b hb
    cases hb
    rfl
  cases x with
  | nan => exact spells_null
  | inf neg => exact spells_null
  | finite neg abs =>
    obtain ⟨n, m, hfixed⟩ := fixed_eq abs
    have hnumber := isNumber_decimalNat n neg _ (hpoint m) (isFraction_places m)
    cases neg with
    | false =>
      have heq : JsonDouble (.finite false abs) = decimalNat n ++ 46 :: places m := hfixed
      rw [Double.json, heq]
      exact spells_num hnumber (isNumByte_fixed n m)
    | true =>
      have heq : JsonDouble (.finite true abs) = 45 :: (decimalNat n ++ 46 :: places m) :=
        congrArg (List.cons 45) hfixed
      rw [Double.json, heq]
      refine spells_num hnumber fun b hb => ?_
      rcases List.mem_cons.mp hb with rfl | hb
      · rfl
      · exact isNumByte_fixed n m b hb

/-! ## Values -/

/-- A text, the value it is read as, and when. -/
structure Part where
  P : Prop
  text : List Byte
  json : Json
  spells : Spells P text json

/-- A part that is always read. -/
def sure {t : List Byte} {j : Json} (h : Spells True t j) : Part := ⟨True, t, j, h⟩

theorem spells_array (l : List Part) :
    Spells (∀ p ∈ l, p.P) (array (l.map Part.text)) (.arr (l.map Part.json)) :=
  spells_arr l fun p _ => p.spells

theorem spells_object (l : List (List Byte × Part)) :
    Spells (∀ m ∈ l, Plain m.1 ∧ m.2.P) (object (l.map fun m => (m.1, m.2.text)))
      (.obj (l.map fun m => (m.1, m.2.json))) := by
  unfold object
  rw [List.map_map]
  exact spells_obj l fun m _ => m.2.spells

theorem spells_quoted (s : List Byte) : Spells (Plain s) (quoted s) (.str s) := spells_str s

theorem spells_flag (b : Bool) : Spells True (flag b) (number (if b then 1 else 0)) := by
  cases b with
  | false => exact spells_decimal 0
  | true => exact spells_decimal 1

theorem plain_of_forall {s : List Byte} (h : s.all fun b => 32 ≤ b ∧ b ≠ 34 ∧ b ≠ 92) : Plain s :=
  fun b hb => of_decide_eq_true (List.all_eq_true.mp h b hb)

theorem plain_append {s t : List Byte} (hs : Plain s) (ht : Plain t) : Plain (s ++ t) := by
  intro b hb
  rcases List.mem_append.mp hb with hb | hb
  · exact hs b hb
  · exact ht b hb

theorem plain_decimalNat (n : Nat) : Plain (decimalNat n) := by
  intro b hb
  have hdigit := isdigit_decimalNat n b hb
  simp only [isdigit, Bool.and_eq_true, decide_eq_true_eq, UInt8.le_iff_toNat_le] at hdigit
  obtain ⟨hl, hu⟩ := hdigit
  have h48 : (48 : Byte).toNat = 48 := rfl
  have h57 : (57 : Byte).toNat = 57 := rfl
  refine ⟨UInt8.le_iff_toNat_le.mpr ?_, ?_, ?_⟩
  · have h32 : (32 : Byte).toNat = 32 := rfl
    omega
  · rintro rfl
    exact absurd hl (by decide)
  · rintro rfl
    exact absurd hu (by decide)

theorem plain_decimal (n : Int) : Plain (decimal n) := by
  unfold decimal
  split
  · exact plain_append (s := [45]) (plain_of_forall rfl) (plain_decimalNat _)
  · exact plain_decimalNat _

theorem plain_pidText (p i d : Int32) : Plain (pidText p i d) :=
  plain_append (plain_decimal _) (plain_append (s := [32]) (plain_of_forall rfl)
    (plain_append (plain_decimal _) (plain_append (s := [32]) (plain_of_forall rfl) (plain_decimal _))))

/-- Coordinates. -/
theorem spells_pair {n m : List Byte} (hn : Plain n) (hm : Plain m) (x y : Double) :
    Spells True (object [(n, JsonDouble x), (m, JsonDouble y)])
      (.obj [(n, x.json), (m, y.json)]) := by
  refine (spells_object [(n, sure (spells_double x)), (m, sure (spells_double y))]).congr ?_
  simp [sure, hn, hm]

/-- Strings are the only content of a base type that may not be read back. -/
def Scalar.Plain : Scalar → Prop
  | .string value => Lib.Json.Plain value
  | _ => True

theorem Scalar.spells (s : Scalar) : Spells s.Plain s.sendValue s.json := by
  cases s with
  | string value => exact spells_quoted value
  | integer value => exact spells_decimal _
  | time value => exact spells_double value
  | double value => exact spells_double value
  | float value => exact spells_double value
  | bool value => exact spells_decimal _
  | selection value => exact spells_decimal _
  | longint value => exact spells_decimal _
  | radec ra dec =>
    exact spells_pair (plain_of_forall rfl) (plain_of_forall rfl) ra dec
  | altaz alt az =>
    exact spells_pair (plain_of_forall rfl) (plain_of_forall rfl) alt az
  | pid p i d =>
    exact (spells_quoted _).congr ⟨fun _ => trivial, fun _ => plain_pidText p i d⟩

def Content.Plain : Content → Prop
  | .scalar s => s.Plain
  | .stringArray value => ∀ s ∈ value, Lib.Json.Plain s
  | _ => True

/-- An array whose items are always read. -/
theorem spells_sure {α : Type} (l : List α) {t : α → List Byte} {j : α → Json}
    (h : ∀ a, Spells True (t a) (j a)) : Spells True (array (l.map t)) (.arr (l.map j)) :=
  (spells_arr l fun a _ => h a).congr ⟨fun _ => trivial, fun _ _ _ => trivial⟩

theorem Content.spells (c : Content) : Spells c.Plain c.sendValue c.json := by
  cases c with
  | scalar s => exact s.spells
  | stat numMes value mode stdev min max =>
    refine (spells_array [sure (spells_decimal numMes.toInt), sure (spells_double value),
      sure (spells_double mode), sure (spells_double stdev), sure (spells_double min),
      sure (spells_double max)]).congr ?_
    simp [sure, Content.Plain]
  | doubleMinMax value min max => exact spells_double value
  | integerMinMax value min max => exact spells_decimal _
  | rectangle x y w h => exact spells_sure [x, y, w, h] fun s => spells_decimal _
  | stringArray value => exact spells_arr value fun s _ => spells_quoted s
  | doubleArray value => exact spells_sure value spells_double
  | timeArray value => exact spells_sure value spells_double
  | integerArray value => exact spells_sure value fun n => spells_decimal _
  | boolArray value =>
    refine spells_sure value fun n => ?_
    by_cases hn : n = 0
    · simp [hn, spells_false, falseText]
    · simp [hn, spells_true, trueText]
  | timeserie value => exact spells_double value

/-- What follows the name of a value. -/
theorem Value.spells (v : Value) (extended : Bool) :
    Spells (v.content.Plain ∧ (extended = true → Lib.Json.Plain v.description)) (v.data extended)
      (v.json extended) := by
  cases extended with
  | false => exact v.content.spells.congr ⟨fun h => ⟨h, fun hext => by cases hext⟩, fun h => h.1⟩
  | true =>
    refine (spells_array [sure (spells_decimal v.getFlags.toInt),
      ⟨_, _, _, v.content.spells⟩, sure (spells_flag v.isError), sure (spells_flag v.isWarning),
      ⟨_, _, _, spells_quoted v.description⟩]).congr ?_
    simp [sure]

/-- What follows the name of a value in the object of limits. -/
theorem Value.minmax_spells (v : Value) :
    (v.minmax = none ∧ v.minmaxJson = none) ∨ ∃ t j, v.minmax = some (v.name, t) ∧
      v.minmaxJson = some (v.name, j) ∧ Spells True t j := by
  unfold Value.minmax Value.minmaxJson
  cases v.content with
  | doubleMinMax value min max =>
    refine .inr ⟨_, _, rfl, rfl, ?_⟩
    exact spells_sure [min, max] spells_double
  | integerMinMax value min max =>
    refine .inr ⟨_, _, rfl, rfl, ?_⟩
    exact spells_sure [min, max] fun n => spells_decimal n.toInt
  | _ => exact .inl ⟨rfl, rfl⟩

/-! ## The list of values -/

/-- The texts of the values, in the order they are written. -/
def more (ts : List (List Byte)) : List Byte := ts.flatMap fun t => 44 :: t

theorem commas_eq (t : List Byte) (ts : List (List Byte)) : commas (t :: ts) = t ++ more ts := by
  induction ts generalizing t with
  | nil => simp [commas, more]
  | cons t' ts ih =>
    rw [commas_cons, ih]
    simp [more]

section
variable (c : Conn) (since : Double) (extended : Bool)

/-- A turn of the loop. -/
theorem turn_cases (s : Loop) (v : Value) :
    (c.skips since v = true ∧ (c.turn since extended s v).os = s.os ∧
      (c.turn since extended s v).first = s.first) ∨
    (c.skips since v = false ∧ (c.turn since extended s v).os =
      s.os ++ ((if s.first then [] else [44]) ++ jsonValue v extended) ∧
      (c.turn since extended s v).first = false) := by
  -- the time of the change is taken in any case
  have htaken : ∀ b : Bool, (if b then { s with mfrom := v.getValueChangedTime } else s).os = s.os ∧
      (if b then { s with mfrom := v.getValueChangedTime } else s).first = s.first := by
    intro b
    cases b with
    | false => exact ⟨rfl, rfl⟩
    | true => exact ⟨rfl, rfl⟩
  cases h : c.skips since v with
  | true =>
    unfold Conn.skips at h
    simp only [Conn.turn, h, if_true]
    exact .inl ⟨trivial, htaken _⟩
  | false =>
    unfold Conn.skips at h
    simp only [Conn.turn, h, Bool.false_eq_true, if_false, (htaken _).1, (htaken _).2]
    exact .inr ⟨trivial, trivial, trivial⟩

theorem loop_more (vs : List Value) (s : Loop) (hs : s.first = false) :
    (vs.foldl (c.turn since extended) s).os =
      s.os ++ more ((vs.filter fun v => !c.skips since v).map fun v => jsonValue v extended) := by
  induction vs generalizing s with
  | nil => simp [more]
  | cons v vs ih =>
    rw [List.foldl_cons]
    obtain ⟨hskip, hos, hfirst⟩ | ⟨hskip, hos, hfirst⟩ := turn_cases c since extended s v
    · rw [ih _ (hfirst.trans hs), hos]
      simp [hskip]
    · rw [ih _ hfirst, hos]
      simp [hskip, hs, more]

/-- The loop writes the values that are sent, with commas between them. -/
theorem loop_os : (c.loop since extended).os =
    commas ((c.sent since).map fun v => jsonValue v extended) := by
  have hstart : ∀ (vs : List Value) (s : Loop), s.first = true → s.os = [] →
      (vs.foldl (c.turn since extended) s).os =
        commas ((vs.filter fun v => !c.skips since v).map fun v => jsonValue v extended) := by
    intro vs
    induction vs with
    | nil => exact fun s _ hos => hos
    | cons v vs ih =>
      intro s hs hnil
      rw [List.foldl_cons]
      obtain ⟨hskip, hos, hfirst⟩ | ⟨hskip, hos, hfirst⟩ := turn_cases c since extended s v
      · rw [ih _ (hfirst.trans hs) (hos.trans hnil)]
        simp [hskip]
      · rw [loop_more c since extended vs _ hfirst, hos, hnil, hs]
        simp [hskip, commas_eq]
  exact hstart c.values _ rfl rfl

end

/-! ## Contents -/

theorem integer?_number {n : Int} (h : clampLong n = n) : integer? (number n) = some n := by
  simp [number, integer?, strtol_decimal, h]

theorem integer?_int32 (n : Int32) : integer? (number n.toInt) = some n.toInt := by
  have hl := n.le_toInt
  have hu := n.toInt_lt
  exact integer?_number (clampLong_of_mem (by omega) (by omega))

/-- A value of a base type has its content. -/
theorem Scalar.recovers (s : Scalar) : s.Recovers s.json := by
  cases s with
  | string value => rfl
  | integer value => exact integer?_int32 value
  | bool value => exact integer?_int32 value
  | selection value => exact integer?_int32 value
  | longint value => exact integer?_number (clampLong_of_mem value.le_toInt value.toInt_lt)
  | pid p i d => rfl
  | _ => trivial

/-- A corner of a rectangle is sent as an `int`. -/
theorem Scalar.corner_iff (s : Scalar) : s.Corner ↔ s.Recovers (number s.getValueInteger.toInt) := by
  cases s with
  | string value => exact ⟨False.elim, fun h => by cases h⟩
  | integer value => exact ⟨fun _ => integer?_int32 value, fun _ => trivial⟩
  | bool value => exact ⟨fun _ => integer?_int32 value, fun _ => trivial⟩
  | selection value => exact ⟨fun _ => integer?_int32 value, fun _ => trivial⟩
  | longint value =>
    have hread := integer?_int32 value.toInt32
    constructor
    · intro h
      exact hread.trans (congrArg some h)
    · intro h
      exact Option.some.inj (hread.symm.trans h)
  | pid p i d => exact ⟨False.elim, fun h => by cases h⟩
  | _ => exact ⟨fun _ => trivial, fun _ => trivial⟩

theorem recovers_boolArray (value : List Int32) :
    (Content.boolArray value).Recovers (Content.boolArray value).json ↔ ∀ n ∈ value, n = 0 ∨ n = 1 := by
  constructor
  · rintro ⟨l, hl, hread⟩ n hn
    cases hl
    rw [List.map_map] at hread
    have hmem := List.map_inj_left.mp hread n hn
    exact (Values.ofBool_ne_zero_iff n).mp (Option.some.inj hmem)
  · intro h
    refine ⟨_, rfl, ?_⟩
    rw [List.map_map]
    refine List.map_inj_left.mpr fun n hn => ?_
    exact congrArg some ((Values.ofBool_ne_zero_iff n).mpr (h n hn))

theorem recovers_rectangle (x y w h : Scalar) :
    (Content.rectangle x y w h).Recovers (Content.rectangle x y w h).json ↔
      ∀ s ∈ [x, y, w, h], s.Corner := by
  simp only [Content.Recovers, Content.json, Json.arr.injEq, exists_eq_left', List.map_cons,
    List.map_nil, List.forall₂_cons, List.forall₂_nil_left_iff, ← Scalar.corner_iff,
    List.forall_mem_cons]
  simp

/-- A content is in its data exactly if it fits into it. -/
theorem Content.clean_iff (c : Content) : c.Clean ↔ c.Plain ∧ c.Recovers c.json := by
  cases c with
  | scalar s =>
    have hs := s.recovers
    cases s <;> exact ⟨fun h => ⟨h, hs⟩, fun h => h.1⟩
  | stat numMes value mode stdev min max =>
    exact ⟨fun _ => ⟨trivial, _, _, rfl, integer?_int32 numMes⟩, fun _ => trivial⟩
  | integerMinMax value min max =>
    exact ⟨fun _ => ⟨trivial, integer?_int32 value⟩, fun _ => trivial⟩
  | rectangle x y w h =>
    exact (recovers_rectangle x y w h).symm.trans ⟨fun h => ⟨trivial, h⟩, fun h => h.2⟩
  | stringArray value =>
    refine ⟨fun h => ⟨h, _, rfl, ?_⟩, fun h => h.1⟩
    rw [List.map_map]
    rfl
  | integerArray value =>
    refine ⟨fun _ => ⟨trivial, _, rfl, ?_⟩, fun _ => trivial⟩
    rw [List.map_map]
    exact List.map_congr_left fun n _ => integer?_int32 n
  | boolArray value =>
    exact (recovers_boolArray value).symm.trans ⟨fun h => ⟨trivial, h⟩, fun h => h.2⟩
  | _ => exact ⟨fun _ => ⟨trivial, trivial⟩, fun _ => trivial⟩

/-! ## Connections -/

/-- The object of the values. -/
theorem spells_values (l : List Value) (extended : Bool) :
    Spells (∀ v ∈ l, Plain v.name ∧ v.content.Plain ∧
        (extended = true → Lib.Json.Plain v.description))
      (123 :: commas (l.map fun v => jsonValue v extended) ++ [125])
      (.obj (l.map fun v => (v.name, v.json extended))) := by
  unfold jsonValue
  exact spells_obj l fun v _ => v.spells extended

/-- The members of the object of limits. -/
theorem minmax_parts (vs : List Value) : ∃ l : List (List Byte × Part),
    (l.map fun m => (m.1, m.2.text)) = vs.filterMap Value.minmax ∧
    (l.map fun m => (m.1, m.2.json)) = vs.filterMap Value.minmaxJson ∧
    ((∀ m ∈ l, Plain m.1 ∧ m.2.P) ↔ ∀ v ∈ vs, v.minmax.isSome = true → Plain v.name) := by
  induction vs with
  | nil => exact ⟨[], rfl, rfl, by simp⟩
  | cons v vs ih =>
    obtain ⟨l, htext, hjson, hP⟩ := ih
    obtain ⟨hnone, hnone'⟩ | ⟨t, j, hsome, hsome', hspells⟩ := v.minmax_spells
    · refine ⟨l, by simp [htext, hnone], by simp [hjson, hnone'], ?_⟩
      rw [hP, List.forall_mem_cons, hnone]
      simp
    · refine ⟨(v.name, sure hspells) :: l, ?_, ?_, ?_⟩
      · simp [htext, hsome, sure]
      · simp [hjson, hsome', sure]
      · rw [List.forall_mem_cons, List.forall_mem_cons, hP, hsome]
        simp [sure]

theorem Conn.spells (c : Conn) (since : Double) (extended : Bool) :
    Spells ((∀ v ∈ c.sent since, Plain v.name ∧ v.content.Plain ∧
          (extended = true → Lib.Json.Plain v.description)) ∧
        (∀ v ∈ c.values, v.minmax.isSome = true → Plain v.name) ∧ Plain c.getStateString)
      (123 :: c.sendConnectionValues since extended ++ [125]) (c.json since extended) := by
  obtain ⟨minmax, htext, hjson, hminmax⟩ := minmax_parts c.values
  rw [Conn.sendConnectionValues, loop_os, ← htext, Conn.json, ← hjson]
  refine (spells_object [
    (dName, ⟨_, _, _, spells_values (c.sent since) extended⟩),
    (minmaxName, ⟨_, _, _, spells_object minmax⟩),
    (idleName, sure (spells_flag c.isIdle)),
    (stateName, sure (spells_decimalNat c.getState.toNat)),
    (sstartName, sure (spells_double c.getProgressStart)),
    (sendName, sure (spells_double c.getProgressEnd)),
    (fName, sure (spells_double (c.loop since extended).mfrom)),
    (statestringName, ⟨_, _, _, spells_quoted c.getStateString⟩),
    (typeName, sure (spells_decimal c.getOtherType.toInt))]).congr ?_
  have hall : [dName, minmaxName, idleName, stateName, sstartName, sendName, fName,
      statestringName, typeName].all (fun n => n.all fun b => 32 ≤ b ∧ b ≠ 34 ∧ b ≠ 92) = true :=
    rfl
  have hnames : ∀ n ∈ [dName, minmaxName, idleName, stateName, sstartName, sendName, fName,
      statestringName, typeName], Plain n := fun n hn =>
    plain_of_forall (List.all_eq_true.mp hall n hn)
  simp only [List.forall_mem_cons, List.not_mem_nil, false_implies, implies_true,
    and_true] at hnames
  simp only [List.forall_mem_cons, hminmax, hnames, sure, List.not_mem_nil, false_implies,
    implies_true, and_true, true_and]

/-- The text of a connection is read as the object of its values exactly if nothing in it needs
an escape. -/
theorem connection_recovered_iff (c : Conn) (since : Double) (extended : Bool) :
    c.Recovered since extended ↔ c.Clean since extended := by
  rw [Conn.Recovered, (c.spells since extended).parse_iff]
  constructor
  · rintro ⟨⟨hsent, hminmax, hstate⟩, hrecovers⟩
    refine ⟨fun v hv => ?_, hminmax, hstate⟩
    obtain ⟨hname, hplain, hdescription⟩ := hsent v hv
    exact ⟨hname, v.content.clean_iff.mpr ⟨hplain, hrecovers v hv⟩, hdescription⟩
  · rintro ⟨hsent, hminmax, hstate⟩
    refine ⟨⟨fun v hv => ?_, hminmax, hstate⟩, fun v hv => ?_⟩
    · obtain ⟨hname, hclean, hdescription⟩ := hsent v hv
      exact ⟨hname, (v.content.clean_iff.mp hclean).1, hdescription⟩
    · exact (v.content.clean_iff.mp (hsent v hv).2.1).2

/-- A device whose only value is the name of a target, `"M 1"` with its quotes. -/
def quotedConn : Conn where
  values := [{
    name := [79, 66, 74, 69, 67, 84]
    description := [110, 97, 109, 101]
    rts2Type := 1
    changedTime := none
    content := .scalar (.string ⟨[34, 77, 32, 49, 34], by decide⟩) }]
  getOtherDevClient := false
  isIdle := true
  getState := 0
  getProgressStart := .nan
  getProgressEnd := .nan
  getStateString := [105, 100, 108, 101]
  getOtherType := 3

/-- Its text is not JSON. -/
theorem quotes_refused : ¬ quotedConn.Recovered .nan false ∧
    (parse (123 :: quotedConn.sendConnectionValues .nan false ++ [125])).isNone = true := by
  have hnone : (parse (123 :: quotedConn.sendConnectionValues .nan false ++ [125])).isNone = true := by
    decide +kernel
  refine ⟨fun h => ?_, hnone⟩
  rw [h.1] at hnone
  cases hnone

end Rts2.JsonValue

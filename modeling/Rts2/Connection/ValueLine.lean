import Rts2.Connection.Params
import Mathlib.Data.List.DropRight
import Mathlib.Data.Nat.Digits.Defs

/-! # The line of a value

A value is sent as `V name text`. The receiver cuts the name off and hands the
rest of the line to the value. -/
namespace Rts2.Connection

/-! ## Words -/

/-- A parameter behind which a space, or nothing, follows. -/
theorem paramNextString_word {w : List Byte} (tail enddelim : List Byte) (hne : w ≠ [])
    (hw : ∀ b ∈ w, isspace b = false ∧ b ∉ enddelim) (hquote : w.head? ≠ some quote)
    (htail : ∀ b ∈ tail.head?, isspace b = true) :
    paramNextString (w ++ tail) enddelim = some (w, tail.drop 1) := by
  obtain ⟨b, w, rfl⟩ := List.exists_cons_of_ne_nil hne
  have hb := (hw b List.mem_cons_self).1
  have hskip : skipSpace (b :: w ++ tail) = b :: (w ++ tail) := by simp [skipSpace, hb]
  have hbq : b ≠ quote := fun h => hquote (by rw [h]; rfl)
  let inside : Byte → Bool := fun c => !isspace c && !enddelim.contains c
  have hin : ∀ c ∈ b :: w, inside c = true := by
    intro c hc
    simp [inside, hw c hc]
  have hout : tail.takeWhile inside = [] ∧ tail.dropWhile inside = tail := by
    cases tail with
    | nil => exact ⟨rfl, rfl⟩
    | cons c tail =>
      have hc : isspace c = true := htail c rfl
      simp [inside, hc]
  have htake : (b :: w ++ tail).takeWhile inside = b :: w := by
    rw [List.takeWhile_append_of_pos hin, hout.1, List.append_nil]
  have hdrop : (b :: w ++ tail).dropWhile inside = tail := by
    rw [List.dropWhile_append_of_pos hin, hout.2]
  unfold paramNextString
  rw [hskip]
  show (if b = quote then _ else _) = _
  rw [if_neg hbq]
  show some ((b :: w ++ tail).takeWhile inside, ((b :: w ++ tail).dropWhile inside).drop 1) = _
  rw [htake, hdrop]

theorem skipSpace_skipSpace (s : List Byte) : skipSpace (skipSpace s) = skipSpace s :=
  List.dropWhile_idempotent _ _

theorem skipSpace_length_le (s : List Byte) : (skipSpace s).length ≤ s.length :=
  (List.dropWhile_sublist _).length_le

/-- A parameter between quotes, or up to a space. -/
theorem paramNextString_cases {s enddelim w rest : List Byte}
    (h : paramNextString s enddelim = some (w, rest)) :
    ∃ b tail, skipSpace s = b :: tail ∧
      ((b = quote ∧ w = tail.takeWhile (· ≠ quote) ∧
          rest = (tail.dropWhile (· ≠ quote)).drop 1) ∨
        (b ≠ quote ∧ w = (b :: tail).takeWhile (fun c => !isspace c && !enddelim.contains c) ∧
          rest = ((b :: tail).dropWhile (fun c => !isspace c && !enddelim.contains c)).drop 1)) := by
  unfold paramNextString at h
  split at h
  · cases h
  · next b tail hs =>
    refine ⟨b, tail, hs, ?_⟩
    split at h
    · next hb =>
      obtain ⟨rfl, rfl⟩ := Prod.mk.inj (Option.some.inj h)
      exact .inl ⟨hb, rfl, rfl⟩
    · next hb =>
      obtain ⟨rfl, rfl⟩ := Prod.mk.inj (Option.some.inj h)
      exact .inr ⟨hb, rfl, rfl⟩

theorem skipSpace_subset {s : List Byte} {b : Byte} (hb : b ∈ skipSpace s) : b ∈ s :=
  (List.dropWhile_sublist _).subset hb

theorem mem_dropWhile_drop {p : Byte → Bool} {l : List Byte} {b : Byte}
    (hb : b ∈ (l.dropWhile p).drop 1) : b ∈ l :=
  (List.dropWhile_sublist _).subset (List.mem_of_mem_drop hb)

theorem skipSpace_append (s t : List Byte) :
    skipSpace (s ++ t) = if skipSpace s = [] then skipSpace t else skipSpace s ++ t := by
  simp [skipSpace, List.dropWhile_append]

theorem paramNextString_subset {s enddelim w rest : List Byte}
    (h : paramNextString s enddelim = some (w, rest)) : w ⊆ s ∧ rest ⊆ s := by
  obtain ⟨b, tail, hs, hcases⟩ := paramNextString_cases h
  have hmem : ∀ c ∈ b :: tail, c ∈ s := fun c hc => skipSpace_subset (by rw [hs]; exact hc)
  rcases hcases with ⟨-, rfl, rfl⟩ | ⟨-, rfl, rfl⟩
  · refine ⟨fun c hc => hmem c (List.mem_cons_of_mem _ ?_),
      fun c hc => hmem c (List.mem_cons_of_mem _ (mem_dropWhile_drop hc))⟩
    exact (List.takeWhile_sublist _).subset hc
  · exact ⟨fun c hc => hmem c ((List.takeWhile_sublist _).subset hc),
      fun c hc => hmem c (mem_dropWhile_drop hc)⟩

/-! ## Numbers -/

def digitByte (d : Nat) : Byte := UInt8.ofNat (48 + d)

/-- A number without sign, as `%i` prints it. -/
def decimalNat (n : Nat) : List Byte :=
  if n = 0 then [48] else (Nat.digits 10 n).reverse.map digitByte

/-- `%i`, `%li` and `operator <<`. -/
def decimal (n : Int) : List Byte :=
  if n < 0 then 45 :: decimalNat n.natAbs else decimalNat n.natAbs

theorem digitByte_toNat {d : Nat} (h : d < 10) : (digitByte d).toNat = 48 + d := by
  simp [digitByte]
  omega

theorem isdigit_digitByte {d : Nat} (h : d < 10) : isdigit (digitByte d) = true := by
  have hd := digitByte_toNat h
  simp [isdigit, UInt8.le_iff_toNat_le, hd]
  omega

theorem isdigit_decimalNat (n : Nat) : ∀ b ∈ decimalNat n, isdigit b = true := by
  intro b hb
  unfold decimalNat at hb
  split at hb
  · rw [List.mem_singleton.mp hb]
    rfl
  · obtain ⟨d, hd, rfl⟩ := List.mem_map.mp hb
    exact isdigit_digitByte (Nat.digits_lt_base (by decide) (List.mem_reverse.mp hd))

theorem decimalNat_ne_nil (n : Nat) : decimalNat n ≠ [] := by
  unfold decimalNat
  split
  · simp
  · next h => simpa [Nat.digits_eq_nil_iff_eq_zero] using h

theorem digitsValue_concat (acc : Nat) (l : List Byte) (b : Byte) :
    digitsValue acc (l ++ [b]) = 10 * digitsValue acc l + (b.toNat - 48) := by
  induction l generalizing acc with
  | nil => rfl
  | cons c l ih => exact ih _

theorem digitsValue_digits {ds : List Nat} (h : ∀ d ∈ ds, d < 10) :
    digitsValue 0 (ds.reverse.map digitByte) = Nat.ofDigits 10 ds := by
  induction ds with
  | nil => rfl
  | cons d ds ih =>
    have hd := digitByte_toNat (h d List.mem_cons_self)
    have hds := ih fun e he => h e (List.mem_cons_of_mem _ he)
    rw [List.reverse_cons, List.map_append, List.map_singleton, digitsValue_concat, hds, hd,
      Nat.ofDigits_cons]
    omega

theorem digitsValue_decimalNat (n : Nat) : digitsValue 0 (decimalNat n) = n := by
  unfold decimalNat
  split
  · next h => rw [h]; rfl
  · rw [digitsValue_digits fun d hd => Nat.digits_lt_base (by decide) hd, Nat.ofDigits_digits]

theorem not_isspace_of_isdigit {b : Byte} (h : isdigit b = true) :
    isspace b = false ∧ b ≠ comma ∧ b ≠ quote ∧ b ≠ 45 ∧ b ≠ 43 := by
  simp only [isdigit, Bool.and_eq_true, decide_eq_true_eq, UInt8.le_iff_toNat_le] at h
  obtain ⟨hl, hu⟩ := h
  have hne : ∀ c : Byte, c.toNat < 48 → b ≠ c := by
    rintro c hc rfl
    have h48 : (48 : Byte).toNat = 48 := rfl
    omega
  refine ⟨?_, hne _ (by decide), hne _ (by decide), hne _ (by decide), hne _ (by decide)⟩
  have h32 := hne 32 (by decide)
  have h48 : (48 : Byte).toNat = 48 := rfl
  have h13 : (13 : Byte).toNat = 13 := rfl
  simp [isspace, h32, UInt8.le_iff_toNat_le, h13]
  omega

/-- `strtol` reads a printed number back. -/
theorem strtol_decimal (n : Int) : strtol (decimal n) = (clampLong n, []) := by
  have hdigits := isdigit_decimalNat n.natAbs
  obtain ⟨b, l, hl⟩ := List.exists_cons_of_ne_nil (decimalNat_ne_nil n.natAbs)
  have hb := not_isspace_of_isdigit (hdigits b (by rw [hl]; exact List.mem_cons_self))
  have htake : (decimalNat n.natAbs).takeWhile isdigit = decimalNat n.natAbs :=
    List.takeWhile_eq_self_iff.mpr hdigits
  have hdrop : (decimalNat n.natAbs).dropWhile isdigit = [] :=
    List.dropWhile_eq_nil_iff.mpr hdigits
  have hvalue := digitsValue_decimalNat n.natAbs
  unfold decimal
  split
  · next hneg =>
    have hskip : skipSpace (45 :: decimalNat n.natAbs) = 45 :: decimalNat n.natAbs := rfl
    unfold strtol
    rw [hskip]
    simp only [htake, hdrop]
    rw [hl] at hvalue ⊢
    simp only [hvalue]
    simp only [if_true]
    congr 2
    omega
  · next hpos =>
    have hskip : skipSpace (decimalNat n.natAbs) = decimalNat n.natAbs := by
      rw [hl]
      simp [skipSpace, hb.1]
    unfold strtol
    rw [hskip]
    split
    next negative digits heq =>
      have hsign : negative = false ∧ digits = decimalNat n.natAbs := by
        rw [hl] at heq ⊢
        split at heq
        · next h => exact absurd (List.cons.inj h).1 hb.2.2.2.1
        · next h => exact absurd (List.cons.inj h).1 hb.2.2.2.2
        · obtain ⟨rfl, rfl⟩ := Prod.mk.inj heq
          exact ⟨rfl, rfl⟩
      obtain ⟨rfl, rfl⟩ := hsign
      simp only [htake, hdrop]
      rw [hl] at hvalue ⊢
      simp only [hvalue]
      congr 2
      simp only [Bool.false_eq_true, if_false]
      omega

theorem decimal_word (n : Int) :
    decimal n ≠ [] ∧ (decimal n).head? ≠ some quote ∧
      ∀ b ∈ decimal n, isspace b = false ∧ b ≠ comma ∧ b ≠ quote := by
  have hdigits := isdigit_decimalNat n.natAbs
  have hall : ∀ b ∈ decimal n, isspace b = false ∧ b ≠ comma ∧ b ≠ quote := by
    intro b hb
    have hcase : b = 45 ∨ b ∈ decimalNat n.natAbs := by
      unfold decimal at hb
      split at hb
      · exact List.mem_cons.mp hb
      · exact .inr hb
    rcases hcase with rfl | hb
    · exact ⟨rfl, by decide, by decide⟩
    · have h := not_isspace_of_isdigit (hdigits b hb)
      exact ⟨h.1, h.2.1, h.2.2.1⟩
  have hne : decimal n ≠ [] := by
    unfold decimal
    split
    · exact List.cons_ne_nil _ _
    · exact decimalNat_ne_nil _
  refine ⟨hne, ?_, hall⟩
  intro h
  exact (hall quote (List.mem_of_mem_head? h)).2.2 rfl

/-- A printed number is a parameter of its own. -/
theorem paramNumber_decimal (n : Int) {tail enddelim : List Byte}
    (hdelim : ∀ b ∈ enddelim, b = comma) (htail : ∀ b ∈ tail.head?, isspace b = true) :
    paramNumber (decimal n ++ tail) enddelim = some (clampLong n, tail.drop 1) := by
  obtain ⟨hne, hquote, hall⟩ := decimal_word n
  have hword : ∀ b ∈ decimal n, isspace b = false ∧ b ∉ enddelim := fun b hb =>
    ⟨(hall b hb).1, fun hmem => (hall b hb).2.1 (hdelim b hmem)⟩
  unfold paramNumber
  rw [paramNextString_word tail enddelim hne hword hquote htail]
  simp [strtol_decimal]

theorem clampLong_of_mem {n : Int} (hl : -2 ^ 63 ≤ n) (hu : n < 2 ^ 63) : clampLong n = n := by
  unfold clampLong
  omega

theorem paramNextLong_decimal (n : Int64) (tail : List Byte)
    (htail : ∀ b ∈ tail.head?, isspace b = true) :
    paramNextLong (decimal n.toInt ++ tail) = some (n.toInt, tail.drop 1) := by
  have hrange := clampLong_of_mem n.le_toInt n.toInt_lt
  unfold paramNextLong
  rw [paramNumber_decimal _ (by simp) htail, hrange]

theorem paramNextInteger_decimal (n : Int32) (tail : List Byte)
    (htail : ∀ b ∈ tail.head?, isspace b = true) :
    paramNextInteger (decimal n.toInt ++ tail) = some (n.toInt, tail.drop 1) := by
  have hl := n.le_toInt
  have hu := n.toInt_lt
  have hrange : clampLong n.toInt = n.toInt := clampLong_of_mem (by omega) (by omega)
  have hint : toInt32 n.toInt = n.toInt := by
    unfold toInt32
    exact Int.bmod_eq_of_le (by omega) (by omega)
  unfold paramNextInteger
  rw [paramNumber_decimal _ (by simp) htail, hrange]
  simp [hint]

/-! ## The line -/

/-- The name of a value: one word, not quoted. -/
structure ValueName where
  text : List Byte
  ne_nil : text ≠ []
  word : ∀ b ∈ text, isspace b = false ∧ b ≠ 0
  unquoted : text.head? ≠ some quote

def protoValue : List Byte := [86]

/-- `Connection::sendValueRaw`, without the LF `sendMsg` puts behind it. -/
def valueLine (name : ValueName) (text : List Byte) : List Byte :=
  protoValue ++ 32 :: (name.text ++ 32 :: text)

/-- What `processLine` gives to `commandValue` of a `V` line: the name, and the
rest of the line for `setValue`. -/
def commandValue (line : List Byte) : Option (List Byte × List Byte) :=
  if line.takeWhile (!isspace ·) = protoValue then
    paramNextString ((line.dropWhile (!isspace ·)).drop 1) []
  else none

theorem commandValue_valueLine (name : ValueName) (text : List Byte) :
    commandValue (valueLine name text) = some (name.text, text) := by
  have hword : ∀ b ∈ name.text, isspace b = false ∧ b ∉ ([] : List Byte) := fun b hb =>
    ⟨(name.word b hb).1, by simp⟩
  have h := paramNextString_word (32 :: text) [] name.ne_nil hword name.unquoted (by simp [isspace])
  unfold commandValue
  rw [if_pos (by rfl)]
  exact h

theorem commandValue_subset {line name rest : List Byte}
    (h : commandValue line = some (name, rest)) : rest ⊆ line := by
  unfold commandValue at h
  split at h
  · intro b hb
    exact mem_dropWhile_drop ((paramNextString_subset h).2 hb)
  · cases h

/-! ## Lists of parameters -/

section ParamList

variable {α β : Type} (next : List Byte → Option (α × List Byte))

/-- The loop of the arrays' `setValue`: parameters up to the end of the line. Every
turn takes a byte. -/
def paramList : Nat → List Byte → Bool × List α
  | 0, _ => (false, [])
  | fuel + 1, s =>
    if paramEnd s then (true, [])
    else
      match next s with
      | none => (false, [])
      | some (a, rest) => ((paramList fuel rest).1, a :: (paramList fuel rest).2)

def params (s : List Byte) : Bool × List α := paramList next (s.length + 1) s

/-- Elements as the arrays' `getValue` writes them, one space between them. -/
def joined (enc : β → List Byte) : List β → List Byte
  | [] => []
  | [a] => enc a
  | a :: b :: l => enc a ++ 32 :: joined enc (b :: l)

variable {next}

/-- A text that is read as `a`, up to the space behind it. -/
structure ReadsBack (next : List Byte → Option (α × List Byte)) (text : List Byte) (a : α) :
    Prop where
  head : ∃ b, text.head? = some b ∧ isspace b = false
  reads : ∀ tail : List Byte, (∀ b ∈ tail.head?, isspace b = true) →
    ∃ rest, next (text ++ tail) = some (a, rest) ∧ skipSpace rest = skipSpace tail

theorem paramList_skipSpace (hskip : ∀ s, next (skipSpace s) = next s) (fuel : Nat)
    (s : List Byte) : paramList next fuel (skipSpace s) = paramList next fuel s := by
  cases fuel with
  | zero => rfl
  | succ fuel =>
    simp only [paramList, paramEnd, skipSpace_skipSpace, hskip]
    rfl

theorem paramEnd_of_head {text tail : List Byte}
    (h : ∃ b, text.head? = some b ∧ isspace b = false) : paramEnd (text ++ tail) = false := by
  obtain ⟨b, hb, hspace⟩ := h
  cases text with
  | nil => cases hb
  | cons c text =>
    obtain rfl : c = b := Option.some.inj hb
    simp [paramEnd, skipSpace, hspace]

/-- What is read back, and what comes after it. -/
theorem paramList_cons (hskip : ∀ s, next (skipSpace s) = next s) {text tail : List Byte} {a : α}
    (h : ReadsBack next text a) (htail : ∀ b ∈ tail.head?, isspace b = true) (fuel : Nat) :
    paramList next (fuel + 1) (text ++ tail) =
      ((paramList next fuel tail).1, a :: (paramList next fuel tail).2) := by
  obtain ⟨rest, hnext, hrest⟩ := h.reads tail htail
  rw [paramList, if_neg (by rw [paramEnd_of_head h.head]; decide), hnext]
  dsimp only
  rw [← paramList_skipSpace hskip fuel rest, hrest, paramList_skipSpace hskip]

/-- What every parameter read from a text satisfies. -/
theorem paramList_all {P : α → Prop} {Q : List Byte → Prop}
    (hnext : ∀ s a rest, Q s → next s = some (a, rest) → P a ∧ Q rest) (fuel : Nat)
    {s : List Byte} (hs : Q s) : ∀ a ∈ (paramList next fuel s).2, P a := by
  induction fuel generalizing s with
  | zero => simp [paramList]
  | succ fuel ih =>
    unfold paramList
    split
    · simp
    · split
      · simp
      · next a rest hsome =>
        obtain ⟨ha, hrest⟩ := hnext s a rest hs hsome
        exact List.forall_mem_cons.mpr ⟨ha, ih hrest⟩

/-- The first of several parameters. -/
theorem paramList_first {fuel : Nat} {s : List Byte} {a : α} {l : List α}
    (h : paramList next fuel s = (true, a :: l)) : ∃ rest, next s = some (a, rest) := by
  cases fuel with
  | zero => cases h
  | succ fuel =>
    unfold paramList at h
    split at h
    · cases h
    · split at h
      · cases h
      · next c rest hsome =>
        obtain rfl : c = a := (List.cons.inj (Prod.mk.inj h).2).1
        exact ⟨rest, hsome⟩

theorem joined_cons (enc : β → List Byte) (a : β) (l : List β) :
    joined enc (a :: l) = enc a ++ if l = [] then [] else 32 :: joined enc l := by
  cases l with
  | nil => simp [joined]
  | cons b l => simp [joined]

theorem paramList_joined (hskip : ∀ s, next (skipSpace s) = next s) {enc : β → List Byte}
    {f : β → α} {l : List β} (h : ∀ x ∈ l, ReadsBack next (enc x) (f x)) {fuel : Nat}
    (hfuel : l.length < fuel) : paramList next fuel (joined enc l) = (true, l.map f) := by
  induction l generalizing fuel with
  | nil =>
    obtain ⟨fuel, rfl⟩ : ∃ n, fuel = n + 1 := ⟨fuel - 1, by omega⟩
    rfl
  | cons a l ih =>
    rw [List.length_cons] at hfuel
    obtain ⟨fuel, rfl⟩ : ∃ n, fuel = n + 1 := ⟨fuel - 1, by omega⟩
    have htail : paramList next fuel (joined enc l) = (true, l.map f) :=
      ih (fun x hx => h x (List.mem_cons_of_mem _ hx)) (by omega)
    rw [joined_cons, paramList_cons hskip (h a List.mem_cons_self) (by split <;> simp [isspace])]
    split
    · next hl =>
      subst hl
      rw [show ([] : List Byte) = joined enc [] from rfl, htail]
      rfl
    · have hspace : skipSpace (32 :: joined enc l) = skipSpace (joined enc l) := rfl
      rw [← paramList_skipSpace hskip, hspace, paramList_skipSpace hskip, htail]
      rfl

theorem length_le_joined {enc : β → List Byte} {l : List β} (h : ∀ x ∈ l, enc x ≠ []) :
    l.length ≤ (joined enc l).length := by
  induction l with
  | nil => exact Nat.zero_le _
  | cons a l ih =>
    have ha := List.length_pos_iff.mpr (h a List.mem_cons_self)
    have hl := ih fun x hx => h x (List.mem_cons_of_mem _ hx)
    rw [joined_cons, List.length_append, List.length_cons]
    split
    · next hnil =>
      subst hnil
      exact Nat.le_add_right_of_le ha
    · rw [List.length_cons]
      omega

/-- **A list is read back** when its elements are. -/
theorem params_joined (hskip : ∀ s, next (skipSpace s) = next s) {enc : β → List Byte}
    {f : β → α} {l : List β} (h : ∀ x ∈ l, ReadsBack next (enc x) (f x)) :
    params next (joined enc l) = (true, l.map f) := by
  have hne : ∀ x ∈ l, enc x ≠ [] := by
    intro x hx hnil
    obtain ⟨b, hb, -⟩ := (h x hx).head
    rw [hnil] at hb
    cases hb
  exact paramList_joined hskip h (Nat.lt_succ_of_le (length_le_joined hne))

end ParamList

/-! ## Quotes around the rest of a line -/

def apostrophe : Byte := 39

/-- `Connection::unquoteRest`: one quote in front of the rest of the line, and
all of them behind it, are taken away. -/
def unquoteRest (s : List Byte) : List Byte :=
  match skipSpace s with
  | [] => []
  | ch :: rest =>
    if ch = quote ∨ ch = apostrophe then rest.rdropWhile fun b => isspace b || b == ch
    else ch :: rest

theorem unquoteRest_of_head {s : List Byte}
    (h : ∀ b ∈ s.head?, isspace b = false ∧ b ≠ quote ∧ b ≠ apostrophe) : unquoteRest s = s := by
  cases s with
  | nil => rfl
  | cons b s =>
    obtain ⟨hspace, hquote, hapos⟩ := h b rfl
    simp [unquoteRest, skipSpace, hspace, hquote, hapos]

theorem paramNextString_skipSpace (s enddelim : List Byte) :
    paramNextString (skipSpace s) enddelim = paramNextString s enddelim := by
  simp only [paramNextString, skipSpace_skipSpace]

theorem joined_head? {β : Type} {enc : β → List Byte} {l : List β} (h : ∀ x ∈ l, enc x ≠ []) :
    (joined enc l).head? = l.head?.bind fun x => (enc x).head? := by
  cases l with
  | nil => rfl
  | cons a l =>
    obtain ⟨b, t, ht⟩ := List.exists_cons_of_ne_nil (h a List.mem_cons_self)
    rw [joined_cons, ht]
    simp [ht]

/-- A line starts as its first element does. -/
theorem unquoteRest_joined {β : Type} {enc : β → List Byte} {l : List β}
    (h : ∀ x ∈ l, ∃ b, (enc x).head? = some b ∧ isspace b = false ∧ b ≠ quote ∧ b ≠ apostrophe) :
    unquoteRest (joined enc l) = joined enc l := by
  have hne : ∀ x ∈ l, enc x ≠ [] := by
    intro x hx hnil
    obtain ⟨b, hb, -⟩ := h x hx
    rw [hnil] at hb
    cases hb
  refine unquoteRest_of_head fun b hb => ?_
  rw [joined_head? hne] at hb
  obtain ⟨x, hx, hxb⟩ := Option.bind_eq_some_iff.mp hb
  obtain ⟨c, hc, hword⟩ := h x (List.mem_of_mem_head? hx)
  obtain rfl : c = b := Option.some.inj (hc.symm.trans hxb)
  exact hword

end Rts2.Connection

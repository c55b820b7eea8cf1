import Rts2.Expression.Constants
import Rts2.Expression.Trees
import Rts2.Lib.Cut

/-! # How written parts are scanned

A device value or a constant goes to the next blank, whatever stands there. The index passes over one
character behind every token: behind an operator this may be the first one of a constant. -/
namespace Rts2.Rts2Expression
open Rts2.Lib
open Rts2.Lib.Strtod (isspace)

/-! ## Parts of an expression -/

/-- A device and one of its values. A name may hold every character but a blank; the first point is
behind the device. -/
structure DeviceValue where
  deviceName : List Char
  valueName : List Char
  letter : ∃ c w, deviceName = c :: w ∧ c.isAlpha = true
  noPoint : '.' ∉ deviceName
  device_chars : ∀ c ∈ deviceName, wordChar c = true
  value_chars : ∀ c ∈ valueName, wordChar c = true

def DeviceValue.text (v : DeviceValue) : List Char := v.deviceName ++ '.' :: v.valueName

/-- An operator that is written as a word, in small or capital letters. -/
def op_t.isWord : op_t → Bool
  | OR => true
  | AND => true
  | XOR => true
  | _ => false

def op_t.spelling : op_t → List Char
  | OR => ['o', 'r']
  | AND => ['a', 'n', 'd']
  | XOR => ['x', 'o', 'r']
  | EQU => ['=', '=']
  | LT => ['<']
  | LEQU => ['<', '=']
  | GT => ['>']
  | GEQU => ['>', '=']
  | NEQ => ['!', '=']

def op_t.Spelled (op : op_t) (sign : List Char) : Prop :=
  (if op.isWord then sign.map Char.toLower else sign) = op.spelling

/-! ## Characters -/

theorem wordChar_of_toNat {c : Char} (h : 33 ≤ c.toNat) : wordChar c = true := by
  have hblank : c ≠ ' ' := by
    rintro rfl
    exact absurd h (by decide)
  have hcontrol : ¬ (9 ≤ c.toNat ∧ c.toNat ≤ 13) := by omega
  unfold wordChar isspace
  rw [decide_eq_false hblank, ← Bool.decide_and, decide_eq_false hcontrol]
  rfl

theorem wordChar_of_isDigit {c : Char} (h : c.isDigit = true) : wordChar c = true := by
  have hc : 48 ≤ c.toNat := (Char.isDigit_iff_toNat.mp h).1
  exact wordChar_of_toNat (by omega)

theorem isAlpha_toNat {c : Char} (h : c.isAlpha = true) : 65 ≤ c.toNat := by
  rcases Bool.or_eq_true_iff.mp h with hup | hlow
  · exact UInt32.le_iff_toNat_le.mp (of_decide_eq_true hup).1
  · have h97 : 97 ≤ c.toNat := UInt32.le_iff_toNat_le.mp
      (of_decide_eq_true (Bool.and_eq_true_iff.mp hlow).1)
    omega

theorem wordChar_of_isAlpha {c : Char} (h : c.isAlpha = true) : wordChar c = true :=
  wordChar_of_toNat (Nat.le_trans (by decide) (isAlpha_toNat h))

theorem isDigit_not_isAlpha {c : Char} (h : c.isDigit = true) : c.isAlpha = false := by
  have hc : c.toNat ≤ 57 := (Char.isDigit_iff_toNat.mp h).2
  rw [← Bool.not_eq_true]
  intro halpha
  have hletter := isAlpha_toNat halpha
  omega

theorem isAlpha_of_toLower {c : Char} (h : c.toLower.isLower = true) : c.isAlpha = true := by
  apply Bool.or_eq_true_iff.mpr
  by_cases hup : c.isUpper = true
  · exact .inl hup
  · have hsame : c.toLower = c := dif_neg fun hbounds => hup (decide_eq_true hbounds)
    rw [hsame] at h
    exact .inr h

/-! ## Tokens -/

section
variable {w rest : List Char}

theorem token_word {c : Char} (hc : c.isAlpha = true) (hw : ∀ d ∈ c :: w, wordChar d = true)
    (hrest : ∀ d ∈ rest.head?, wordChar d = false) :
    token (c :: w ++ rest) = (.word (c :: w), rest) := by
  obtain ⟨htake, hdrop⟩ := cut hw hrest
  rw [List.cons_append] at htake hdrop ⊢
  rw [token, if_pos hc, htake, hdrop]

theorem token_number {c : Char} (hc : c.isDigit = true) (hw : ∀ d ∈ c :: w, wordChar d = true)
    (hrest : ∀ d ∈ rest.head?, wordChar d = false) :
    token (c :: w ++ rest) = (.number (c :: w), rest) := by
  obtain ⟨htake, hdrop⟩ := cut hw hrest
  rw [List.cons_append] at htake hdrop ⊢
  rw [token, if_neg (by simp [isDigit_not_isAlpha hc]), if_pos hc, htake, hdrop]

end

/-! ## Operators -/

section
variable {op : op_t} {sign : List Char}

theorem spelling_word (h : op.isWord = true) :
    op.spelling ≠ [] ∧ ∀ c ∈ op.spelling, c.isLower = true := by
  cases op <;> first | (cases h; done) | simp [op_t.spelling]

theorem keyword_spelling (h : op.isWord = true) (hsign : sign.map Char.toLower = op.spelling) :
    keyword sign = some op := by
  unfold keyword strcasecmp
  rw [hsign]
  cases op <;> first | rfl | cases h

theorem spelling_comparison (h : op.isWord = false) :
    comparison op.spelling = some op ∧ ∃ c w, op.spelling = c :: w ∧ c.isAlpha = false ∧
      c.isDigit = false ∧ (c = '=' ∨ c = '>' ∨ c = '<' ∨ c = '!') ∧ ∀ x ∈ w, x = '=' := by
  cases op <;> first | exact ⟨rfl, _, _, rfl, rfl, rfl, by decide, by simp⟩ | cases h

theorem spelled_word (h : op.isWord = true) (hsign : sign.map Char.toLower = op.spelling) :
    ∀ c ∈ sign, c.isAlpha = true := fun _ hc =>
  isAlpha_of_toLower ((spelling_word h).2 _ (hsign ▸ List.mem_map_of_mem hc))

/-- An operator begins with a character that is no part of a number. -/
theorem op_t.Spelled.head (h : op.Spelled sign) :
    ∃ c w, sign = c :: w ∧ wordChar c = true ∧ c ≠ '.' ∧ c.isDigit = false := by
  unfold op_t.Spelled at h
  cases hop : op.isWord with
  | true =>
    rw [hop, if_pos rfl] at h
    have hne : sign ≠ [] := by
      rintro rfl
      exact (spelling_word hop).1 h.symm
    obtain ⟨c, w, rfl⟩ := List.exists_cons_of_ne_nil hne
    have hc := spelled_word hop h c List.mem_cons_self
    refine ⟨c, w, rfl, wordChar_of_isAlpha hc, ?_, ?_⟩
    · rintro rfl
      cases hc
    · rw [← Bool.not_eq_true]
      intro hdigit
      rw [isDigit_not_isAlpha hdigit] at hc
      cases hc
  | false =>
    rw [hop, if_neg Bool.false_ne_true] at h
    subst h
    obtain ⟨-, c, w, hspelling, -, hdigit, hc, -⟩ := spelling_comparison hop
    refine ⟨c, w, hspelling, ?_, ?_, hdigit⟩
    · rcases hc with rfl | rfl | rfl | rfl <;> rfl
    · rcases hc with rfl | rfl | rfl | rfl <;> decide

/-- A word stands before a blank. -/
theorem token_word_operator (h : op.isWord = true) (hsign : sign.map Char.toLower = op.spelling)
    {d : Char} (hd : isspace d = true) (rest : List Char) :
    token (sign ++ d :: rest) = (.word sign, d :: rest) := by
  have halpha := spelled_word h hsign
  cases sign with
  | nil => exact absurd hsign.symm (spelling_word h).1
  | cons c w =>
    exact token_word (halpha c List.mem_cons_self)
      (fun x hx => wordChar_of_isAlpha (halpha x hx)) (by simp [wordChar, hd])

theorem token_comparison (h : op.isWord = false) {d : Char} (hd : d ≠ '=') (rest : List Char) :
    token (op.spelling ++ d :: rest) = (.operator op.spelling, d :: rest) := by
  obtain ⟨-, c, w, hspelling, halpha, hdigit, hc, hw⟩ := spelling_comparison h
  have hw' : ∀ x ∈ w, decide (x = '=') = true := fun x hx => decide_eq_true (hw x hx)
  have hd' : ∀ x ∈ (d :: rest).head?, decide (x = '=') = false := by simpa using hd
  obtain ⟨htake, hdrop⟩ := cut hw' hd'
  rw [hspelling, List.cons_append, token, if_neg (by simp [halpha]), if_neg (by simp [hdigit]),
    if_pos hc, htake, hdrop]

/-- An operator before a character that is not a part of it. -/
theorem op_t.Spelled.token (h : op.Spelled sign) {d : Char} (hd : d ≠ '=')
    (hword : op.isWord = true → isspace d = true) (rest : List Char) :
    ∃ tok, Rts2Expression.token (sign ++ d :: rest) = (tok, d :: rest) ∧
      ∀ s : Scan, s.take tok = .ok { s with op := some op } := by
  unfold op_t.Spelled at h
  cases hop : op.isWord with
  | true =>
    rw [hop, if_pos rfl] at h
    refine ⟨_, token_word_operator hop h (hword hop) rest, fun s => ?_⟩
    simp only [Scan.take, keyword_spelling hop h]
  | false =>
    rw [hop, if_neg Bool.false_ne_true] at h
    subst h
    refine ⟨_, token_comparison hop hd rest, fun s => ?_⟩
    simp only [Scan.take, (spelling_comparison hop).1]

end

/-! ## Parsing on -/

/-- The rest of a text, with a root that was read before. -/
def parseFrom (root : Ptr) (str : List Char) : Except Stop Expression :=
  Scan.loop (str.length + 1) ⟨str, .null, root, none⟩

theorem parseFrom_blank (root : Ptr) {c : Char} (hc : isspace c = true) (str : List Char) :
    parseFrom root (c :: str) = parseFrom root str := loop_blank _ rfl hc

theorem parseFrom_blanks (root : Ptr) {blanks : List Char} (h : ∀ c ∈ blanks, isspace c = true)
    (str : List Char) : parseFrom root (blanks ++ str) = parseFrom root str := by
  induction blanks with
  | nil => rfl
  | cons c blanks ih =>
    have hrest := ih fun d hd => h d (List.mem_cons_of_mem c hd)
    rw [← hrest]
    exact parseFrom_blank root (h c List.mem_cons_self) _

section
variable {b : Before} {root root' : Ptr} {c : Char} {str rest : List Char} {tok : Token}
  (hc : wordChar c = true) (htok : token (c :: str) = (tok, rest))
include hc htok

/-- The scan stops with a token. -/
theorem parseFrom_stop {stop : Stop}
    (h : ((Scan.take ⟨rest, .null, root, none⟩ tok).bind Scan.add).bind Scan.next = .error stop) :
    parseFrom root (c :: str) = .error stop := by
  have hblank : isspace c = false := by simpa [wordChar] using hc
  unfold parseFrom
  rw [loop_token _ rfl hblank, body_eq]
  dsimp only
  rw [htok]
  dsimp only
  rw [h]
  rfl

/-- The scan goes on behind a token. -/
theorem parseFrom_next {d : Char} (hrest : rest = d :: str') (hroot : b.Holds root')
    (h : (Scan.take ⟨rest, .null, root, none⟩ tok).bind Scan.add = .ok ⟨rest, .null, root', none⟩) :
    parseFrom root (c :: str) = parseFrom root' str' := by
  have hblank : isspace c = false := by simpa [wordChar] using hc
  have hlen := token_length_le (c :: str)
  rw [htok, hrest] at hlen
  unfold parseFrom
  rw [loop_token _ rfl hblank, body_eq]
  dsimp only
  rw [htok]
  dsimp only
  rw [h, hrest]
  exact Ready.loop_fuel (b := b) (s := ⟨str', .null, root', none⟩) ⟨rfl, rfl, hroot⟩ hlen
    (Nat.lt_succ_self _)

end

/-- A text that begins with a blank. -/
def Apart : List Char → Prop
  | [] => False
  | c :: _ => isspace c = true

/-- A text the scanner takes as a number. -/
structure IsNumber (str : List Char) (v : ℚ) : Prop where
  digit : ∃ c w, str = c :: w ∧ c.isDigit = true
  chars : ∀ c ∈ str, wordChar c = true
  loop : numberLoop str 0 0 = .val v

theorem Constant.text_isNumber (c : Constant) :
    IsNumber c.text (natFrom (natOf c.whole) (c.places.drop 63) : ℕ) := by
  obtain ⟨d, w, hw⟩ := List.exists_cons_of_ne_nil c.whole_ne
  refine ⟨⟨d, w ++ c.fraction.elim [] ('.' :: ·), ?_, c.whole_digits d (hw ▸ List.mem_cons_self)⟩, ?_,
    c.numberLoop_text⟩
  · unfold text
    rw [hw]
    rfl
  · intro x hx
    unfold text at hx
    rcases List.mem_append.mp hx with hx | hx
    · exact wordChar_of_isDigit (c.whole_digits x hx)
    · cases hf : c.fraction with
      | none =>
        rw [hf] at hx
        cases hx
      | some f =>
        rw [hf] at hx
        rcases List.mem_cons.mp hx with rfl | hx
        · rfl
        · exact wordChar_of_isDigit (c.fraction_digits f (Option.mem_def.mpr hf) x hx)

/-- A character that is no part of a number. -/
theorem numberLoop_other {str : List Char} {v v' : ℚ} {fraction : ℤ}
    (h : numberLoop str v fraction = .val v') {d : Char} (hpoint : d ≠ '.')
    (hdigit : d.isDigit = false) (rest : List Char) :
    numberLoop (str ++ d :: rest) v fraction = .otherChar := by
  induction str generalizing v fraction with
  | nil => rw [List.nil_append, numberLoop, if_neg hpoint, if_neg (by simp [hdigit])]
  | cons c str ih =>
    rw [List.cons_append]
    unfold numberLoop at h ⊢
    split at h
    · rename_i hc
      rw [if_pos hc]
      split at h
      · cases h
      · rename_i hzero
        rw [if_neg hzero]
        exact ih h
    · rename_i hc
      rw [if_neg hc]
      split at h
      · rename_i hc'
        rw [if_pos hc']
        split at h
        · rename_i hzero
          rw [if_pos hzero]
          exact ih h
        · rename_i hzero
          rw [if_neg hzero]
          exact ih h
      · cases h

theorem keyword_point {val : List Char} (h : '.' ∈ val) : keyword val = none := by
  have hlower : '.' ∈ val.map Char.toLower := List.mem_map_of_mem (f := Char.toLower) h
  unfold keyword strcasecmp
  generalize val.map Char.toLower = lower at hlower
  rw [if_neg, if_neg, if_neg]
  all_goals
    intro heq
    rw [of_decide_eq_true heq] at hlower
    revert hlower
    decide

section
variable {b : Before} {root root' : Ptr} {str rest : List Char} {v : ℚ}

/-- A number is read if a blank is behind it. -/
theorem parseFrom_number (hs : IsNumber str v) (hne : root ≠ .deleted) (hroot : b.Holds root')
    (hadd : ∀ text, Scan.add ⟨text, .live (.const v), root, none⟩ = .ok ⟨text, .null, root', none⟩)
    (hend : ∀ d ∈ rest.head?, d ≠ '.' ∧ d.isDigit = false) :
    Apart rest ∧ parseFrom root (str ++ rest) = parseFrom root' rest ∨
      ¬ Apart rest ∧ ∃ stop, parseFrom root (str ++ rest) = .error stop := by
  obtain ⟨c, s, rfl, hc⟩ := hs.digit
  obtain ⟨w, r, rfl, hw, hr⟩ := cut_exists wordChar rest
  have hword : ∀ d ∈ c :: (s ++ w), wordChar d = true := by
    intro d hd
    rcases List.mem_append.mp (List.cons_append ▸ hd) with hd | hd
    · exact hs.chars d hd
    · exact hw d hd
  have htok := token_number hc hword hr
  have hfirst := hs.chars c List.mem_cons_self
  cases w with
  | nil =>
    rw [List.append_nil, List.cons_append] at htok
    rw [List.nil_append, List.cons_append]
    have htake : ∀ text, (Scan.take ⟨text, .null, root, none⟩ (.number (c :: s))).bind Scan.add =
        .ok ⟨text, .null, root', none⟩ := by
      intro text
      simp only [Scan.take, hs.loop]
      exact hadd text
    cases r with
    | nil =>
      refine .inr ⟨fun h => h, .misuse .behindText, parseFrom_stop hfirst htok ?_⟩
      rw [htake]
      rfl
    | cons d r =>
      have hd : isspace d = true := by simpa [wordChar] using hr d rfl
      refine .inl ⟨hd, ?_⟩
      rw [parseFrom_next hfirst htok rfl hroot (htake _)]
      exact (parseFrom_blank root' hd r).symm
  | cons d w =>
    obtain ⟨hpoint, hdigit⟩ := hend d rfl
    have hd : isspace d = false := by simpa [wordChar] using hw d List.mem_cons_self
    rw [List.cons_append, List.append_assoc] at htok
    have hloop : numberLoop (c :: (s ++ d :: w)) 0 0 = .otherChar :=
      numberLoop_other hs.loop hpoint hdigit w
    refine .inr ⟨by simp [Apart, hd], .error "number contains unallowed characters",
      parseFrom_stop hfirst htok ?_⟩
    simp only [Scan.take, hloop]
    rw [error_eq Ptr.noConfusion hne]
    rfl

/-- A device value in front of all goes to the next blank. -/
theorem parseFrom_value (val : DeviceValue) {w : List Char} (hw : ∀ c ∈ w, wordChar c = true)
    (hrest : ∀ c ∈ rest.head?, wordChar c = false) :
    parseFrom .null (val.text ++ (w ++ rest)) = if rest = [] then .error (.misuse .behindText)
      else parseFrom (.live (.value val.deviceName (val.valueName ++ w))) rest := by
  obtain ⟨c, dev, hdev, hc⟩ := val.letter
  have hword : ∀ d ∈ val.text ++ w, wordChar d = true := by
    intro d hd
    rcases List.mem_append.mp hd with hd | hd
    · rcases List.mem_append.mp hd with hd | hd
      · exact val.device_chars d hd
      · rcases List.mem_cons.mp hd with rfl | hd
        · rfl
        · exact val.value_chars d hd
    · exact hw d hd
  have hsplit : val.text ++ w = val.deviceName ++ '.' :: (val.valueName ++ w) := by
    unfold DeviceValue.text
    rw [List.append_assoc, List.cons_append]
  have hcons : val.text ++ w = c :: (dev ++ '.' :: (val.valueName ++ w)) := by
    rw [hsplit, hdev, List.cons_append]
  have hpoint : '.' ∈ val.text ++ w := by
    rw [hsplit]
    exact List.mem_append_right _ List.mem_cons_self
  obtain ⟨htake, hdrop⟩ := cut_char '.' val.noPoint (val.valueName ++ w)
  rw [← hsplit] at htake hdrop
  have hadd : ∀ text, (Scan.take ⟨text, .null, .null, none⟩ (.word (val.text ++ w))).bind Scan.add =
      .ok ⟨text, .null, .live (.value val.deviceName (val.valueName ++ w)), none⟩ := by
    intro text
    simp only [Scan.take, keyword_point hpoint, if_pos hpoint, htake, hdrop]
    rfl
  have htok := token_word hc (hcons ▸ hword) hrest
  rw [← hcons] at htok
  rw [← List.append_assoc]
  have hfirst : wordChar c = true := wordChar_of_isAlpha hc
  rw [hcons, List.cons_append] at htok ⊢
  rw [← hcons] at htok
  cases rest with
  | nil =>
    rw [if_pos rfl]
    refine parseFrom_stop hfirst htok ?_
    rw [hadd]
    rfl
  | cons d rest =>
    have hd : isspace d = true := by simpa [wordChar] using hrest d rfl
    rw [if_neg (List.cons_ne_nil d rest),
      parseFrom_next (b := .operand) hfirst htok rfl ⟨_, .value _ _, rfl⟩ (hadd _)]
    exact (parseFrom_blank _ hd rest).symm

end

/-- An operator behind a tree; one character behind it is passed over. -/
theorem parseFrom_operator {op : op_t} {sign : List Char} (h : op.Spelled sign) {d : Char}
    (hd : d ≠ '=') (hword : op.isWord = true → isspace d = true) {e : Expression} (he : e.Boundary)
    (rest : List Char) :
    parseFrom (.live e) (sign ++ d :: rest) =
      (thrown (e.addOp op)).bind fun e => parseFrom (.live e) rest := by
  obtain ⟨c, w, hsign, hc, -, -⟩ := h.head
  obtain ⟨tok, htok, htake⟩ := h.token hd hword rest
  rw [hsign, List.cons_append] at htok ⊢
  cases hadd : e.addOp op with
  | error msg =>
    refine parseFrom_stop hc htok ?_
    rw [htake]
    show ((thrown (e.addOp op)).bind _).bind Scan.next = _
    rw [hadd]
    rfl
  | ok e' =>
    obtain ⟨exp1, rfl⟩ := he.addOp hadd
    refine parseFrom_next (b := .operator op) hc htok rfl ⟨exp1, rfl⟩ ?_
    rw [htake]
    show (thrown (e.addOp op)).bind _ = _
    rw [hadd]
    rfl

/-- A point is passed over behind an operator. -/
theorem parseFrom_point (exp1 : Expression) (op : op_t) (rest : List Char) :
    parseFrom (.live (.half exp1 op)) ('.' :: rest) = parseFrom (.live (.half exp1 op)) rest := by
  have htok : token ('.' :: rest) = (.other, '.' :: rest) := rfl
  exact parseFrom_next (b := .operator op) rfl htok rfl ⟨exp1, rfl⟩ rfl

end Rts2.Rts2Expression

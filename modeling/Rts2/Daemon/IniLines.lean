import Rts2.Daemon.IniParser
import Rts2.Lib.Cut

/-! # What the lines of a configuration file say

A line is written as a section, or as a name with a suffix, a value and a comment. The scanner is
compared with that. -/
namespace Rts2.Ini
open Rts2.Lib (cut cut_char cut_exists)
open Rts2.Lib.Strtod (isspace)

/-! ## Lines as they are written -/

def keyChar (c : Char) : Bool := c ≠ '=' && !isspace c

/-- `name.suffix`; a name alone has no dot. -/
inductive Key : List Char → List Char → List Char → Prop
  | name {n : List Char} : '.' ∉ n → Key n n []
  | suffix {n s : List Char} : '.' ∉ s → Key (n ++ '.' :: s) n s

/-- What follows a value, and the comment in it. -/
inductive Comment : List Char → List Char → Prop
  | none {text : List Char} : (∀ c ∈ text, c ≠ ';' ∧ c ≠ '#') → Comment text []
  | mark {before bs comment : List Char} {c : Char} : (∀ c ∈ before, c ≠ ';' ∧ c ≠ '#') →
      (c = ';' ∨ c = '#') → (∀ b ∈ bs, isspace b = true) →
      (∀ b ∈ comment.head?, isspace b = false) → Comment (before ++ c :: (bs ++ comment)) comment

/-- The text behind `=`, with the value and the comment: between quotes, up to the first blank,
or the full line without the blanks at its end. -/
inductive ValueText (parseFullLine : Bool) : List Char → List Char → List Char → Prop
  | quoted {v after comment : List Char} : '"' ∉ v → Comment after comment →
      ValueText parseFullLine ('"' :: (v ++ '"' :: after)) v comment
  | word {v after comment : List Char} : parseFullLine = false → v.head? ≠ some '"' →
      (∀ c ∈ v, isspace c = false) → (∀ c ∈ after.head?, isspace c = true) →
      Comment after comment → ValueText parseFullLine (v ++ after) v comment
  | fullLine {v bs : List Char} : parseFullLine = true → v.head? ≠ some '"' →
      (∀ c ∈ v.getLast?, isspace c = false) → (∀ c ∈ bs, isspace c = true) →
      ValueText parseFullLine (v ++ bs) v []

/-- A line and what it says. -/
inductive Written (parseFullLine : Bool) : List Char → Line → Prop
  | blank {bs : List Char} : (∀ c ∈ bs, isspace c = true) → Written parseFullLine bs .ignored
  | comment {bs text : List Char} {c : Char} : (∀ c ∈ bs, isspace c = true) →
      (c = ';' ∨ c = '#') → Written parseFullLine (bs ++ c :: text) .ignored
  | sect {bs name after : List Char} : (∀ c ∈ bs, isspace c = true) → ']' ∉ name →
      Written parseFullLine (bs ++ '[' :: (name ++ ']' :: after)) (.sect name)
  | value {bs key bs' bs'' text name suffix value comment : List Char} :
      (∀ c ∈ bs, isspace c = true) → (∀ c ∈ key, keyChar c = true) →
      (∀ c ∈ key.head?, c ≠ ';' ∧ c ≠ '#' ∧ c ≠ '[') → Key key name suffix →
      (∀ c ∈ bs', isspace c = true) → (∀ c ∈ bs'', isspace c = true) →
      (∀ c ∈ text.head?, isspace c = false) → ValueText parseFullLine text value comment →
      Written parseFullLine (bs ++ (key ++ (bs' ++ '=' :: (bs'' ++ text))))
        (.value ⟨name, suffix, value, comment⟩)

/-- The iterator stays in the line, and an error is reported or the parts are those written; a
value that was read is read again from what is printed of it. -/
def Exact (parseFullLine : Bool) (line : List Char) : Prop :=
  ∃ r, parseLine parseFullLine line = some r ∧ ∀ l, r = .ok l → Written parseFullLine line l ∧
    ∀ v, l = .value v →
      parseLine parseFullLine (printed v) = some (.ok (.value { v with comment := [] }))

/-! ## The lines that the scanner is right about -/

/-- The text behind the first `=`. -/
def valueText (rest : List Char) : List Char :=
  ((rest.dropWhile (· ≠ '=')).drop 1).dropWhile isspace

/-- A value between quotes without the second one. -/
def Unclosed (text : List Char) : Prop := text.head? = some '"' ∧ '"' ∉ text.tail

/-- What is printed of a name and a suffix is read as these: no dot at the end behind others. -/
def PlainKey (key : List Char) : Prop := key.getLast? = some '.' → '.' ∉ key.dropLast

/-- A value between quotes, or one without quotes and, as a full line, without blanks at the
end. -/
def PlainText (parseFullLine : Bool) (text : List Char) : Prop :=
  text.head? = some '"' ∨
    ((parseFullLine = true → ∀ c ∈ text.getLast?, isspace c = false) ∧
      '"' ∉ if parseFullLine then text else text.takeWhile (!isspace ·))

/-- The text of a line from its first character on that is no blank, a line for a value. -/
def FineValue (parseFullLine : Bool) (text : List Char) : Prop :=
  let key := text.takeWhile keyChar
  let rest := text.dropWhile keyChar
  rest = [] ∨ ('=' ∈ rest ∧ (Unclosed (valueText rest) ∨
    ((∀ c ∈ rest.takeWhile (· ≠ '='), isspace c = true) ∧
      PlainText parseFullLine (valueText rest) ∧ PlainKey key)))

def Fine (parseFullLine : Bool) (line : List Char) : Prop :=
  match line.dropWhile isspace with
  | [] => True
  | c :: es =>
    if c = ';' ∨ c = '#' then True
    else if c = '[' then
      ']' ∈ es → line = c :: es ∧ '\x00' ∉ es.takeWhile (· ≠ ']')
    else FineValue parseFullLine (c :: es)

/-! ## Names -/

theorem keyChar_false {c : Char} (h : keyChar c = false) : c = '=' ∨ isspace c = true := by
  unfold keyChar at h
  by_cases hc : c = '='
  · exact .inl hc
  · exact .inr (by simpa [hc] using h)

theorem isspace_of_keyChar {c : Char} (h : keyChar c = true) : isspace c = false := by
  rw [keyChar, Bool.and_eq_true] at h
  simpa using h.2

theorem nameState_stop (suff : Bool) (valName seg es : List Char) {c : Char}
    (hc : keyChar c = false) : nameState suff valName seg (c :: es) =
      some (if suff then valName else seg, if suff then seg else [], c :: es) := by
  have hdot : c ≠ '.' := by
    rintro rfl
    exact absurd hc (by decide)
  rw [nameState, if_neg hdot, if_pos (keyChar_false hc)]

theorem nameState_char (suff : Bool) (valName seg es : List Char) {c : Char}
    (hc : keyChar c = true) (hdot : c ≠ '.') :
    nameState suff valName seg (c :: es) = nameState suff valName (seg ++ [c]) es := by
  have hstop : ¬ (c = '=' ∨ isspace c = true) := by
    rintro (rfl | hspace)
    · exact absurd hc (by decide)
    · simp [keyChar, hspace] at hc
  rw [nameState, if_neg hdot, if_neg hstop]

theorem nameState_word (suff : Bool) (valName seg es : List Char) {w : List Char}
    (hw : ∀ c ∈ w, keyChar c = true) (hdot : '.' ∉ w) :
    nameState suff valName seg (w ++ es) = nameState suff valName (seg ++ w) es := by
  induction w generalizing seg with
  | nil => simp
  | cons c w ih =>
    rw [List.mem_cons, not_or] at hdot
    rw [List.cons_append, nameState_char _ _ _ _ (hw c List.mem_cons_self) (Ne.symm hdot.1),
      ih _ (fun x hx => hw x (List.mem_cons_of_mem _ hx)) hdot.2]
    simp

/-- The name goes up to the last dot. -/
theorem nameState_dots (valName seg es : List Char) {u s : List Char} {d : Char}
    (hu : ∀ c ∈ u, keyChar c = true) (hs : ∀ c ∈ s, keyChar c = true) (hdot : '.' ∉ s)
    (hd : keyChar d = false) : nameState true valName seg (u ++ '.' :: (s ++ d :: es)) =
      some (valName ++ '.' :: (seg ++ u), s, d :: es) := by
  induction u generalizing valName seg with
  | nil =>
    rw [List.nil_append, nameState, if_pos rfl, nameState_word _ _ _ _ hs hdot,
      nameState_stop _ _ _ _ hd]
    simp
  | cons c u ih =>
    have hu' : ∀ c ∈ u, keyChar c = true := fun x hx => hu x (List.mem_cons_of_mem _ hx)
    by_cases hc : c = '.'
    · subst hc
      rw [List.cons_append, nameState, if_pos rfl, ih _ _ hu']
      simp
    · rw [List.cons_append, nameState_char _ _ _ _ (hu c List.mem_cons_self) hc, ih _ _ hu']
      simp

theorem nameState_firstDot (seg es : List Char) {u s : List Char} {d : Char}
    (hu : ∀ c ∈ u, keyChar c = true) (hs : ∀ c ∈ s, keyChar c = true) (hdot : '.' ∉ s)
    (hd : keyChar d = false) : nameState false [] seg (u ++ '.' :: (s ++ d :: es)) =
      some (seg ++ u, s, d :: es) := by
  induction u generalizing seg with
  | nil =>
    rw [List.nil_append, nameState, if_pos rfl, nameState_word _ _ _ _ hs hdot,
      nameState_stop _ _ _ _ hd]
    simp
  | cons c u ih =>
    have hu' : ∀ c ∈ u, keyChar c = true := fun x hx => hu x (List.mem_cons_of_mem _ hx)
    by_cases hc : c = '.'
    · subst hc
      rw [List.cons_append, nameState, if_pos rfl, nameState_dots _ _ _ hu' hs hdot hd]
      simp
    · rw [List.cons_append, nameState_char _ _ _ _ (hu c List.mem_cons_self) hc, ih _ hu']
      simp

theorem nameState_key {key n s : List Char} (es : List Char) {d : Char} (hkey : Key key n s)
    (hall : ∀ c ∈ key, keyChar c = true) (hd : keyChar d = false) :
    nameState false [] [] (key ++ d :: es) = some (n, s, d :: es) := by
  cases hkey with
  | name hdot =>
    rw [nameState_word _ _ _ _ hall hdot, nameState_stop _ _ _ _ hd]
    rfl
  | suffix hdot =>
    have hn : ∀ c ∈ n, keyChar c = true := fun c hc => hall c (by simp [hc])
    have hs : ∀ c ∈ s, keyChar c = true := fun c hc => hall c (by simp [hc])
    rw [List.append_assoc, List.cons_append, nameState_firstDot _ _ hn hs hdot hd,
      List.nil_append]

theorem nameState_none (suff : Bool) (valName seg : List Char) {key : List Char}
    (hall : ∀ c ∈ key, keyChar c = true) : nameState suff valName seg key = none := by
  induction key generalizing suff valName seg with
  | nil => rfl
  | cons c key ih =>
    have hall' : ∀ c ∈ key, keyChar c = true := fun x hx => hall x (List.mem_cons_of_mem _ hx)
    by_cases hc : c = '.'
    · rw [nameState, if_pos hc, ih _ _ _ hall']
    · rw [nameState_char _ _ _ _ (hall c List.mem_cons_self) hc, ih _ _ _ hall']

theorem key_exists (key : List Char) : ∃ n s, Key key n s := by
  by_cases hdot : '.' ∈ key
  · obtain ⟨s, n, hkey, hs⟩ := List.eq_append_cons_of_mem (List.mem_reverse.mpr hdot)
    have hrev : key = n.reverse ++ '.' :: s.reverse := by
      rw [← List.reverse_reverse key, hkey]
      simp
    exact ⟨n.reverse, s.reverse, hrev ▸ .suffix (by simpa using hs)⟩
  · exact ⟨key, [], .name hdot⟩

/-! ## Values -/

theorem endState_blank {text : List Char} (h : ∀ c ∈ text.head?, isspace c = true) :
    endState text = endState (text.drop 1) := by
  cases text with
  | nil => rfl
  | cons b text =>
    have hmark : b ≠ ';' ∧ b ≠ '#' := by
      have hspace := h b rfl
      constructor
      · rintro rfl
        exact absurd hspace (by decide)
      · rintro rfl
        exact absurd hspace (by decide)
    rw [endState, List.dropWhile_cons, if_pos (by simp [hmark])]
    rfl

theorem endState_comment (text : List Char) : Comment text (endState text) := by
  obtain ⟨before, rest, rfl, hbefore, hrest⟩ :=
    cut_exists (fun c => decide (c ≠ ';') && decide (c ≠ '#')) text
  have hbefore' : ∀ c ∈ before, c ≠ ';' ∧ c ≠ '#' := fun c hc => by simpa using hbefore c hc
  rw [endState, (cut hbefore hrest).2]
  cases rest with
  | nil => exact .none (by simpa using hbefore')
  | cons c es =>
    have hc : c = ';' ∨ c = '#' := by
      have hmark := hrest c rfl
      by_contra hnot
      simp [not_or.mp hnot] at hmark
    obtain ⟨bs, comment, rfl, hbs, hcomment⟩ := cut_exists isspace es
    show Comment _ ((bs ++ comment).dropWhile isspace)
    rw [(cut hbs hcomment).2]
    exact .mark hbefore' hc hbs hcomment

/-- What becomes of the text of a value: it lacks a quote, or it is between quotes, the full line
or a word. -/
theorem valState_cases (parseFullLine : Bool) {text : List Char}
    (hhead : ∀ c ∈ text.head?, isspace c = false) :
    (Unclosed text ∧ valState parseFullLine text = .error .missingQuote) ∨
    (∃ v after, text = '"' :: (v ++ '"' :: after) ∧ '"' ∉ v ∧
      valState parseFullLine text = .ok (v, endState after)) ∨
    (text.head? ≠ some '"' ∧ parseFullLine = true ∧
      valState parseFullLine text = .ok (text, [])) ∨
    (text.head? ≠ some '"' ∧ parseFullLine = false ∧ ∃ v after, text = v ++ after ∧
      (∀ c ∈ v, isspace c = false) ∧ (∀ c ∈ after.head?, isspace c = true) ∧
      valState parseFullLine text = .ok (v, endState after)) := by
  cases text with
  | nil =>
    right; right
    cases parseFullLine with
    | true => exact .inl ⟨by simp, rfl, rfl⟩
    | false => exact .inr ⟨by simp, rfl, [], [], rfl, by simp, by simp, rfl⟩
  | cons c es =>
    by_cases hc : c = '"'
    · subst hc
      by_cases hclose : '"' ∈ es
      · obtain ⟨v, after, rfl, hv⟩ := List.eq_append_cons_of_mem hclose
        have hcut := cut_char '"' hv after
        refine .inr (.inl ⟨v, after, rfl, hv, ?_⟩)
        rw [valState, if_pos rfl, if_pos hclose, hcut.1, hcut.2]
        rfl
      · exact .inl ⟨⟨rfl, hclose⟩, by rw [valState, if_pos rfl, if_neg hclose]⟩
    · have hquote : (c :: es).head? ≠ some '"' := fun h => hc (Option.some.inj h)
      have hcspace : isspace c = false := hhead c rfl
      obtain ⟨w, after, rfl, hw, hafter⟩ := cut_exists (fun c => !isspace c) es
      have hw' : ∀ b ∈ c :: w, isspace b = false := by
        intro b hb
        rcases List.mem_cons.mp hb with rfl | hb
        · exact hcspace
        · simpa using hw b hb
      have hafter' : ∀ b ∈ after.head?, isspace b = true := fun b hb => by simpa using hafter b hb
      have hcut := cut hw hafter
      right; right
      cases parseFullLine with
      | true =>
        refine .inl ⟨hquote, rfl, ?_⟩
        rw [valState, if_neg hc, hcut.2]
        cases after <;> rfl
      | false =>
        refine .inr ⟨hquote, rfl, c :: w, after, rfl, hw', hafter', ?_⟩
        rw [valState, if_neg hc, hcut.2, hcut.1, endState_blank hafter']
        cases after with
        | nil =>
          rw [List.append_nil]
          rfl
        | cons b rest => rfl

/-! ## Lines -/

/-- A line for a value, up to the value. -/
theorem parseLine_value (parseFullLine : Bool) {bs key n s es : List Char} {d : Char}
    (hbs : ∀ c ∈ bs, isspace c = true) (hall : ∀ c ∈ key, keyChar c = true)
    (hhead : ∀ c ∈ (key ++ d :: es).head?, isspace c = false ∧ c ≠ ';' ∧ c ≠ '#' ∧ c ≠ '[')
    (hkey : Key key n s) (hd : keyChar d = false) :
    ('=' ∉ d :: es → parseLine parseFullLine (bs ++ (key ++ d :: es)) = none) ∧
    ('=' ∈ d :: es → parseLine parseFullLine (bs ++ (key ++ d :: es)) =
      some ((valState parseFullLine (valueText (d :: es))).map fun r =>
        .value ⟨n, s, r.1, r.2⟩)) := by
  have htop : (bs ++ (key ++ d :: es)).dropWhile isspace = key ++ d :: es :=
    (cut hbs fun c hc => (hhead c hc).1).2
  obtain ⟨c, t, htext⟩ : ∃ c t, key ++ d :: es = c :: t := by
    cases key with
    | nil => exact ⟨d, es, rfl⟩
    | cons c key => exact ⟨c, key ++ d :: es, rfl⟩
  have hc := hhead c (by rw [htext]; rfl)
  have hmark : ¬ (c = ';' ∨ c = '#') := not_or.mpr ⟨hc.2.1, hc.2.2.1⟩
  have hname := nameState_key es hkey hall hd
  rw [htext] at hname
  have hparse : parseLine parseFullLine (bs ++ (key ++ d :: es)) =
      parseValue parseFullLine (c :: t) := by
    unfold parseLine
    rw [htop, htext]
    simp only [if_neg hmark, if_neg hc.2.2.2]
  constructor
  · intro hno
    have hdrop : (d :: es).dropWhile (· ≠ '=') = [] :=
      List.dropWhile_eq_nil_iff.mpr fun x hx => decide_eq_true fun h : x = '=' => hno (h ▸ hx)
    rw [hparse, parseValue, hname]
    simp only [hdrop]
  · intro hyes
    obtain ⟨w, r, hsplit, hw⟩ := List.eq_append_cons_of_mem hyes
    have hdrop : (d :: es).dropWhile (· ≠ '=') = '=' :: r := by
      rw [hsplit]
      exact (cut_char '=' hw r).2
    rw [hparse, parseValue, hname]
    simp only [valueText, hdrop, List.drop_succ_cons, List.drop_zero]

theorem Key.unique {key n s n' s' : List Char} (h : Key key n s) (h' : Key key n' s')
    (hall : ∀ c ∈ key, keyChar c = true) : n = n' ∧ s = s' := by
  have hread := nameState_key [] (d := '=') h hall rfl
  rw [nameState_key [] h' hall rfl] at hread
  simp only [Option.some.injEq, Prod.mk.injEq] at hread
  exact ⟨hread.1.symm, hread.2.1.symm⟩

/-- `operator <<` of a name and a suffix. -/
def printedKey (n s : List Char) : List Char := n ++ if s = [] then [] else '.' :: s

/-- A name that was printed is read again unless it has a dot and no suffix. -/
theorem printedKey_iff {key n s n' s' : List Char} (hkey : Key key n s)
    (hall : ∀ c ∈ key, keyChar c = true) (h : Key (printedKey n s) n' s') :
    (n' = n ∧ s' = s) ↔ PlainKey key := by
  by_cases hs : s = []
  · subst hs
    have hplain : PlainKey key ↔ '.' ∉ n := by
      cases hkey with
      | name hdot => exact ⟨fun _ => hdot, fun _ hlast => absurd (List.mem_of_getLast? hlast) hdot⟩
      | suffix => simp [PlainKey]
    rw [hplain]
    simp only [printedKey, if_pos, List.append_nil] at h
    cases h with
    | name hdot => exact ⟨fun _ => hdot, fun _ => ⟨rfl, rfl⟩⟩
    | suffix =>
      constructor
      · rintro ⟨h, -⟩
        have := congrArg List.length h
        rw [List.length_append, List.length_cons] at this
        omega
      · intro h
        simp at h
  · have hsame : printedKey n s = key := by
      cases hkey with
      | name => exact absurd rfl hs
      | suffix => rw [printedKey, if_neg hs]
    rw [hsame] at h
    refine ⟨fun _ hlast => ?_, fun _ => h.unique hkey hall⟩
    cases hkey with
    | name => exact absurd rfl hs
    | suffix hdot =>
      obtain ⟨c, s, rfl⟩ := List.exists_cons_of_ne_nil hs
      have hs' : (c :: s).getLast? = some '.' := by
        simpa [List.getLast?_append, List.getLast?_cons_cons] using hlast
      exact absurd (List.mem_of_getLast? hs') hdot

theorem mem_of_mem_printedKey {key n s : List Char} {c : Char} (hkey : Key key n s)
    (hc : c ∈ printedKey n s) : c ∈ key := by
  cases hkey with
  | name => simpa [printedKey] using hc
  | suffix =>
    by_cases hs : s = []
    · subst hs
      have hn : c ∈ n := by simpa [printedKey] using hc
      simp [hn]
    · rwa [printedKey, if_neg hs] at hc

theorem head?_printedKey {key n s : List Char} {c : Char} (hkey : Key key n s)
    (hc : c ∈ (printedKey n s).head?) : c ∈ key.head? := by
  cases hkey with
  | name => simpa [printedKey] using hc
  | suffix =>
    by_cases hs : s = []
    · subst hs
      have hn : c ∈ n.head? := by simpa [printedKey] using hc
      cases n with
      | nil => simp at hn
      | cons a n => exact hn
    · rwa [printedKey, if_neg hs] at hc

theorem valState_printed (parseFullLine : Bool) (value : List Char) :
    ∃ r, valState parseFullLine ('"' :: (value ++ ['"'])) = .ok r ∧
      (r = (value, []) ↔ '"' ∉ value) := by
  by_cases hquote : '"' ∈ value
  · obtain ⟨v, after, hv, hmem⟩ := List.eq_append_cons_of_mem hquote
    refine ⟨(v, endState (after ++ ['"'])), ?_, ?_⟩
    · rw [hv, List.append_assoc, List.cons_append, valState, if_pos rfl, if_pos (by simp),
        (cut_char '"' hmem _).1, (cut_char '"' hmem _).2]
      rfl
    · refine ⟨fun h => ?_, fun h => absurd hquote h⟩
      rwa [(Prod.mk.inj h).1] at hmem
  · refine ⟨(value, []), ?_, by simp [hquote]⟩
    rw [valState, if_pos rfl, if_pos (by simp), (cut_char '"' hquote _).1,
      (cut_char '"' hquote _).2]
    rfl

/-- What is printed of a value is read as that value. -/
theorem parseLine_printed_iff (parseFullLine : Bool) (value comment : List Char)
    {key n s : List Char}
    (hkey : Key key n s) (hall : ∀ c ∈ key, keyChar c = true)
    (hhead : ∀ c ∈ key.head?, c ≠ ';' ∧ c ≠ '#' ∧ c ≠ '[') :
    parseLine parseFullLine (printed ⟨n, s, value, comment⟩) =
        some (.ok (.value ⟨n, s, value, []⟩)) ↔ '"' ∉ value ∧ PlainKey key := by
  obtain ⟨r, hr, hvalue⟩ := valState_printed parseFullLine value
  obtain ⟨n', s', hkey'⟩ := key_exists (printedKey n s)
  have hname := printedKey_iff hkey hall hkey'
  have hparse : parseLine parseFullLine (printed ⟨n, s, value, comment⟩) =
      some (.ok (.value ⟨n', s', r.1, r.2⟩)) := by
    have hsplit : printed ⟨n, s, value, comment⟩ =
        printedKey n s ++ ' ' :: '=' :: ' ' :: '"' :: (value ++ ['"']) := by
      simp [printed, printedKey]
    have htext : valueText (' ' :: '=' :: ' ' :: '"' :: (value ++ ['"'])) =
        '"' :: (value ++ ['"']) := rfl
    have hprinted : ∀ c ∈ printedKey n s, keyChar c = true := fun c hc =>
      hall c (mem_of_mem_printedKey hkey hc)
    have hfirst : ∀ c ∈ (printedKey n s).head?, c ≠ ';' ∧ c ≠ '#' ∧ c ≠ '[' :=
      fun c hc => hhead c (head?_printedKey hkey hc)
    rw [hsplit]
    generalize printedKey n s = w at hkey' hprinted hfirst ⊢
    cases w with
    | nil =>
      have hblank : ∀ c ∈ [' '], isspace c = true := List.forall_mem_singleton.mpr rfl
      have hnone : ∀ c ∈ ([] : List Char), keyChar c = true := by simp
      have hstart : ∀ c ∈ ([] ++ '=' :: ' ' :: '"' :: (value ++ ['"'])).head?,
          isspace c = false ∧ c ≠ ';' ∧ c ≠ '#' ∧ c ≠ '[' := by
        rintro c ⟨⟩
        decide
      have hline := (parseLine_value parseFullLine hblank hnone hstart hkey' rfl).2
        List.mem_cons_self
      have htext' : valueText ('=' :: ' ' :: '"' :: (value ++ ['"'])) = '"' :: (value ++ ['"']) := rfl
      rw [htext', hr] at hline
      exact hline
    | cons c w =>
      have hc : isspace c = false := isspace_of_keyChar (hprinted c List.mem_cons_self)
      have hnone : ∀ b ∈ ([] : List Char), isspace b = true := by simp
      have hstart : ∀ b ∈ ((c :: w) ++ ' ' :: '=' :: ' ' :: '"' :: (value ++ ['"'])).head?,
          isspace b = false ∧ b ≠ ';' ∧ b ≠ '#' ∧ b ≠ '[' := by
        rintro b ⟨⟩
        exact ⟨hc, hfirst c rfl⟩
      have hline := (parseLine_value parseFullLine hnone hprinted hstart hkey' rfl).2 (by simp)
      rw [htext, hr] at hline
      exact hline
  rw [hparse, ← hname, ← hvalue]
  constructor
  · intro h
    injection h with h
    injection h with h
    injection h with h
    injection h with hn hs hval hcomment
    exact ⟨Prod.ext hval hcomment, hn, hs⟩
  · rintro ⟨rfl, rfl, rfl⟩
    rfl

/-- The parts of a line for a value are those of its first `=`. -/
theorem written_value {parseFullLine : Bool} {bs key rest : List Char} {v : IniValue}
    (hbs : ∀ c ∈ bs, isspace c = true) (hall : ∀ c ∈ key, keyChar c = true)
    (hhead : ∀ c ∈ (key ++ rest).head?, isspace c = false)
    (hrest : ∀ c ∈ rest.head?, keyChar c = false)
    (h : Written parseFullLine (bs ++ (key ++ rest)) (.value v)) :
    (∀ c ∈ rest.takeWhile (· ≠ '='), isspace c = true) ∧
      ValueText parseFullLine (valueText rest) v.value v.comment := by
  generalize hline : bs ++ (key ++ rest) = line at h
  cases h with
  | @value bs₁ key₁ bs' bs'' text n s value comment hbs₁ hall₁ _ _ hbs' hbs'' htext hval =>
    have hsame : key ++ rest = (key₁ ++ (bs' ++ '=' :: (bs'' ++ text))).dropWhile isspace := by
      have hdrop := congrArg (List.dropWhile isspace) hline
      rwa [(cut hbs hhead).2, List.dropWhile_append_of_pos hbs₁] at hdrop
    obtain ⟨b, hb, hrest'⟩ : ∃ b, (∀ c ∈ b, isspace c = true) ∧
        rest = b ++ '=' :: (bs'' ++ text) := by
      cases key₁ with
      | nil =>
        have hstop : ∀ c ∈ ('=' :: (bs'' ++ text)).head?, isspace c = false := by
          rintro c ⟨⟩
          rfl
        rw [List.nil_append, (cut hbs' hstop).2] at hsame
        cases key with
        | nil => exact ⟨[], by simp, hsame⟩
        | cons c key =>
          obtain ⟨rfl, -⟩ := List.cons.inj hsame
          exact absurd (hall '=' List.mem_cons_self) (by decide)
      | cons c key₁ =>
        have hc : isspace c = false := isspace_of_keyChar (hall₁ c List.mem_cons_self)
        have hstop : ∀ c ∈ (bs' ++ '=' :: (bs'' ++ text)).head?, keyChar c = false := by
          cases bs' with
          | nil =>
            rintro c ⟨⟩
            rfl
          | cons b bs' =>
            rintro c ⟨⟩
            simp [keyChar, hbs' b List.mem_cons_self]
        rw [List.cons_append, List.dropWhile_cons_of_neg (by simp [hc]), ← List.cons_append] at hsame
        have hdrop := congrArg (List.dropWhile keyChar) hsame
        rw [(cut hall hrest).2, (cut hall₁ hstop).2] at hdrop
        exact ⟨bs', hbs', hdrop⟩
    have hno : '=' ∉ b := fun h => absurd (hb '=' h) (by decide)
    rw [hrest', valueText, (cut_char '=' hno _).1, (cut_char '=' hno _).2]
    refine ⟨hb, ?_⟩
    rw [List.drop_succ_cons, List.drop_zero, (cut hbs'' htext).2]
    exact hval

/-! ## Sections -/

theorem written_sect {parseFullLine : Bool} {bs es name : List Char}
    (hbs : ∀ c ∈ bs, isspace c = true)
    (h : Written parseFullLine (bs ++ '[' :: es) (.sect name)) : es.takeWhile (· ≠ ']') = name := by
  generalize hline : bs ++ '[' :: es = line at h
  cases h with
  | @sect bs₁ _ after hbs₁ hname =>
    have hstop : ∀ t : List Char, ∀ c ∈ ('[' :: t).head?, isspace c = false := by
      rintro t c ⟨⟩
      rfl
    have hdrop := congrArg (List.dropWhile isspace) hline
    rw [(cut hbs (hstop es)).2, (cut hbs₁ (hstop _)).2] at hdrop
    rw [(List.cons.inj hdrop).2]
    exact (cut_char ']' hname after).1

theorem cstr_eq_iff (name rest : List Char) :
    cstr (name ++ rest) = name ↔ '\x00' ∉ name ∧ ∀ c ∈ rest.head?, c = '\x00' := by
  constructor
  · intro h
    have hno : '\x00' ∉ name := by
      intro hmem
      rw [← h] at hmem
      have hchar := List.mem_takeWhile_imp hmem
      exact absurd hchar (by decide)
    refine ⟨hno, ?_⟩
    rintro c hc
    obtain ⟨r, rfl⟩ : ∃ r, rest = c :: r := by
      cases rest with
      | nil => cases hc
      | cons a r => exact ⟨r, by rw [Option.some.inj hc]⟩
    by_contra hne
    have hall : ∀ b ∈ name, decide (b ≠ '\x00') = true := fun b hb =>
      decide_eq_true fun hb0 : b = '\x00' => hno (hb0 ▸ hb)
    rw [cstr, List.takeWhile_append_of_pos hall, List.takeWhile_cons_of_pos (by simpa using hne)] at h
    have hlen := congrArg List.length h
    rw [List.length_append, List.length_cons] at hlen
    omega
  · rintro ⟨hno, hrest⟩
    have hall : ∀ b ∈ name, decide (b ≠ '\x00') = true := fun b hb =>
      decide_eq_true fun hb0 : b = '\x00' => hno (hb0 ▸ hb)
    exact (cut hall fun c hc => by simp [hrest c hc]).1

/-- The name is taken with a length that counts from the start of the line. -/
theorem parseLine_sect (parseFullLine : Bool) {bs name : List Char} (after : List Char)
    (hbs : ∀ c ∈ bs, isspace c = true) (hname : ']' ∉ name) :
    parseLine parseFullLine (bs ++ '[' :: (name ++ ']' :: after)) =
      some (.ok (.sect (cstr (name ++ (']' :: after).take bs.length)))) := by
  have hstop : ∀ c ∈ ('[' :: (name ++ ']' :: after)).head?, isspace c = false := by
    rintro c ⟨⟩
    rfl
  have hbracket : ']' ∉ bs := fun h => absurd (hbs ']' h) (by decide)
  have hel : (bs ++ '[' :: (name ++ ']' :: after)).idxOf ']' = bs.length + (1 + name.length) := by
    rw [List.idxOf_append, if_neg hbracket, List.idxOf_cons, List.idxOf_append, if_neg hname,
      List.idxOf_cons_self]
    simp only [show ('[' == ']') = false from rfl, Nat.add_comm, cond_false]
  have htop : (bs ++ '[' :: (name ++ ']' :: after)).length -
      ('[' :: (name ++ ']' :: after)).length + 1 = bs.length + 1 := by
    rw [List.length_append]
    omega
  have hdrop : (bs ++ '[' :: (name ++ ']' :: after)).drop (bs.length + 1) =
      name ++ ']' :: after := by
    rw [List.drop_append]
    simp
  unfold parseLine
  rw [(cut hbs hstop).2]
  simp only [if_pos (show ']' ∈ bs ++ '[' :: (name ++ ']' :: after) by simp)]
  rw [if_neg (by decide), if_pos trivial, hel, htop, hdrop]
  have hlen : bs.length + (1 + name.length) - 1 = name.length + bs.length := by omega
  rw [hlen, List.take_append, List.take_of_length_le (by omega), Nat.add_sub_cancel_left]

theorem exact_sect_iff (parseFullLine : Bool) {bs es : List Char}
    (hbs : ∀ c ∈ bs, isspace c = true) : Exact parseFullLine (bs ++ '[' :: es) ↔
      (']' ∈ es → bs = [] ∧ '\x00' ∉ es.takeWhile (· ≠ ']')) := by
  by_cases hclose : ']' ∈ es
  · obtain ⟨name, after, rfl, hname⟩ := List.eq_append_cons_of_mem hclose
    have hparse := parseLine_sect parseFullLine after hbs hname
    have htake := (cut_char ']' hname after).1
    have hhead : (∀ c ∈ ((']' :: after).take bs.length).head?, c = '\x00') ↔ bs = [] := by
      cases bs with
      | nil => simp
      | cons b bs => simp
    rw [htake, ← hhead, and_comm, ← cstr_eq_iff]
    constructor
    · rintro ⟨r, hr, hok⟩ -
      rw [hparse] at hr
      injection hr with hr
      subst hr
      have hwritten := written_sect hbs (hok _ rfl).1
      rw [htake] at hwritten
      exact hwritten.symm
    · intro h
      have hname' := h hclose
      refine ⟨_, hparse, ?_⟩
      rintro l ⟨⟩
      rw [hname']
      exact ⟨.sect hbs hname, by rintro v ⟨⟩⟩
  · have hno : ']' ∉ bs ++ '[' :: es := by
      simp only [List.mem_append, List.mem_cons, not_or]
      exact ⟨fun h => absurd (hbs ']' h) (by decide), by decide, hclose⟩
    have hstop : ∀ c ∈ ('[' :: es).head?, isspace c = false := by
      rintro c ⟨⟩
      rfl
    refine ⟨fun _ h => absurd h hclose, fun _ => ⟨.error .sectionDelimiter, ?_, by rintro l ⟨⟩⟩⟩
    unfold parseLine
    rw [(cut hbs hstop).2]
    simp only [if_neg hno]
    rw [if_neg (by decide), if_pos trivial]

/-! ## Values with their names -/

theorem ValueText.last {text v comment : List Char} (h : ValueText true text v comment)
    (hquote : text.head? ≠ some '"') : ∀ c ∈ v.getLast?, isspace c = false := by
  cases h with
  | quoted => exact absurd rfl hquote
  | word hfull => cases hfull
  | fullLine _ _ hlast => exact hlast

/-- The value that is read is the written one and has no quote. -/
theorem valueText_plain_iff {parseFullLine : Bool} {text : List Char}
    {r : List Char × List Char} (hhead : ∀ c ∈ text.head?, isspace c = false)
    (h : valState parseFullLine text = .ok r) :
    (ValueText parseFullLine text r.1 r.2 ∧ '"' ∉ r.1) ↔ PlainText parseFullLine text := by
  rcases valState_cases parseFullLine hhead with
    ⟨-, herr⟩ | ⟨v, after, rfl, hv, hok⟩ | ⟨hquote, rfl, hok⟩ |
      ⟨hquote, rfl, v, after, rfl, hv, hafter, hok⟩
  · rw [h] at herr
    cases herr
  · rw [h] at hok
    cases hok
    exact ⟨fun _ => .inl rfl, fun _ => ⟨.quoted hv (endState_comment after), hv⟩⟩
  · rw [h] at hok
    cases hok
    rw [PlainText, or_iff_right hquote, if_pos rfl]
    refine and_congr_left' ⟨fun hval => fun _ => ?_, fun hlast => ?_⟩
    · exact hval.last hquote
    · have hnone : ∀ c ∈ ([] : List Char), isspace c = true := by simp
      have hwritten := ValueText.fullLine rfl hquote (hlast rfl) hnone
      rwa [List.append_nil] at hwritten
  · rw [h] at hok
    cases hok
    have hword : ∀ c ∈ v, (!isspace c) = true := fun c hc => by rw [hv c hc]; rfl
    have hstop : ∀ c ∈ after.head?, (!isspace c) = false := fun c hc => by rw [hafter c hc]; rfl
    have hhead' : v.head? ≠ some '"' := by
      intro hmem
      apply hquote
      cases v with
      | nil => cases hmem
      | cons a v => exact hmem
    rw [PlainText, or_iff_right hquote, (cut hword hstop).1]
    exact ⟨fun hplain => ⟨fun h => absurd h Bool.false_ne_true, hplain.2⟩,
      fun hplain => ⟨.word rfl hhead' hv hafter (endState_comment after), hplain.2⟩⟩

theorem unclosed_of_error {parseFullLine : Bool} {text : List Char} {e : ParseError}
    (hhead : ∀ c ∈ text.head?, isspace c = false)
    (h : valState parseFullLine text = .error e) : Unclosed text := by
  rcases valState_cases parseFullLine hhead with
    ⟨hunclosed, -⟩ | ⟨v, after, -, -, hok⟩ | ⟨-, -, hok⟩ | ⟨-, -, v, after, -, -, -, hok⟩
  · exact hunclosed
  all_goals
    rw [h] at hok
    cases hok

theorem not_unclosed_of_ok {parseFullLine : Bool} {text : List Char} {r : List Char × List Char}
    (h : valState parseFullLine text = .ok r) : ¬ Unclosed text := by
  rintro ⟨hquote, hmem⟩
  obtain ⟨es, rfl⟩ : ∃ es, text = '"' :: es := by
    cases text with
    | nil => cases hquote
    | cons c es => exact ⟨es, by rw [Option.some.inj hquote]⟩
  have hno : '"' ∉ es := hmem
  rw [valState, if_pos rfl, if_neg hno] at h
  cases h

theorem written_of_value {parseFullLine : Bool} {bs key rest n s value comment : List Char}
    (hbs : ∀ c ∈ bs, isspace c = true) (hall : ∀ c ∈ key, keyChar c = true)
    (hhead : ∀ c ∈ key.head?, c ≠ ';' ∧ c ≠ '#' ∧ c ≠ '[') (hkey : Key key n s)
    (heq : '=' ∈ rest) (hgap : ∀ c ∈ rest.takeWhile (· ≠ '='), isspace c = true)
    (htext : ∀ c ∈ (valueText rest).head?, isspace c = false)
    (hvalue : ValueText parseFullLine (valueText rest) value comment) :
    Written parseFullLine (bs ++ (key ++ rest)) (.value ⟨n, s, value, comment⟩) := by
  obtain ⟨gap, behind, rfl, hno⟩ := List.eq_append_cons_of_mem heq
  rw [(cut_char '=' hno behind).1] at hgap
  have hdrop : valueText (gap ++ '=' :: behind) = behind.dropWhile isspace := by
    rw [valueText, (cut_char '=' hno behind).2]
    rfl
  obtain ⟨bs'', text, rfl, hbs'', hstop⟩ := cut_exists isspace behind
  rw [hdrop, (cut hbs'' hstop).2] at htext hvalue
  exact .value hbs hall hhead hkey hgap hbs'' htext hvalue

theorem exact_value_iff (parseFullLine : Bool) {bs key rest : List Char}
    (hbs : ∀ c ∈ bs, isspace c = true) (hall : ∀ c ∈ key, keyChar c = true)
    (hhead : ∀ c ∈ (key ++ rest).head?, isspace c = false ∧ c ≠ ';' ∧ c ≠ '#' ∧ c ≠ '[')
    (hrest : ∀ c ∈ rest.head?, keyChar c = false) (hne : rest ≠ []) :
    Exact parseFullLine (bs ++ (key ++ rest)) ↔ '=' ∈ rest ∧ (Unclosed (valueText rest) ∨
      ((∀ c ∈ rest.takeWhile (· ≠ '='), isspace c = true) ∧
        PlainText parseFullLine (valueText rest) ∧ PlainKey key)) := by
  obtain ⟨d, es, rfl⟩ := List.exists_cons_of_ne_nil hne
  have hd := hrest d rfl
  obtain ⟨n, s, hkey⟩ := key_exists key
  obtain ⟨hnone, hsome⟩ := parseLine_value parseFullLine hbs hall hhead hkey hd
  by_cases heq : '=' ∈ d :: es
  · rw [and_iff_right heq]
    have hparse := hsome heq
    have htext : ∀ c ∈ (valueText (d :: es)).head?, isspace c = false := by
      obtain ⟨w, t, hsplit, hw, ht⟩ :=
        cut_exists isspace (((d :: es).dropWhile (· ≠ '=')).drop 1)
      rw [valueText, hsplit, (cut hw ht).2]
      exact ht
    cases hval : valState parseFullLine (valueText (d :: es)) with
    | error e =>
      rw [hval] at hparse
      have hunclosed := unclosed_of_error htext hval
      exact ⟨fun _ => .inl hunclosed, fun _ => ⟨_, hparse, by rintro l ⟨⟩⟩⟩
    | ok r =>
      rw [hval] at hparse
      have hclosed := not_unclosed_of_ok hval
      have hkeyHead : ∀ c ∈ key.head?, c ≠ ';' ∧ c ≠ '#' ∧ c ≠ '[' := by
        intro c hc
        have hmem : c ∈ (key ++ d :: es).head? := by
          cases key with
          | nil => cases hc
          | cons a key => exact hc
        exact (hhead c hmem).2
      have hprinted := parseLine_printed_iff parseFullLine r.1 r.2 hkey hall hkeyHead
      rw [or_iff_right hclosed, ← valueText_plain_iff htext hval, and_assoc, ← hprinted]
      constructor
      · rintro ⟨r', hr', hok⟩
        rw [hparse] at hr'
        injection hr' with hr'
        subst hr'
        obtain ⟨hwritten, hagain⟩ := hok _ rfl
        obtain ⟨hgap, hvalue⟩ := written_value hbs hall (fun c hc => (hhead c hc).1) hrest hwritten
        exact ⟨hgap, hvalue, hagain _ rfl⟩
      · rintro ⟨hgap, hvalue, hagain⟩
        refine ⟨_, hparse, ?_⟩
        rintro l ⟨⟩
        refine ⟨?_, ?_⟩
        · exact written_of_value hbs hall hkeyHead hkey heq hgap htext hvalue
        · rintro v ⟨⟩
          exact hagain
  · refine ⟨?_, fun h => absurd h.1 heq⟩
    rintro ⟨r, hr, -⟩
    rw [hnone heq] at hr
    cases hr

/-! ## All lines -/

/-- A line is read exactly if it is fine: a section starts the line and has no NUL in its name; a
line with a name has `=`, behind blanks only, and the value has no quote in it and, as a full line,
no blanks at its end. -/
theorem parseLine_exact_iff (parseFullLine : Bool) (line : List Char) :
    Exact parseFullLine line ↔ Fine parseFullLine line := by
  obtain ⟨bs, top, rfl, hbs, htop⟩ := cut_exists isspace line
  have hdrop := (cut hbs htop).2
  cases top with
  | nil =>
    rw [List.append_nil] at hdrop ⊢
    refine ⟨fun _ => ?_, fun _ => ⟨.ok .ignored, ?_, ?_⟩⟩
    · rw [Fine, hdrop]
      trivial
    · rw [parseLine, hdrop]
    · rintro l ⟨⟩
      exact ⟨.blank hbs, by rintro v ⟨⟩⟩
  | cons c es =>
    have hfine : Fine parseFullLine (bs ++ c :: es) ↔ if c = ';' ∨ c = '#' then True
        else if c = '[' then ']' ∈ es → bs ++ c :: es = c :: es ∧ '\x00' ∉ es.takeWhile (· ≠ ']')
        else FineValue parseFullLine (c :: es) := by
      rw [Fine, hdrop]
    rw [hfine]
    by_cases hmark : c = ';' ∨ c = '#'
    · rw [if_pos hmark, iff_true]
      refine ⟨.ok .ignored, ?_, ?_⟩
      · rw [parseLine, hdrop]
        simp only [if_pos hmark]
      · rintro l ⟨⟩
        exact ⟨.comment hbs hmark, by rintro v ⟨⟩⟩
    rw [if_neg hmark]
    by_cases hsect : c = '['
    · subst hsect
      have hstart : bs ++ '[' :: es = '[' :: es ↔ bs = [] := by simp
      rw [if_pos rfl, exact_sect_iff parseFullLine hbs, hstart]
    rw [if_neg hsect]
    obtain ⟨key, rest, hsplit, hall, hrest⟩ := cut_exists keyChar (c :: es)
    have hcut := cut hall hrest
    rw [FineValue, hsplit, hcut.1, hcut.2]
    by_cases hne : rest = []
    · refine ⟨fun _ => .inl hne, fun _ => ⟨.error .invalidLine, ?_, by rintro l ⟨⟩⟩⟩
      rw [hne, List.append_nil] at hsplit ⊢
      rw [hsplit] at hdrop
      rw [← hsplit] at hall hdrop ⊢
      unfold parseLine
      rw [hdrop]
      simp only [if_neg hmark, if_neg hsect]
      rw [parseValue, nameState_none false [] [] hall]
    · have hhead : ∀ b ∈ (key ++ rest).head?,
          isspace b = false ∧ b ≠ ';' ∧ b ≠ '#' ∧ b ≠ '[' := by
        rw [← hsplit]
        rintro b ⟨⟩
        exact ⟨htop c rfl, not_or.mp hmark |>.1, not_or.mp hmark |>.2, hsect⟩
      rw [or_iff_right hne]
      exact exact_value_iff parseFullLine hbs hall hhead hrest hne

/-- A blank before a section moves the end of its name over the bracket. -/
theorem not_exact_blank_sect :
    parseLine false [' ', '[', 'a', ']'] = some (.ok (.sect ['a', ']'])) ∧
      ¬ Exact false [' ', '[', 'a', ']'] := by
  refine ⟨by decide, fun h => ?_⟩
  have hblank : ∀ c ∈ [' '], isspace c = true := List.forall_mem_singleton.mpr rfl
  have hexact : Exact false ([' '] ++ '[' :: ['a', ']']) := h
  have hstart := ((exact_sect_iff false hblank).mp hexact (by decide)).1
  exact absurd hstart (by decide)

/-! ## A file -/

/-- The sections of the lines, the first of them begun already. -/
def sections : Option IniSection → List Line → List IniSection
  | sect, [] => sect.toList
  | sect, .ignored :: ls => sections sect ls
  | sect, .sect name :: ls => sect.toList ++ sections (some ⟨name, []⟩) ls
  | sect, .value v :: ls =>
    let s := sect.getD ⟨[], []⟩
    sections (some { s with values := s.values ++ [v] }) ls

theorem parseLines_written {addDefaultSection parseFullLine : Bool} {lines : List (List Char)}
    (sect : Option IniSection) (h : ∀ line ∈ lines, Exact parseFullLine line) :
    ∃ r, parseLines addDefaultSection parseFullLine sect lines = some r ∧ ∀ sects, r = .ok sects →
      ∃ ls, List.Forall₂ (Written parseFullLine) lines ls ∧ sects = sections sect ls := by
  induction lines generalizing sect with
  | nil =>
    refine ⟨_, rfl, ?_⟩
    rintro _ ⟨⟩
    exact ⟨[], .nil, rfl⟩
  | cons line lines ih =>
    have ih' := fun sect => ih sect fun l hl => h l (List.mem_cons_of_mem _ hl)
    obtain ⟨r, hr, hok⟩ := h line List.mem_cons_self
    rw [parseLines]
    by_cases hwithout : isValueLine line ∧ sect = none ∧ addDefaultSection = false
    · rw [if_pos hwithout]
      exact ⟨_, rfl, by rintro _ ⟨⟩⟩
    rw [if_neg hwithout, hr]
    cases r with
    | error e => exact ⟨_, rfl, by rintro _ ⟨⟩⟩
    | ok l =>
      have hwritten := (hok l rfl).1
      cases l with
      | ignored =>
        obtain ⟨r, hr, hsects⟩ := ih' sect
        refine ⟨r, hr, fun sects hr => ?_⟩
        obtain ⟨ls, hls, rfl⟩ := hsects sects hr
        exact ⟨.ignored :: ls, .cons hwritten hls, rfl⟩
      | sect name =>
        obtain ⟨r, hr, hsects⟩ := ih' (some ⟨name, []⟩)
        simp only [hr, Option.map_some]
        refine ⟨_, rfl, fun sects hr => ?_⟩
        cases r with
        | error e => cases hr
        | ok sects' =>
          obtain ⟨ls, hls, rfl⟩ := hsects sects' rfl
          cases hr
          exact ⟨.sect name :: ls, .cons hwritten hls, rfl⟩
      | value v =>
        obtain ⟨r, hr, hsects⟩ :=
          ih' (some { sect.getD ⟨[], []⟩ with values := (sect.getD ⟨[], []⟩).values ++ [v] })
        refine ⟨r, hr, fun sects hr => ?_⟩
        obtain ⟨ls, hls, rfl⟩ := hsects sects hr
        exact ⟨.value v :: ls, .cons hwritten hls, rfl⟩

end Rts2.Ini

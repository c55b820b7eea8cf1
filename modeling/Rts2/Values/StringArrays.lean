import Rts2.Daemon.SetValue
import Rts2.Values.StringValues

/-! # Copies of string arrays

`StringArray::setFromValue` prints the other array and splits the text. `SplitStr` takes what is
between quotes of either kind, and words. -/
namespace Rts2.Values
open Rts2.Connection Rts2.Daemon

/-! ## SplitStr -/

/-- A character of a token: between quotes any but the quote, otherwise any but a blank. -/
def inToken : Option Byte → Byte → Bool
  | some q, b => b ≠ q
  | none, b => !isspace b

/-- The quote that a token begins with, and what follows it. -/
def opening : List Byte → Option Byte × List Byte
  | b :: rest => if b = quote ∨ b = apostrophe then (some b, rest) else (none, b :: rest)
  | [] => (none, [])

/-- A round of the loop of `SplitStr`: the token, and what follows it. -/
def nextToken (text : List Byte) : List Byte × List Byte :=
  let (q, body) := opening (skipSpace text)
  let rest := body.dropWhile (inToken q)
  -- the finishing quote
  (body.takeWhile (inToken q), if q.isSome then rest.drop 1 else rest)

/-- The loop of `SplitStr`, of at most so many rounds. -/
def splitFrom : Nat → List Byte → List (List Byte)
  | 0, _ => []
  | fuel + 1, text =>
    if text = [] then []
    else
      let (token, rest) := nextToken text
      if token = [] then splitFrom fuel rest else token :: splitFrom fuel rest

/-- `SplitStr` at blanks. -/
def splitStr (text : List Byte) : List (List Byte) := splitFrom text.length text

/-! ## The loop ends -/

theorem opening_cases (s : List Byte) :
    (∃ q rest, s = q :: rest ∧ (q = quote ∨ q = apostrophe) ∧ opening s = (some q, rest)) ∨
      ((∀ b ∈ s.head?, b ≠ quote ∧ b ≠ apostrophe) ∧ opening s = (none, s)) := by
  cases s with
  | nil => exact .inr ⟨by simp, rfl⟩
  | cons b rest =>
    by_cases hb : b = quote ∨ b = apostrophe
    · exact .inl ⟨b, rest, rfl, hb, by rw [opening, if_pos hb]⟩
    · refine .inr ⟨?_, by rw [opening, if_neg hb]⟩
      rintro c ⟨⟩
      exact not_or.mp hb

theorem nextToken_suffix (text : List Byte) : (nextToken text).2 <:+ text := by
  have hskip : skipSpace text <:+ text := List.dropWhile_suffix _
  rcases opening_cases (skipSpace text) with ⟨q, rest, hs, -, ho⟩ | ⟨-, ho⟩
  · simp only [nextToken, ho, Option.isSome_some, if_true]
    rw [hs] at hskip
    exact (List.drop_suffix _ _).trans ((List.dropWhile_suffix _).trans
      ((List.suffix_cons q rest).trans hskip))
  · simp only [nextToken, ho, Option.isSome_none, Bool.false_eq_true, if_false]
    exact (List.dropWhile_suffix _).trans hskip

/-- A round takes something away. -/
theorem nextToken_length {text : List Byte} (hne : text ≠ []) :
    (nextToken text).2.length < text.length := by
  have hskip := skipSpace_length_le text
  rcases opening_cases (skipSpace text) with ⟨q, rest, hs, -, ho⟩ | ⟨-, ho⟩
  · simp only [nextToken, ho, Option.isSome_some, if_true]
    rw [hs, List.length_cons] at hskip
    have hdrop := (List.dropWhile_sublist (inToken (some q)) (l := rest)).length_le
    rw [List.length_drop]
    omega
  · simp only [nextToken, ho, Option.isSome_none, Bool.false_eq_true, if_false]
    cases hs : skipSpace text with
    | nil => exact List.length_pos_of_ne_nil hne
    | cons b rest =>
      have hb : inToken none b = true := by
        have hhead := List.head?_dropWhile_not isspace text
        rw [show text.dropWhile isspace = b :: rest from hs] at hhead
        simpa [inToken] using hhead
      rw [hs, List.length_cons] at hskip
      rw [List.dropWhile_cons_of_pos hb]
      have hdrop := (List.dropWhile_sublist (inToken none) (l := rest)).length_le
      omega

theorem splitFrom_fuel {n m : Nat} {text : List Byte} (hn : text.length ≤ n)
    (hm : text.length ≤ m) : splitFrom n text = splitFrom m text := by
  induction n generalizing text m with
  | zero =>
    obtain rfl := List.eq_nil_of_length_eq_zero (Nat.le_zero.mp hn)
    cases m <;> rfl
  | succ n ih =>
    by_cases hne : text = []
    · subst hne
      cases m <;> rfl
    · have hlen := nextToken_length hne
      obtain ⟨m, rfl⟩ : ∃ k, m = k + 1 :=
        ⟨m - 1, by have := List.length_pos_of_ne_nil hne; omega⟩
      simp only [splitFrom, if_neg hne]
      rw [ih (by omega) (m := m) (by omega)]

theorem splitStr_nil : splitStr [] = [] := rfl

theorem splitStr_eq {text : List Byte} (hne : text ≠ []) :
    splitStr text = if (nextToken text).1 = [] then splitStr (nextToken text).2
      else (nextToken text).1 :: splitStr (nextToken text).2 := by
  have hlen := nextToken_length hne
  obtain ⟨n, hn⟩ : ∃ n, text.length = n + 1 :=
    ⟨text.length - 1, by have := List.length_pos_of_ne_nil hne; omega⟩
  have hfuel : splitFrom n (nextToken text).2 = splitStr (nextToken text).2 :=
    splitFrom_fuel (by omega) le_rfl
  rw [splitStr, hn, splitFrom, if_neg hne]
  simp only [hfuel]

theorem splitStr_ne_nil {text : List Byte} : ∀ e ∈ splitStr text, e ≠ [] := by
  generalize hn : text.length = n
  induction n using Nat.strong_induction_on generalizing text with
  | _ n ih =>
    by_cases hne : text = []
    · subst hne
      simp [splitStr_nil]
    · have hrest := ih _ (hn ▸ nextToken_length hne) rfl
      rw [splitStr_eq hne]
      split
      next => exact hrest
      next htoken =>
        intro e he
        rcases List.mem_cons.mp he with rfl | he
        · exact htoken
        · exact hrest e he

/-- Blanks before a token are no part of it. -/
theorem splitStr_space {u : List Byte} (hu : skipSpace u = []) (text : List Byte) :
    splitStr (u ++ text) = splitStr text := by
  have hskip : skipSpace (u ++ text) = skipSpace text := by rw [skipSpace_append, if_pos hu]
  by_cases hall : u ++ text = []
  · rw [(List.append_eq_nil_iff.mp hall).2, (List.append_eq_nil_iff.mp hall).1]
    rfl
  · have hnext : nextToken (u ++ text) = nextToken text := by rw [nextToken, nextToken, hskip]
    rw [splitStr_eq hall, hnext]
    by_cases hne : text = []
    · subst hne
      rfl
    · rw [splitStr_eq hne]

/-! ## Printed elements -/

/-- What `SplitStr` makes of the printed elements of an array. -/
structure KeptToken (e : List Byte) : Prop where
  ne_nil : e ≠ []
  spaced : space ∈ e → quote ∉ e
  word : space ∉ e → (∀ b ∈ e, isspace b = false) ∧
    ∀ b ∈ e.head?, b ≠ quote ∧ b ≠ apostrophe

/-- What follows an element. -/
def afterElement : List (List Byte) → List Byte
  | [] => []
  | l => space :: joined elementText l

theorem joined_cons (e : List Byte) (l : List (List Byte)) :
    joined elementText (e :: l) = elementText e ++ afterElement l := by
  cases l with
  | nil => simp [joined, afterElement]
  | cons => rfl

theorem splitStr_after (l : List (List Byte)) :
    splitStr (afterElement l) = splitStr (joined elementText l) := by
  cases l with
  | nil => rfl
  | cons e l => exact splitStr_space (u := [space]) rfl _

theorem afterElement_head (l : List (List Byte)) :
    ∀ b ∈ (afterElement l).head?, isspace b = true := by
  cases l with
  | nil => simp [afterElement]
  | cons => simp [afterElement, space, isspace]

/-- A word up to a blank. -/
theorem nextToken_word {w tail : List Byte} (hne : w ≠ [])
    (hhead : ∀ b ∈ w.head?, b ≠ quote ∧ b ≠ apostrophe) (hspace : ∀ b ∈ w, isspace b = false)
    (htail : ∀ b ∈ tail.head?, isspace b = true) : nextToken (w ++ tail) = (w, tail) := by
  obtain ⟨b, w, rfl⟩ := List.exists_cons_of_ne_nil hne
  have hskip : skipSpace (b :: w ++ tail) = b :: w ++ tail :=
    List.dropWhile_cons_of_neg (by simp [hspace b List.mem_cons_self])
  have hopen : opening (b :: w ++ tail) = (none, b :: w ++ tail) :=
    if_neg (not_or.mpr (hhead b rfl))
  have hin : ∀ c ∈ b :: w, inToken none c = true := fun c hc => by simp [inToken, hspace c hc]
  have hout : tail.takeWhile (inToken none) = [] ∧ tail.dropWhile (inToken none) = tail := by
    cases tail with
    | nil => exact ⟨rfl, rfl⟩
    | cons c tail => simp [inToken, htail c rfl]
  simp only [nextToken, hskip, hopen, Option.isSome_none, Bool.false_eq_true, if_false]
  rw [List.takeWhile_append_of_pos hin, List.dropWhile_append_of_pos hin, hout.1, hout.2,
    List.append_nil]

/-- What is between quotes. -/
theorem nextToken_quoted {q : Byte} (hq : q = quote ∨ q = apostrophe) (s : List Byte) :
    nextToken (q :: s) = (s.takeWhile (· ≠ q), (s.dropWhile (· ≠ q)).drop 1) := by
  have hskip : skipSpace (q :: s) = q :: s := by
    rcases hq with rfl | rfl <;> rfl
  simp only [nextToken, hskip, opening, if_pos hq, Option.isSome_some, if_true]
  rfl

theorem nextToken_element {e : List Byte} (he : KeptToken e) {tail : List Byte}
    (htail : ∀ b ∈ tail.head?, isspace b = true) :
    nextToken (elementText e ++ tail) = (e, tail) := by
  unfold elementText
  split
  next hspace =>
    have hquote := he.spaced hspace
    have hpos : ∀ b ∈ e, (decide (b ≠ quote)) = true := fun b hb =>
      decide_eq_true fun hb' => hquote (hb' ▸ hb)
    rw [List.cons_append, nextToken_quoted (.inl rfl), List.append_assoc,
      List.takeWhile_append_of_pos hpos, List.dropWhile_append_of_pos hpos]
    simp
  next hspace =>
    obtain ⟨hword, hhead⟩ := he.word hspace
    exact nextToken_word he.ne_nil hhead hword htail

theorem elementText_ne_nil {e : List Byte} (he : KeptToken e) : elementText e ≠ [] := by
  unfold elementText
  split
  · exact List.cons_ne_nil _ _
  · exact he.ne_nil

/-- Elements of this kind come back. -/
theorem splitStr_joined {l : List (List Byte)} (hl : ∀ e ∈ l, KeptToken e) :
    splitStr (joined elementText l) = l := by
  induction l with
  | nil => rfl
  | cons e l ih =>
    have he := hl e List.mem_cons_self
    have hne : joined elementText (e :: l) ≠ [] := by
      rw [joined_cons]
      exact List.append_ne_nil_of_left_ne_nil (elementText_ne_nil he) _
    rw [splitStr_eq hne, joined_cons, nextToken_element he (afterElement_head l),
      if_neg he.ne_nil, splitStr_after, ih fun x hx => hl x (List.mem_cons_of_mem _ hx)]

/-! ## No other array comes back -/

theorem skipSpace_suffix (s : List Byte) : skipSpace s <:+ s := List.dropWhile_suffix _

/-- A token without blanks ends before what follows the element. -/
theorem token_length_le {u tail : List Byte} (hhead : ∀ b ∈ tail.head?, isspace b = true) :
    ((u ++ tail).takeWhile (inToken none)).length ≤ u.length := by
  induction u with
  | nil =>
    cases tail with
    | nil => exact Nat.le_refl _
    | cons c tail => simp [inToken, hhead c rfl]
  | cons b u ih =>
    rw [List.cons_append, List.takeWhile_cons]
    split
    · exact Nat.succ_le_succ ih
    · exact Nat.zero_le _

theorem nextToken_head {b : Byte} (hb : isspace b = false) (s : List Byte) :
    ((b = quote ∨ b = apostrophe) ∧
        nextToken (b :: s) = (s.takeWhile (· ≠ b), (s.dropWhile (· ≠ b)).drop 1)) ∨
      ((b ≠ quote ∧ b ≠ apostrophe) ∧ nextToken (b :: s) =
        ((b :: s).takeWhile (inToken none), (b :: s).dropWhile (inToken none))) := by
  by_cases hq : b = quote ∨ b = apostrophe
  · exact .inl ⟨hq, nextToken_quoted hq s⟩
  · have hskip : skipSpace (b :: s) = b :: s := List.dropWhile_cons_of_neg (by simp [hb])
    have hopen : opening (b :: s) = (none, b :: s) := if_neg hq
    refine .inr ⟨not_or.mp hq, ?_⟩
    simp only [nextToken, hskip, hopen, Option.isSome_none, Bool.false_eq_true, if_false]

/-- An element that was printed is read as a token from its own beginning, or from the quote
behind it. -/
theorem token_element {e u tail : List Byte} (hsuffix : u <:+ elementText e) (hne : e ≠ [])
    (hhead : ∀ b ∈ tail.head?, isspace b = true) (htoken : (nextToken (u ++ tail)).1 = e) :
    skipSpace u = [] ∨ (u = elementText e ∧ KeptToken e) ∨
      (tail.takeWhile (· ≠ quote) = e ∧
        (nextToken (u ++ tail)).2 = (tail.dropWhile (· ≠ quote)).drop 1) := by
  cases hv : skipSpace u with
  | nil => exact .inl rfl
  | cons b v =>
    refine .inr ?_
    have hb : isspace b = false := by
      have hfirst : ∀ c ∈ (skipSpace u).head?, isspace c = false := skipSpace_head
      rw [hv] at hfirst
      exact hfirst b rfl
    have hvu : b :: v <:+ u := hv ▸ skipSpace_suffix u
    have hnext : nextToken (u ++ tail) = nextToken (b :: (v ++ tail)) := by
      have hskip : skipSpace (b :: (v ++ tail)) = b :: (v ++ tail) :=
        List.dropWhile_cons_of_neg (by simp [hb])
      rw [nextToken, nextToken, hskip, skipSpace_append, hv]
      rfl
    rw [hnext] at htoken ⊢
    rcases nextToken_head hb (v ++ tail) with ⟨hq, hread⟩ | ⟨hq, hread⟩
    · rw [hread] at htoken ⊢
      have hbe : b ∉ e := by
        intro hmem
        rw [← htoken] at hmem
        simpa using List.mem_takeWhile_imp hmem
      by_cases hspace : space ∈ e
      · rw [elementText, if_pos hspace, List.suffix_cons_iff] at hsuffix
        rcases hsuffix with rfl | hsuffix
        · have hskip : skipSpace (quote :: (e ++ [quote])) = quote :: (e ++ [quote]) := rfl
          obtain ⟨rfl, -⟩ := List.cons.inj (hskip.symm.trans hv)
          refine .inl ⟨by rw [elementText, if_pos hspace], hne, fun _ => hbe, fun h => ?_⟩
          exact absurd hspace h
        · rcases List.suffix_concat_iff.mp (hvu.trans hsuffix) with h | ⟨t, ht, hte⟩
          · cases h
          · cases t with
            | nil =>
              obtain ⟨rfl, rfl⟩ := List.cons.inj ht
              exact .inr ⟨htoken, rfl⟩
            | cons c t =>
              obtain ⟨rfl, -⟩ := List.cons.inj ht
              exact absurd (hte.subset List.mem_cons_self) hbe
      · rw [elementText, if_neg hspace] at hsuffix
        exact absurd ((hvu.trans hsuffix).subset List.mem_cons_self) hbe
    · rw [hread] at htoken
      have hword : ∀ c ∈ e, isspace c = false := by
        intro c hc
        rw [← htoken] at hc
        simpa [inToken] using List.mem_takeWhile_imp hc
      have hspace : space ∉ e := fun h => absurd (hword space h) (by decide)
      have hlen : e.length ≤ (b :: v).length := by
        rw [← htoken]
        exact token_length_le (u := b :: v) hhead
      rw [elementText, if_neg hspace] at hsuffix ⊢
      have hall : b :: v = e :=
        (hvu.trans hsuffix).eq_of_length (Nat.le_antisymm (hvu.trans hsuffix).length_le hlen)
      have hu : u = e := hsuffix.eq_of_length
        (Nat.le_antisymm hsuffix.length_le (hall ▸ hvu.length_le))
      refine .inl ⟨hu, hne, fun h => absurd h hspace, fun _ => ⟨hword, ?_⟩⟩
      rw [← hall]
      rintro c ⟨⟩
      exact hq

/-- The elements are read from no end of their text but all of it, and nothing comes before them. -/
def ReadWhole (l : List (List Byte)) : Prop :=
  ∀ ⦃t before⦄, t <:+ joined elementText l → splitStr t = before ++ l →
    l = [] ∨ (t = joined elementText l ∧ before = [] ∧ ∀ e ∈ l, KeptToken e)

/-- The elements after one alone do not give it. -/
theorem ReadWhole.later {l : List (List Byte)} (h : ReadWhole l) {s : List Byte}
    (hs : s <:+ afterElement l) (before : List (List Byte)) (e : List Byte) :
    splitStr s ≠ before ++ e :: l := by
  intro hsplit
  have hmore : before ++ e :: l = (before ++ [e]) ++ l := by simp
  cases l with
  | nil =>
    obtain rfl := List.suffix_nil.mp hs
    rw [splitStr_nil] at hsplit
    simp at hsplit
  | cons x l =>
    have hjoined : ∃ s', s' <:+ joined elementText (x :: l) ∧
        splitStr s' = (before ++ [e]) ++ x :: l := by
      rcases List.suffix_cons_iff.mp hs with rfl | hs
      · exact ⟨_, List.suffix_rfl, by rw [← splitStr_after, ← hmore, ← hsplit]; rfl⟩
      · exact ⟨s, hs, by rw [hsplit, hmore]⟩
    obtain ⟨s', hs', h'⟩ := hjoined
    rcases h hs' h' with hnil | ⟨-, hnil, -⟩
    · cases hnil
    · simp at hnil

/-- Nor do they give themselves from behind their first quote. -/
theorem ReadWhole.quoted {l : List (List Byte)} (h : ReadWhole l) (hl : l ≠ []) :
    splitStr (((joined elementText l).dropWhile (· ≠ quote)).drop 1) ≠ l := by
  intro hsplit
  have hshort : ((joined elementText l).dropWhile (· ≠ quote)).drop 1 <:+ joined elementText l :=
    (List.drop_suffix _ _).trans (List.dropWhile_suffix _)
  rcases h hshort ((List.nil_append l).symm ▸ hsplit) with hnil | ⟨hall, -, hkept⟩
  · exact hl hnil
  · obtain ⟨x, l, rfl⟩ := List.exists_cons_of_ne_nil hl
    have hpos : 0 < (joined elementText (x :: l)).length := by
      rw [joined_cons, List.length_append]
      have := List.length_pos_of_ne_nil (elementText_ne_nil (hkept x List.mem_cons_self))
      omega
    have hle := (List.dropWhile_sublist (· ≠ quote) (l := joined elementText (x :: l))).length_le
    have hlen := congrArg List.length hall
    rw [List.length_drop] at hlen
    omega

/-- The first round gives the first element, where no later one does. -/
theorem splitStr_first {t e : List Byte} {before l : List (List Byte)} (htne : t ≠ [])
    (hno : ∀ before', splitStr (nextToken t).2 ≠ before' ++ e :: l)
    (hsplit : splitStr t = before ++ e :: l) :
    before = [] ∧ (nextToken t).1 = e ∧ splitStr (nextToken t).2 = l := by
  rw [splitStr_eq htne] at hsplit
  split at hsplit
  next => exact absurd hsplit (hno before)
  next =>
    cases before with
    | nil => exact ⟨rfl, List.cons.inj hsplit⟩
    | cons _ before => exact absurd (List.cons.inj hsplit).2 (hno before)

/-- An array is read from the end of its printed elements only if that is all of them, and
nothing comes before it. -/
theorem splitStr_suffix (l : List (List Byte)) : ReadWhole l := by
  induction l with
  | nil => exact fun _ _ _ _ => .inl rfl
  | cons e l ih =>
    intro t before ht hsplit
    refine .inr ?_
    have hne : e ≠ [] := splitStr_ne_nil e (by rw [hsplit]; simp)
    generalize hn : t.length = n
    induction n using Nat.strong_induction_on generalizing t before with
    | _ n ihn =>
      have htne : t ≠ [] := by
        rintro rfl
        rw [splitStr_nil] at hsplit
        simp at hsplit
      have hno : ∀ before', splitStr (nextToken t).2 ≠ before' ++ e :: l := by
        intro before' h
        have hshort := nextToken_length htne
        obtain ⟨hall, -⟩ := ihn _ (hn ▸ hshort) ((nextToken_suffix t).trans ht) h rfl
        have hle := ht.length_le
        rw [hall] at hshort
        omega
      obtain ⟨rfl, htoken, hrest⟩ := splitStr_first htne hno hsplit
      rw [joined_cons] at ht ⊢
      obtain ⟨u, rfl, hu⟩ : ∃ u, t = u ++ afterElement l ∧ u <:+ elementText e := by
        rcases List.suffix_or_suffix_of_suffix ht (List.suffix_append (elementText e) _) with
          hlate | ⟨u, rfl⟩
        · exact absurd hsplit (ih.later hlate [] e)
        · exact ⟨u, rfl, (List.suffix_append_self_iff).mp ht⟩
      rcases token_element hu hne (afterElement_head l) htoken with hskip | ⟨rfl, he⟩ | ⟨hlate, hdrop⟩
      · rw [splitStr_space hskip] at hsplit
        exact absurd hsplit (ih.later List.suffix_rfl [] e)
      · rw [nextToken_element he (afterElement_head l), splitStr_after, ← List.nil_append l] at hrest
        refine ⟨rfl, rfl, fun x hx => ?_⟩
        rcases List.mem_cons.mp hx with rfl | hx
        · exact he
        · rcases ih List.suffix_rfl hrest with rfl | ⟨-, -, hall⟩
          · cases hx
          · exact hall x hx
      · exfalso
        rw [hdrop] at hrest
        cases l with
        | nil => exact hne hlate.symm
        | cons x l =>
          have hdropped : (afterElement (x :: l)).dropWhile (· ≠ quote) =
              (joined elementText (x :: l)).dropWhile (· ≠ quote) := rfl
          rw [hdropped] at hrest
          exact ih.quoted (List.cons_ne_nil x l) hrest

/-! ## Texts end at a NUL -/

theorem mem_splitStr {text e : List Byte} (he : e ∈ splitStr text) : e ⊆ text := by
  generalize hn : text.length = n
  induction n using Nat.strong_induction_on generalizing text with
  | _ n ih =>
    by_cases hne : text = []
    · subst hne
      simp [splitStr_nil] at he
    · have hrest : e ∈ splitStr (nextToken text).2 → e ⊆ text := fun h =>
        List.Subset.trans (ih _ (hn ▸ nextToken_length hne) h rfl) (nextToken_suffix text).subset
      rw [splitStr_eq hne] at he
      split at he
      next => exact hrest he
      next =>
        rcases List.mem_cons.mp he with rfl | he
        · rcases opening_cases (skipSpace text) with ⟨q, rest, hs, -, ho⟩ | ⟨-, ho⟩
          · simp only [nextToken, ho]
            have hsub : rest ⊆ text :=
              ((List.suffix_cons q rest).trans (hs ▸ skipSpace_suffix text)).subset
            exact fun b hb => hsub ((List.takeWhile_sublist _).subset hb)
          · simp only [nextToken, ho]
            exact fun b hb => (skipSpace_suffix text).subset ((List.takeWhile_sublist _).subset hb)
        · exact hrest he

theorem mem_elementText {e : List Byte} {b : Byte} (hb : b ∈ elementText e) :
    b = quote ∨ b ∈ e := by
  unfold elementText at hb
  split at hb
  · simpa [or_assoc, or_comm] using hb
  · exact .inr hb

theorem mem_joined {l : List (List Byte)} {b : Byte} (hb : b ∈ joined elementText l) :
    b = space ∨ b = quote ∨ ∃ e ∈ l, b ∈ e := by
  induction l with
  | nil => cases hb
  | cons e l ih =>
    rw [joined_cons, List.mem_append] at hb
    rcases hb with hb | hb
    · rcases mem_elementText hb with hb | hb
      · exact .inr (.inl hb)
      · exact .inr (.inr ⟨e, List.mem_cons_self, hb⟩)
    · cases l with
      | nil => cases hb
      | cons x l =>
        rcases List.mem_cons.mp hb with hb | hb
        · exact .inl hb
        · rcases ih hb with hb | hb | ⟨y, hy, hb⟩
          · exact .inl hb
          · exact .inr (.inl hb)
          · exact .inr (.inr ⟨y, List.mem_cons_of_mem _ hy, hb⟩)

theorem getValue_eq {l : List (List Byte)} (hl : ∀ e ∈ l, 0 ∉ e) :
    StringArray.getValue l = joined elementText l := by
  refine cstr_eq_self fun b hb => ?_
  rcases mem_joined hb with rfl | rfl | ⟨e, he, hb⟩
  · decide
  · decide
  · exact fun hzero => hl e he (hzero ▸ hb)

/-- **The arrays that come back** from what is printed of them. -/
theorem splitStr_getValue_iff (l : List (List Byte)) :
    splitStr (StringArray.getValue l) = l ↔ ∀ e ∈ l, KeptToken e ∧ 0 ∉ e := by
  constructor
  · intro h
    have hnul : ∀ e ∈ l, 0 ∉ e := by
      intro e he hzero
      rw [← h] at he
      exact cstr_no_nul _ 0 (mem_splitStr he hzero) rfl
    rw [getValue_eq hnul, ← List.nil_append l] at h
    rcases splitStr_suffix _ List.suffix_rfl h with rfl | ⟨-, -, hkept⟩
    · simp
    · exact fun e he => ⟨hkept e he, hnul e he⟩
  · intro h
    rw [getValue_eq fun e he => (h e he).2]
    exact splitStr_joined fun e he => (h e he).1

/-! ## doSetValue -/

/-- A `StringArray`. -/
structure StringArray where
  value : List (List Byte)
  deriving DecidableEq

/-- `Value::doOpValue`, `StringArray::isEqual` and `StringArray::setFromValue`. -/
instance StringArray.valueOps : ValueOps StringArray where
  doOpValue new op _ := if op = '=' then some new else none
  isEqual old new := StringArray.getValue old.value = StringArray.getValue new.value
  setFromValue _ new := ⟨splitStr (StringArray.getValue new.value)⟩
  doOpValue_assign := by
    intro new old r h
    rw [if_pos rfl] at h
    exact (Option.some.inj h).symm

/-- **A string array is set to what was asked for** exactly when it holds that already, or the
two are not printed alike, the driver leaves it to the daemon, and every element is one that
comes back. -/
theorem stringArray_stored_iff (hook : StringArray → StringArray → Int) (old new : StringArray)
    (op : Char) (h : (doSetValue hook old op new).1 = 0) :
    (doSetValue hook old op new).2 = new ↔
      old = new ∨ (hook old new = 0 ∧
        StringArray.getValue old.value ≠ StringArray.getValue new.value ∧
        ∀ e ∈ new.value, KeptToken e ∧ 0 ∉ e) := by
  have hop : op = '=' := by
    by_contra hop
    have hnone : ValueOps.doOpValue new op old = none := if_neg hop
    simp [doSetValue, hnone] at h
  subst hop
  have hassign : ValueOps.doOpValue new '=' old = some new := if_pos rfl
  have hequal : ValueOps.isEqual old new = false ↔
      StringArray.getValue old.value ≠ StringArray.getValue new.value := decide_eq_false_iff_not
  simp only [doSetValue, hassign] at h ⊢
  split at h
  next hneg => exact absurd h (ne_of_lt hneg)
  next hneg =>
    rw [if_neg hneg]
    split
    next hset =>
      have hne : old ≠ new := by
        rintro rfl
        exact hequal.mp hset.2 rfl
      have hcopy : ValueOps.setFromValue old new = new ↔ ∀ e ∈ new.value, KeptToken e ∧ 0 ∉ e := by
        rw [← splitStr_getValue_iff]
        exact ⟨fun h => congrArg StringArray.value h, fun h => congrArg StringArray.mk h⟩
      rw [hcopy]
      exact ⟨fun hall => .inr ⟨hset.1, hequal.mp hset.2, hall⟩,
        fun hor => hor.elim (fun h => absurd h hne) fun h => h.2.2⟩
    next hset =>
      refine ⟨.inl, fun hor => hor.elim id fun hall => ?_⟩
      exact absurd ⟨hall.1, hequal.mpr hall.2.1⟩ hset

/-- Words and an element with a space. -/
theorem stringArray_stored_plain :
    (doSetValue writable ⟨[[97]]⟩ '=' (⟨[[98, 32, 99], [100]]⟩ : StringArray)).1 = 0 ∧
      (doSetValue writable ⟨[[97]]⟩ '=' (⟨[[98, 32, 99], [100]]⟩ : StringArray)).2 =
        ⟨[[98, 32, 99], [100]]⟩ := by
  refine ⟨by decide, ?_⟩
  refine (stringArray_stored_iff writable ⟨[[97]]⟩ ⟨[[98, 32, 99], [100]]⟩ '=' (by decide)).mpr
    (.inr ⟨rfl, by decide, ?_⟩)
  intro e he
  simp only [List.mem_cons, List.not_mem_nil, or_false] at he
  rcases he with rfl | rfl
  · exact ⟨⟨by decide, by decide, fun h => absurd (by decide) h⟩, by decide⟩
  · exact ⟨⟨by decide, by decide, fun _ => ⟨List.forall_mem_singleton.mpr rfl, fun b hb =>
      Option.some.inj hb ▸ by decide⟩⟩, by decide⟩

/-- An empty element is lost, and so is the quote that a word begins with. -/
theorem stringArray_stored_empty :
    doSetValue writable ⟨[]⟩ '=' (⟨[[97], [], [39, 98]]⟩ : StringArray) =
        (0, ⟨[[97], [98]]⟩) ∧
      (⟨[[97], [98]]⟩ : StringArray) ≠ ⟨[[97], [], [39, 98]]⟩ := by
  decide

end Rts2.Values

import Rts2.Expression.Constants

/-! # Ranges of an array

`parseRange` reads which elements of an array a change is for: `3`, `2:5`, `:5`, `2:`, and commas
between them. The first element has the number 1. -/
namespace Rts2.ArrayRange
open Rts2.Rts2Expression (natFrom natOf)

/-! ## The parser -/

inductive State where
  | FROM
  | TO
  | ARRAY_LEFT
  deriving DecidableEq

def intMax : ℕ := 2 ^ 31 - 1

/-- `from * 10 + (*endp) - '0'`; nothing when the sum is no `int`. -/
def addDigit (n : ℕ) (c : Char) : Option ℕ :=
  if n * 10 + c.toNat ≤ intMax then some (n * 10 + c.toNat - 48) else none

/-- What is pushed for an item, with `from` and `to` as they are read. -/
def pushed (array_size : ℕ) (state : State) (from_ to_ : ℕ) : List ℕ :=
  let first := if 0 < from_ then from_ - 1 else from_
  let last :=
    if to_ = 0 ∨ array_size < to_ then
      if state = .TO then array_size else if array_size < to_ then first else first + 1
    else to_
  List.range' first (last - first)

/-- The loop: the indices, and the text at `endp`. -/
def loop (array_size : ℕ) : List Char → State → ℕ → ℕ → List ℕ → Option (List ℕ × List Char)
  | [], state, from_, to_, ret =>
    if state = .TO ∨ from_ = 0 ∨ state = .FROM ∧ 0 < from_ then
      some (ret ++ pushed array_size state from_ to_, [])
    else some (ret, [])
  | c :: str, state, from_, to_, ret =>
    if c.isDigit then
      match state with
      | .TO => (addDigit to_ c).bind fun to_ => loop array_size str state from_ to_ ret
      | _ => (addDigit from_ c).bind fun from_ => loop array_size str .FROM from_ to_ ret
    else if c = ':' then
      match state with
      | .TO => some (ret, c :: str)
      | _ => loop array_size str .TO from_ to_ ret
    else if c = ',' then
      loop array_size str .ARRAY_LEFT 0 0 (ret ++ pushed array_size state from_ to_)
    else some (ret, c :: str)

/-- `parseRange`; nothing when a number is no `int`. -/
def parseRange (range_str : List Char) (array_size : ℕ) : Option (List ℕ × List Char) :=
  if range_str = [] then some (List.range array_size, [])
  else loop array_size range_str .FROM 0 0 []

/-- `setValues` of an array; nothing when an element is not in the array. -/
def setValues {α : Type} (value : List α) (index : List ℕ) (val : α) : Option (List α) :=
  index.foldlM (fun value i => if i < value.length then some (value.set i val) else none) value

/-! ## Items -/

/-- Digits, and digits behind a colon. -/
structure Item where
  low : List Char
  high : Option (List Char)
  deriving DecidableEq

namespace Item
variable (x : Item)

def text : List Char := x.low ++ x.high.elim [] (':' :: ·)

/-- The item is `n`, `n:m`, `:m`, `n:` or `:`. -/
structure Valid : Prop where
  low_digits : ∀ c ∈ x.low, c.isDigit = true
  high_digits : ∀ h ∈ x.high, ∀ c ∈ h, c.isDigit = true
  ne : x.high = none → x.low ≠ []

def first : ℕ := natOf x.low

def last : ℕ := natOf (x.high.getD [])

/-- The item names the element with this number. -/
def Names (k : ℕ) : Prop :=
  match x.high with
  | none => k = x.first
  | some [] => x.first ≤ k
  | some _ => x.first ≤ k ∧ k ≤ x.last

end Item

/-- Items with commas between them. -/
def render (items : List Item) : List Char := [','].intercalate (items.map Item.text)

/-- The elements are those of the text, all for no text. -/
structure Exact (range_str : List Char) (array_size : ℕ) (ret : List ℕ) : Prop where
  inside : ∀ i ∈ ret, i < array_size
  exact : range_str = [] ∧ (∀ i, i ∈ ret ↔ i < array_size) ∨
    ∃ items, items ≠ [] ∧ (∀ x ∈ items, x.Valid) ∧ range_str = render items ∧
      ∀ i, i ∈ ret ↔ i < array_size ∧ ∃ x ∈ items, x.Names (i + 1)
  assigned : ∀ (α : Type) (value : List α) (val : α), value.length = array_size →
    setValues value ret val ≠ none

/-- An error is reported, or the range is exact. -/
def Right (range_str : List Char) (array_size : ℕ) : Prop :=
  ∃ ret endp, parseRange range_str array_size = some (ret, endp) ∧
    (endp ≠ [] ∨ Exact range_str array_size ret)

/-! ## Reading the items -/

namespace Item

def push (x : Item) (c : Char) : Item :=
  match x.high with
  | none => { x with low := x.low ++ [c] }
  | some h => { x with high := some (h ++ [c]) }

end Item

/-- The items up to the first character that has no place in them, with `x` read before. -/
def reading : List Char → Item → List Item × List Char
  | [], x => ([x], [])
  | c :: str, x =>
    if c.isDigit then reading str (x.push c)
    else if c = ':' ∧ x.high = none then reading str { x with high := some [] }
    else if c = ',' then (x :: (reading str ⟨[], none⟩).1, (reading str ⟨[], none⟩).2)
    else ([x], c :: str)

def items (range_str : List Char) : List Item := (reading range_str ⟨[], none⟩).1

def unread (range_str : List Char) : List Char := (reading range_str ⟨[], none⟩).2

namespace Item
variable (x : Item) (array_size : ℕ)

/-- The numbers can be read as an `int`. -/
def Small : Prop := x.first + 48 ≤ intMax ∧ x.last + 48 ≤ intMax

/-- A single number is there, and not behind the array. -/
def Fits : Prop := x.high = none → x.low ≠ [] ∧ x.first ≤ array_size

/-- The parser takes the item for this element, too: 0 is taken for the first element, and an end of 0
for the end of the array. -/
def Adds (i : ℕ) : Prop :=
  match x.high with
  | none => x.first = 0 ∧ i = 0
  | some [] => False
  | some _ => x.last = 0 ∧ x.first ≤ i + 1 ∧ i < array_size

end Item

/-- What the parser can read. -/
structure Readable (range_str : List Char) (array_size : ℕ) : Prop where
  small : ∀ x ∈ items range_str, x.Small
  fits : unread range_str = [] → range_str ≠ [] → ∀ x ∈ items range_str, x.Fits array_size
  /-- What is added is in the array, and named by another item. -/
  named : unread range_str = [] → range_str ≠ [] → ∀ x ∈ items range_str, ∀ i, x.Adds array_size i →
    i < array_size ∧ ∃ y ∈ items range_str, y.Names (i + 1)

/-! ## Items and texts -/

theorem render_cons (x y : Item) (l : List Item) :
    render (x :: y :: l) = x.text ++ ',' :: render (y :: l) := by
  unfold render
  simp [List.intercalate]

theorem reading_ne (str : List Char) (x : Item) : (reading str x).1 ≠ [] := by
  induction str generalizing x with
  | nil => exact List.cons_ne_nil _ _
  | cons c str ih =>
    unfold reading
    split_ifs
    · exact ih _
    · exact ih _
    · exact List.cons_ne_nil _ _
    · exact List.cons_ne_nil _ _

theorem Item.push_text (x : Item) (c : Char) : (x.push c).text = x.text ++ [c] := by
  unfold push text
  cases h : x.high with
  | none => simp
  | some w => simp

/-- The items are written in the text. -/
theorem render_reading (str : List Char) (x : Item) :
    render (reading str x).1 ++ (reading str x).2 = x.text ++ str := by
  induction str generalizing x with
  | nil => simp [reading, render, List.intercalate]
  | cons c str ih =>
    unfold reading
    split_ifs with hdigit hcolon hcomma
    · rw [ih, Item.push_text, List.append_assoc]
      rfl
    · rw [ih, hcolon.1]
      simp [Item.text, hcolon.2]
    · obtain ⟨y, l, hl⟩ := List.exists_cons_of_ne_nil (reading_ne str ⟨[], none⟩)
      have hrest := ih ⟨[], none⟩
      rw [hl] at hrest ⊢
      rw [render_cons, List.append_assoc, List.cons_append, hrest, hcomma]
      rfl
    · simp [render, List.intercalate]

theorem reading_low {digits : List Char} (hd : ∀ c ∈ digits, c.isDigit = true) (rest low : List Char) :
    reading (digits ++ rest) ⟨low, none⟩ = reading rest ⟨low ++ digits, none⟩ := by
  induction digits generalizing low with
  | nil => rw [List.append_nil]; rfl
  | cons c digits ih =>
    rw [List.cons_append, reading, if_pos (hd c List.mem_cons_self)]
    have hrest := ih (fun d hd' => hd d (List.mem_cons_of_mem c hd')) (low ++ [c])
    rw [List.append_assoc] at hrest
    exact hrest

theorem reading_high {digits : List Char} (hd : ∀ c ∈ digits, c.isDigit = true)
    (rest low high : List Char) :
    reading (digits ++ rest) ⟨low, some high⟩ = reading rest ⟨low, some (high ++ digits)⟩ := by
  induction digits generalizing high with
  | nil => rw [List.append_nil]; rfl
  | cons c digits ih =>
    rw [List.cons_append, reading, if_pos (hd c List.mem_cons_self)]
    have hrest := ih (fun d hd' => hd d (List.mem_cons_of_mem c hd')) (high ++ [c])
    rw [List.append_assoc] at hrest
    exact hrest

theorem reading_text {x : Item} (hx : x.Valid) (rest : List Char) :
    reading (x.text ++ rest) ⟨[], none⟩ = reading rest x := by
  obtain ⟨low, high⟩ := x
  unfold Item.text
  rw [List.append_assoc, reading_low hx.low_digits]
  cases high with
  | none => rfl
  | some h =>
    have hcolon : (':' : Char).isDigit = false := rfl
    rw [Option.elim_some, List.cons_append, reading, if_neg (by simp [hcolon]), if_pos ⟨rfl, rfl⟩,
      reading_high (hx.high_digits h rfl)]
    rfl

/-- Written items are read. -/
theorem reading_render {l : List Item} (hl : l ≠ []) (hx : ∀ x ∈ l, x.Valid) :
    reading (render l) ⟨[], none⟩ = (l, []) := by
  induction l with
  | nil => exact absurd rfl hl
  | cons x l ih =>
    have hvalid := hx x List.mem_cons_self
    cases l with
    | nil =>
      have hread := reading_text hvalid []
      rw [List.append_nil] at hread
      have hone : render [x] = x.text := by simp [render, List.intercalate]
      rw [hone, hread]
      rfl
    | cons y l =>
      have hcomma : (',' : Char).isDigit = false := rfl
      rw [render_cons, reading_text hvalid, reading, if_neg (by simp [hcomma]),
        if_neg (by simp), if_pos rfl, ih (List.cons_ne_nil y l) fun z hz => hx z (List.mem_cons_of_mem x hz)]

/-- Items that are read have digits only. -/
theorem reading_digits (str : List Char) (x : Item) (hlow : ∀ c ∈ x.low, c.isDigit = true)
    (hhigh : ∀ h ∈ x.high, ∀ c ∈ h, c.isDigit = true) :
    ∀ y ∈ (reading str x).1, (∀ c ∈ y.low, c.isDigit = true) ∧
      ∀ h ∈ y.high, ∀ c ∈ h, c.isDigit = true := by
  induction str generalizing x with
  | nil =>
    intro y hy
    rw [List.mem_singleton.mp hy]
    exact ⟨hlow, hhigh⟩
  | cons c str ih =>
    unfold reading
    split_ifs with hdigit hcolon hcomma
    · unfold Item.push
      cases hx : x.high with
      | none =>
        refine ih _ (fun d hd => ?_) (fun h hh => by simp at hh)
        rcases List.mem_append.mp hd with hd | hd
        · exact hlow d hd
        · exact List.mem_singleton.mp hd ▸ hdigit
      | some w =>
        refine ih _ hlow fun h hh d hd => ?_
        obtain rfl := Option.some.inj hh
        rcases List.mem_append.mp hd with hd | hd
        · exact hhigh w hx d hd
        · exact List.mem_singleton.mp hd ▸ hdigit
    · refine ih _ hlow fun h hh d hd => ?_
      obtain rfl := Option.some.inj hh
      cases hd
    · intro y hy
      rcases List.mem_cons.mp hy with rfl | hy
      · exact ⟨hlow, hhigh⟩
      · exact ih ⟨[], none⟩ (fun d hd => by cases hd) (fun h hh => by cases hh) y hy
    · intro y hy
      rw [List.mem_singleton.mp hy]
      exact ⟨hlow, hhigh⟩

/-! ## The loop -/

namespace Item
variable (x : Item)

/-- The state behind an item. -/
def state : State := if x.high.isSome then .TO else .FROM

/-- The states in which an item can be gone on with. -/
def In (state : State) : Prop :=
  match x.high with
  | none => state = .FROM ∨ state = .ARRAY_LEFT ∧ x.low = []
  | some _ => state = .TO

variable {x}

theorem pushed_eq {state : State} (h : x.In state) (array_size : ℕ) (from_ to_ : ℕ) :
    pushed array_size state from_ to_ = pushed array_size x.state from_ to_ := by
  unfold In at h
  unfold Item.state pushed
  cases hx : x.high with
  | none =>
    rw [hx] at h
    rcases h with rfl | ⟨rfl, -⟩
    · rfl
    · rfl
  | some w =>
    rw [hx] at h
    rw [h]
    rfl

theorem push_first (c : Char) : (x.push c).first =
    if x.high = none then x.first * 10 + (c.toNat - 48) else x.first := by
  unfold push first
  cases hx : x.high with
  | none => simp [natOf, natFrom, List.foldl_append]
  | some w => simp

theorem push_last (c : Char) : (x.push c).last =
    if x.high = none then x.last else x.last * 10 + (c.toNat - 48) := by
  unfold push last
  cases hx : x.high with
  | none => simp
  | some w => simp [natOf, natFrom, List.foldl_append]

end Item

theorem addDigit_eq {n : ℕ} {c : Char} (hc : c.isDigit = true) : addDigit n c =
    if n * 10 + (c.toNat - 48) + 48 ≤ intMax then some (n * 10 + (c.toNat - 48)) else none := by
  have hdigit : 48 ≤ c.toNat := (Char.isDigit_iff_toNat.mp hc).1
  unfold addDigit
  have hsum : n * 10 + (c.toNat - 48) + 48 = n * 10 + c.toNat := by omega
  have hsub : n * 10 + c.toNat - 48 = n * 10 + (c.toNat - 48) := by omega
  rw [hsum, hsub]

/-- The first item has at least the numbers that were read before. -/
theorem reading_head (str : List Char) (x : Item) :
    ∃ y l, (reading str x).1 = y :: l ∧ x.first ≤ y.first ∧ x.last ≤ y.last := by
  induction str generalizing x with
  | nil => exact ⟨x, [], rfl, Nat.le_refl _, Nat.le_refl _⟩
  | cons c str ih =>
    unfold reading
    split_ifs with hdigit hcolon hcomma
    · obtain ⟨y, l, hl, hfirst, hlast⟩ := ih (x.push c)
      rw [x.push_first] at hfirst
      rw [x.push_last] at hlast
      refine ⟨y, l, hl, ?_, ?_⟩
      · split at hfirst <;> omega
      · split at hlast <;> omega
    · obtain ⟨y, l, hl, hfirst, hlast⟩ := ih { x with high := some [] }
      refine ⟨y, l, hl, hfirst, ?_⟩
      have hzero : x.last = 0 := by
        unfold Item.last
        rw [hcolon.2]
        rfl
      omega
    · exact ⟨x, _, rfl, Nat.le_refl _, Nat.le_refl _⟩
    · exact ⟨x, [], rfl, Nat.le_refl _, Nat.le_refl _⟩

def Item.indices (x : Item) (array_size : ℕ) : List ℕ := pushed array_size x.state x.first x.last

instance Item.instDecidableSmall (x : Item) : Decidable x.Small :=
  inferInstanceAs (Decidable (x.first + 48 ≤ intMax ∧ x.last + 48 ≤ intMax))

theorem Item.in_state (x : Item) : x.In x.state := by
  unfold In state
  cases x.high with
  | none => exact .inl rfl
  | some w => rfl

section
variable {x : Item} {state : State} (hin : x.In state) (hx : x.Small) (array_size : ℕ) {c : Char}
  (str : List Char) (ret : List ℕ)
include hin

theorem loop_digit (hx : x.Small) (hc : c.isDigit = true) :
    loop array_size (c :: str) state x.first x.last ret =
      if (x.push c).Small then
        loop array_size str (x.push c).state (x.push c).first (x.push c).last ret
      else none := by
  obtain ⟨hfirst, hlast⟩ := hx
  have hpush := x.push_first c
  have hpush' := x.push_last c
  unfold Item.In at hin
  cases hhigh : x.high with
  | none =>
    rw [hhigh] at hin
    rw [if_pos hhigh] at hpush hpush'
    have hstate : (x.push c).state = .FROM := by
      unfold Item.state Item.push
      rw [hhigh]
      rfl
    have hgo : (addDigit x.first c).bind (fun from_ => loop array_size str .FROM from_ x.last ret) =
        if (x.push c).Small then
          loop array_size str (x.push c).state (x.push c).first (x.push c).last ret
        else none := by
      rw [hstate, hpush', addDigit_eq hc]
      by_cases hsmall : (x.push c).Small
      · rw [if_pos hsmall, if_pos (hpush ▸ hsmall.1), hpush]
        rfl
      · rw [if_neg hsmall, if_neg fun h => hsmall ⟨hpush ▸ h, hpush' ▸ hlast⟩]
        rfl
    rcases hin with rfl | ⟨rfl, -⟩
    · exact (if_pos hc).trans hgo
    · exact (if_pos hc).trans hgo
  | some w =>
    rw [hhigh] at hin
    have hloop : loop array_size (c :: str) .TO x.first x.last ret =
        (addDigit x.last c).bind fun to_ => loop array_size str .TO x.first to_ ret := if_pos hc
    have hne : x.high ≠ none := hhigh ▸ Option.some_ne_none w
    rw [if_neg hne] at hpush hpush'
    have hstate : (x.push c).state = .TO := by
      unfold Item.state Item.push
      rw [hhigh]
      rfl
    rw [hin, hloop, hstate, hpush, addDigit_eq hc]
    by_cases hsmall : (x.push c).Small
    · rw [if_pos hsmall, if_pos (hpush' ▸ hsmall.2), hpush']
      rfl
    · rw [if_neg hsmall, if_neg fun h => hsmall ⟨hpush ▸ hfirst, hpush' ▸ h⟩]
      rfl

/-- The end of the text. -/
theorem loop_end : loop array_size [] state x.first x.last ret =
    some (ret ++ x.indices array_size, []) := by
  have hflush : state = .TO ∨ x.first = 0 ∨ state = .FROM ∧ 0 < x.first := by
    unfold Item.In at hin
    cases hhigh : x.high with
    | none =>
      rw [hhigh] at hin
      rcases hin with rfl | ⟨rfl, hlow⟩
      · exact .inr ((Nat.eq_zero_or_pos _).imp_right fun h => ⟨rfl, h⟩)
      · refine .inr (.inl ?_)
        unfold Item.first
        rw [hlow]
        rfl
    | some w =>
      rw [hhigh] at hin
      exact .inl hin
  rw [loop, if_pos hflush, Item.pushed_eq hin]
  rfl

theorem loop_comma : loop array_size (',' :: str) state x.first x.last ret =
    loop array_size str .ARRAY_LEFT 0 0 (ret ++ x.indices array_size) := by
  have hgo : loop array_size (',' :: str) state x.first x.last ret =
      loop array_size str .ARRAY_LEFT 0 0 (ret ++ pushed array_size state x.first x.last) := by
    cases state with
    | FROM => rfl
    | TO => rfl
    | ARRAY_LEFT => rfl
  rw [hgo, Item.pushed_eq hin]
  rfl

/-- The first colon of an item. -/
theorem loop_colon (hhigh : x.high = none) : loop array_size (':' :: str) state x.first x.last ret =
    loop array_size str .TO x.first 0 ret := by
  have hzero : x.last = 0 := by
    unfold Item.last
    rw [hhigh]
    rfl
  unfold Item.In at hin
  rw [hhigh] at hin
  rw [hzero]
  rcases hin with rfl | ⟨rfl, -⟩
  · rfl
  · rfl

/-- Any other character ends the loop. -/
theorem loop_stop {c : Char} (hdigit : ¬ c.isDigit = true) (hcolon : ¬ (c = ':' ∧ x.high = none))
    (hcomma : c ≠ ',') :
    loop array_size (c :: str) state x.first x.last ret = some (ret, c :: str) := by
  unfold loop
  rw [if_neg hdigit]
  by_cases hc : c = ':'
  · unfold Item.In at hin
    cases hw : x.high with
    | none => exact absurd ⟨hc, hw⟩ hcolon
    | some w =>
      rw [hw] at hin
      subst hin
      rw [if_pos hc]
  · rw [if_neg hc, if_neg hcomma]

end

/-- The loop takes the indices of the items, as far as they are read, or comes to a number that is too
large. -/
theorem loop_eq (array_size : ℕ) (str : List Char) {x : Item} {state : State} (hin : x.In state)
    (hx : x.Small) (ret : List ℕ) :
    ((∀ y ∈ (reading str x).1, y.Small) → ∃ ret',
      loop array_size str state x.first x.last ret = some (ret', (reading str x).2) ∧
        ((reading str x).2 = [] → ret' = ret ++ (reading str x).1.flatMap (·.indices array_size))) ∧
    ((∃ y ∈ (reading str x).1, ¬ y.Small) → loop array_size str state x.first x.last ret = none) := by
  induction str generalizing x state ret with
  | nil =>
    rw [loop_end hin]
    refine ⟨fun _ => ⟨_, rfl, fun _ => ?_⟩, ?_⟩
    · simp [reading]
    · rintro ⟨y, hy, hlarge⟩
      rw [List.mem_singleton.mp hy] at hlarge
      exact absurd hx hlarge
  | cons c str ih =>
    by_cases hdigit : c.isDigit = true
    · have hread : reading (c :: str) x = reading str (x.push c) := by rw [reading, if_pos hdigit]
      rw [loop_digit hin array_size str ret hx hdigit, hread]
      by_cases hsmall : (x.push c).Small
      · rw [if_pos hsmall]
        exact ih (x.push c).in_state hsmall ret
      · rw [if_neg hsmall]
        obtain ⟨y, l, hl, hfirst, hlast⟩ := reading_head str (x.push c)
        refine ⟨fun hall => absurd ?_ hsmall, fun _ => rfl⟩
        obtain ⟨hfirst', hlast'⟩ := hall y (hl ▸ List.mem_cons_self)
        exact ⟨by omega, by omega⟩
    · by_cases hcolon : c = ':' ∧ x.high = none
      · obtain ⟨rfl, hhigh⟩ := hcolon
        have hread : reading (':' :: str) x = reading str { x with high := some [] } := by
          rw [reading, if_neg hdigit, if_pos ⟨rfl, hhigh⟩]
        have hin' : Item.In ⟨x.low, some []⟩ .TO := rfl
        have hrest := ih hin' ⟨hx.1, Nat.le_of_ble_eq_true rfl⟩ ret
        rw [hread, loop_colon hin array_size str ret hhigh]
        exact hrest
      · by_cases hcomma : c = ','
        · subst hcomma
          have hread : reading (',' :: str) x =
              (x :: (reading str ⟨[], none⟩).1, (reading str ⟨[], none⟩).2) := by
            rw [reading, if_neg hdigit, if_neg hcolon, if_pos rfl]
          have hin' : Item.In ⟨[], none⟩ .ARRAY_LEFT := .inr ⟨rfl, rfl⟩
          obtain ⟨hgo, hlarge⟩ := ih hin' ⟨Nat.le_of_ble_eq_true rfl, Nat.le_of_ble_eq_true rfl⟩
            (ret ++ x.indices array_size)
          rw [loop_comma hin, hread]
          refine ⟨fun hall => ?_, ?_⟩
          · obtain ⟨ret', hloop, hret⟩ := hgo fun y hy => hall y (List.mem_cons_of_mem x hy)
            refine ⟨ret', hloop, fun hend => ?_⟩
            rw [hret hend, List.flatMap_cons, List.append_assoc]
          · rintro ⟨y, hy, hnot⟩
            rcases List.mem_cons.mp hy with rfl | hy
            · exact absurd hx hnot
            · exact hlarge ⟨y, hy, hnot⟩
        · have hread : reading (c :: str) x = ([x], c :: str) := by
            rw [reading, if_neg hdigit, if_neg hcolon, if_neg hcomma]
          rw [hread, loop_stop hin array_size str ret hdigit hcolon hcomma]
          refine ⟨fun _ => ⟨ret, rfl, fun h => absurd h (List.cons_ne_nil c str)⟩, ?_⟩
          rintro ⟨y, hy, hnot⟩
          rw [List.mem_singleton.mp hy] at hnot
          exact absurd hx hnot

/-! ## What is read -/

theorem Item.mem_indices (x : Item) (array_size i : ℕ) : i ∈ x.indices array_size ↔
    (x.high ≠ none → i < array_size) ∧ (x.Names (i + 1) ∨ x.Adds array_size i) := by
  obtain ⟨low, high⟩ := x
  have hmem (first last : ℕ) : i ∈ List.range' first (last - first) ↔ first ≤ i ∧ i < last := by
    rw [List.mem_range'_1]
    omega
  have hfrom : (if 0 < natOf low then natOf low - 1 else natOf low) = natOf low - 1 := by
    split <;> omega
  unfold Item.indices pushed
  rw [hmem]
  unfold Item.first Item.Names Item.Adds Item.state
  rw [hfrom]
  cases high with
  | none =>
    have hlast : Item.last ⟨low, none⟩ = 0 := rfl
    rw [hlast, if_pos (.inl rfl), if_neg (by simp), if_neg (Nat.not_lt_zero _)]
    unfold Item.first
    constructor
    · intro h
      refine ⟨fun hne => absurd rfl hne, ?_⟩
      show i + 1 = natOf low ∨ natOf low = 0 ∧ i = 0
      omega
    · rintro ⟨-, h⟩
      have hcases : i + 1 = natOf low ∨ natOf low = 0 ∧ i = 0 := h
      omega
  | some h =>
    have hstate : (if (some h).isSome = true then State.TO else .FROM) = .TO := rfl
    rw [hstate, if_pos rfl]
    constructor
    · intro hin
      cases h with
      | nil =>
        have hlast : Item.last ⟨low, some []⟩ = 0 := rfl
        rw [hlast, if_pos (.inl rfl)] at hin
        refine ⟨fun _ => hin.2, .inl ?_⟩
        show natOf low ≤ i + 1
        omega
      | cons c h =>
        have hor : (natOf low ≤ i + 1 ∧ i + 1 ≤ Item.last ⟨low, some (c :: h)⟩) ∨
            (Item.last ⟨low, some (c :: h)⟩ = 0 ∧ natOf low ≤ i + 1 ∧ i < array_size) := by
          split at hin <;> omega
        refine ⟨fun _ => ?_, hor⟩
        split at hin <;> omega
    · rintro ⟨hsize, hor⟩
      have hlt := hsize (Option.some_ne_none h)
      cases h with
      | nil =>
        have hlast : Item.last ⟨low, some []⟩ = 0 := rfl
        rw [hlast, if_pos (.inl rfl)]
        have hfirst : natOf low ≤ i + 1 := hor.resolve_right id
        omega
      | cons c h =>
        have hor' : (natOf low ≤ i + 1 ∧ i + 1 ≤ Item.last ⟨low, some (c :: h)⟩) ∨
            (Item.last ⟨low, some (c :: h)⟩ = 0 ∧ natOf low ≤ i + 1 ∧ i < array_size) := hor
        split <;> omega

theorem setValues_ne {α : Type} (val : α) {index : List ℕ} {value : List α}
    (h : ∀ i ∈ index, i < value.length) : setValues value index val ≠ none := by
  induction index generalizing value with
  | nil => exact Option.some_ne_none value
  | cons i index ih =>
    unfold setValues
    rw [List.foldlM_cons, if_pos (h i List.mem_cons_self)]
    refine ih fun j hj => ?_
    rw [List.length_set]
    exact h j (List.mem_cons_of_mem i hj)

theorem items_valid {range_str : List Char}
    (hne : ∀ x ∈ items range_str, x.high = none → x.low ≠ []) : ∀ x ∈ items range_str, x.Valid := by
  intro x hx
  obtain ⟨hlow, hhigh⟩ := reading_digits range_str ⟨[], none⟩ (fun c hc => by cases hc)
    (fun h hh => by cases hh) x hx
  exact ⟨hlow, hhigh, hne x hx⟩

/-- A text that is read to its end has one list of items. -/
theorem exact_iff {range_str : List Char} {array_size : ℕ} {ret : List ℕ} (hne : range_str ≠ [])
    (hend : unread range_str = []) : Exact range_str array_size ret ↔
      (∀ i ∈ ret, i < array_size) ∧ (∀ x ∈ items range_str, x.Valid) ∧
        ∀ i, i ∈ ret ↔ i < array_size ∧ ∃ x ∈ items range_str, x.Names (i + 1) := by
  constructor
  · rintro ⟨hinside, hexact, -⟩
    rcases hexact with ⟨hempty, -⟩ | ⟨l, hl, hvalid, rfl, hmem⟩
    · exact absurd hempty hne
    · have hread : items (render l) = l := congrArg Prod.fst (reading_render hl hvalid)
      rw [hread]
      exact ⟨hinside, hvalid, hmem⟩
  · rintro ⟨hinside, hvalid, hmem⟩
    refine ⟨hinside, .inr ⟨items range_str, reading_ne _ _, hvalid, ?_, hmem⟩, ?_⟩
    · have hread : render (items range_str) ++ unread range_str = range_str := render_reading range_str _
      rw [hend, List.append_nil] at hread
      exact hread.symm
    · rintro α value val rfl
      exact setValues_ne val hinside

/-- The indices of the items are those that are named, where nothing is added. -/
theorem exact_indices {range_str : List Char} {array_size : ℕ} (hne : range_str ≠ [])
    (hend : unread range_str = []) :
    Exact range_str array_size ((items range_str).flatMap (·.indices array_size)) ↔
      (∀ x ∈ items range_str, x.Fits array_size) ∧
      ∀ x ∈ items range_str, ∀ i, x.Adds array_size i →
        i < array_size ∧ ∃ y ∈ items range_str, y.Names (i + 1) := by
  rw [exact_iff hne hend]
  constructor
  · rintro ⟨hinside, hvalid, hmem⟩
    constructor
    · intro x hx hhigh
      refine ⟨(hvalid x hx).ne hhigh, ?_⟩
      by_contra hlarge
      have hin : x.first - 1 ∈ x.indices array_size := by
        refine (x.mem_indices array_size _).mpr ⟨fun h => absurd hhigh h, .inl ?_⟩
        unfold Item.Names
        rw [hhigh]
        show x.first - 1 + 1 = x.first
        omega
      have hlt := hinside _ (List.mem_flatMap.mpr ⟨x, hx, hin⟩)
      omega
    · intro x hx i hadds
      refine (hmem i).mp (List.mem_flatMap.mpr ⟨x, hx, (x.mem_indices array_size i).mpr ⟨?_, .inr hadds⟩⟩)
      intro hhigh
      unfold Item.Adds at hadds
      split at hadds
      · exact absurd ‹_› hhigh
      · exact hadds.elim
      · exact hadds.2.2
  · rintro ⟨hfits, hnamed⟩
    have hmem : ∀ i, i ∈ (items range_str).flatMap (·.indices array_size) ↔
        i < array_size ∧ ∃ x ∈ items range_str, x.Names (i + 1) := by
      intro i
      rw [List.mem_flatMap]
      constructor
      · rintro ⟨x, hx, hin⟩
        obtain ⟨hsize, hnames | hadds⟩ := (x.mem_indices array_size i).mp hin
        · refine ⟨?_, x, hx, hnames⟩
          by_cases hhigh : x.high = none
          · have hfit := (hfits x hx hhigh).2
            unfold Item.Names at hnames
            rw [hhigh] at hnames
            have hfirst : i + 1 = x.first := hnames
            omega
          · exact hsize hhigh
        · exact hnamed x hx i hadds
      · rintro ⟨hlt, x, hx, hnames⟩
        exact ⟨x, hx, (x.mem_indices array_size i).mpr ⟨fun _ => hlt, .inl hnames⟩⟩
    exact ⟨fun i hi => ((hmem i).mp hi).1, items_valid fun x hx hhigh => (hfits x hx hhigh).1, hmem⟩

/-- A range is read as it is written if and only if its numbers are small, no single number is behind the
array, and the elements that are added for a 0 are named by other items. -/
theorem parseRange_right_iff (range_str : List Char) (array_size : ℕ) :
    Right range_str array_size ↔ Readable range_str array_size := by
  by_cases hne : range_str = []
  · subst hne
    have hzero : natOf [] + 48 ≤ intMax := Nat.le_of_ble_eq_true rfl
    refine iff_of_true ⟨List.range array_size, [], rfl, .inr ?_⟩ ⟨?_, ?_, ?_⟩
    · have hinside : ∀ i ∈ List.range array_size, i < array_size := fun i hi => List.mem_range.mp hi
      refine ⟨hinside, .inl ⟨rfl, fun i => List.mem_range⟩, ?_⟩
      rintro α value val rfl
      exact setValues_ne val hinside
    · intro x hx
      rw [List.mem_singleton.mp hx]
      exact ⟨hzero, hzero⟩
    · exact fun _ h => absurd rfl h
    · exact fun _ h => absurd rfl h
  · have hparse : parseRange range_str array_size = loop array_size range_str .FROM 0 0 [] := if_neg hne
    have hin : Item.In ⟨[], none⟩ .FROM := .inl rfl
    have hzero : natOf [] + 48 ≤ intMax := Nat.le_of_ble_eq_true rfl
    obtain ⟨hgo, hlarge⟩ := loop_eq array_size range_str hin ⟨hzero, hzero⟩ []
    constructor
    · rintro ⟨ret, endp, hret, hright⟩
      have hsmall : ∀ x ∈ items range_str, x.Small := by
        intro x hx
        by_contra hnot
        have hnone : parseRange range_str array_size = none := hparse.trans (hlarge ⟨x, hx, hnot⟩)
        exact Option.some_ne_none _ (hret.symm.trans hnone)
      obtain ⟨ret', hloop, hindices⟩ := hgo hsmall
      obtain ⟨rfl, rfl⟩ := Prod.mk.inj (Option.some.inj ((hparse.trans hloop).symm.trans hret))
      have hboth (hend : unread range_str = []) := by
        have hexact := hright.resolve_left fun h => h hend
        rw [hindices hend, List.nil_append] at hexact
        exact (exact_indices hne hend).mp hexact
      exact ⟨hsmall, fun hend _ => (hboth hend).1, fun hend _ => (hboth hend).2⟩
    · rintro ⟨hsmall, hfits, hnamed⟩
      obtain ⟨ret', hloop, hindices⟩ := hgo hsmall
      refine ⟨ret', unread range_str, hparse.trans hloop, ?_⟩
      by_cases hend : unread range_str = []
      · right
        rw [hindices hend, List.nil_append]
        exact (exact_indices hne hend).mpr ⟨hfits hend hne, hnamed hend hne⟩
      · exact .inl hend

/-- The fifth element of three is set. -/
theorem parseRange_behind : ¬ Right ['5'] 3 := by
  rintro ⟨ret, endp, hret, hright⟩
  have hrun : parseRange ['5'] 3 = some ([4], []) := rfl
  obtain ⟨rfl, rfl⟩ := Prod.mk.inj (Option.some.inj (hrun.symm.trans hret))
  have hexact := hright.resolve_left fun h => h rfl
  have hinside : 4 < 3 := hexact.inside 4 (List.mem_singleton.mpr rfl)
  omega

end Rts2.ArrayRange

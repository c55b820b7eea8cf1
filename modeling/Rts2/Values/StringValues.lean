import Rts2.Connection.CommandQue
import Rts2.Connection.OneLine
import Rts2.Values.IntegerLike

/-! # String values on the wire

A `ValueString` is sent between quotes and an element of a `StringArray` between
quotes when it holds a space. Nothing is escaped, so what the receiver reads back
depends on the content. -/
namespace Rts2.Values
open Rts2.Connection
open Rts2.CommandQue (ConnState)

def space : Byte := 32

/-- `c_str`, read as a C string. -/
def cstr (s : List Byte) : List Byte := s.takeWhile (· ≠ 0)

/-! ## Sending -/

/-- `Connection::sendValue` of a string and `sendMsg`; none when it returns an
error before it sends. -/
def sendValue (state : ConnState) (name : ValueName) (value : List Byte) : Option (List Byte) :=
  if state = .inprogress ∨ state = .unknow then none
  else some (valueLine name (quote :: (value ++ [quote])) ++ [lf])

/-- `Connection::sendValueRaw` and `sendMsg`. -/
def sendValueRaw (state : ConnState) (name : ValueName) (value : List Byte) : Option (List Byte) :=
  if state = .inprogress then none else some (valueLine name value ++ [lf])

/-- `ValueString::send`. -/
def ValueString.send (state : ConnState) (name : ValueName) (value : List Byte) :
    Option (List Byte) :=
  sendValue state name (cstr value)

/-- An element of `StringArray::getValue`. -/
def elementText (e : List Byte) : List Byte :=
  if space ∈ e then quote :: (e ++ [quote]) else e

/-- `StringArray::getValue`. -/
def StringArray.getValue (value : List (List Byte)) : List Byte := cstr (joined elementText value)

/-- `StringArray` inherits `Value::send`. -/
def StringArray.send (state : ConnState) (name : ValueName) (value : List (List Byte)) :
    Option (List Byte) :=
  sendValueRaw state name (StringArray.getValue value)

/-! ## Receiving -/

/-- `ValueString::setValue`. -/
def ValueString.setValue (value s : List Byte) : Int × List Byte :=
  match lastParam (paramNextString s []) with
  | some new => (0, new)
  | none => (-2, value)

def nextString (s : List Byte) : Option (List Byte × List Byte) := paramNextString s []

/-- `StringArray::setValue`. -/
def StringArray.setValue (s : List Byte) : Int × List (List Byte) :=
  let read := params nextString s
  (if read.1 then 0 else -2, read.2)

/-- One message was sent, it arrived as one line, and `setValue` on its rest does
as `stored` says. -/
def Delivered (h : Handlers) (s : Waiting) (sent : Option (List Byte)) (name : ValueName)
    (stored : List Byte → Prop) : Prop :=
  ∃ bytes line rest, sent = some bytes ∧ s.val.handed h bytes = [line] ∧
    commandValue line = some (name.text, rest) ∧ stored rest

/-! ## One message, one line -/

theorem cstr_eq_self {s : List Byte} (h : ∀ b ∈ s, b ≠ 0) : cstr s = s :=
  List.takeWhile_eq_self_iff.mpr (by simpa using h)

theorem cstr_no_nul (s : List Byte) : ∀ b ∈ cstr s, b ≠ 0 := fun b hb => by
  simpa using List.mem_takeWhile_imp hb

theorem valueLine_mem {name : ValueName} {text : List Byte} {b : Byte}
    (hb : b ∈ valueLine name text) : b = 86 ∨ b = 32 ∨ b ∈ name.text ∨ b ∈ text := by
  simpa [valueLine, protoValue, or_assoc, or_left_comm] using hb

theorem valueLine_noLineEnd {name : ValueName} {text : List Byte} (h : NoLineEnd text) :
    NoLineEnd (valueLine name text) := by
  intro b hb
  rcases valueLine_mem hb with rfl | rfl | hb | hb
  · decide
  · decide
  · have hword := name.word b hb
    refine ⟨hword.2, ?_, ?_⟩
    · rintro rfl
      exact absurd hword.1 (by decide)
    · rintro rfl
      exact absurd hword.1 (by decide)
  · exact h b hb

/-- A text without line ends arrives as it was sent, in one line. -/
theorem handed_valueLine {h : Handlers} (s : Waiting) {name : ValueName} {text : List Byte}
    (htext : NoLineEnd text) :
    s.val.handed h (valueLine name text ++ [lf]) = [valueLine name text] :=
  handed_message s (valueLine_noLineEnd htext) (b := 86) rfl rfl

/-- What is stored was in a line. -/
theorem handed_rest {h : Handlers} (s : Waiting) {name : ValueName} {text line rest : List Byte}
    (hnul : ∀ b ∈ text, b ≠ 0) (hline : s.val.handed h (valueLine name text ++ [lf]) = [line])
    (hrest : commandValue line = some (name.text, rest)) : NoLineEnd rest := by
  have hbytes : ∀ b ∈ valueLine name text ++ [lf], b ≠ 0 := by
    intro b hb
    rcases List.mem_append.mp hb with hb | hb
    · rcases valueLine_mem hb with rfl | rfl | hb | hb
      · decide
      · decide
      · exact (name.word b hb).2
      · exact hnul b hb
    · rw [List.mem_singleton.mp hb]
      decide
  have hclean := handed_noLineEnd (h := h) s hbytes line (by rw [hline]; exact List.mem_singleton_self _)
  intro b hb
  exact hclean b (commandValue_subset hrest hb)

/-! ## Elements of an array -/

/-- An element that comes back: not empty, quoted only when it holds no quote, and
not quoted only when it is one word. -/
structure PlainElement (e : List Byte) : Prop where
  noLineEnd : NoLineEnd e
  ne_nil : e ≠ []
  spaced : space ∈ e → quote ∉ e
  word : space ∉ e → (∀ b ∈ e, isspace b = false) ∧ e.head? ≠ some quote

theorem nextString_quoted {e : List Byte} (h : quote ∉ e) (tail : List Byte) :
    nextString (quote :: (e ++ quote :: tail)) = some (e, tail) := by
  have hpos : ∀ b ∈ e, (decide (b ≠ quote)) = true := by
    intro b hb
    exact decide_eq_true fun hq => h (hq ▸ hb)
  have htake : (e ++ quote :: tail).takeWhile (· ≠ quote) = e := by
    rw [List.takeWhile_append_of_pos hpos]
    simp
  have hdrop : (e ++ quote :: tail).dropWhile (· ≠ quote) = quote :: tail := by
    rw [List.dropWhile_append_of_pos hpos]
    simp
  show some ((e ++ quote :: tail).takeWhile (· ≠ quote),
    ((e ++ quote :: tail).dropWhile (· ≠ quote)).drop 1) = _
  rw [htake, hdrop]
  rfl

theorem readsBack_element {e : List Byte} (he : PlainElement e) :
    ReadsBack nextString (elementText e) e := by
  unfold elementText
  split
  · next hspace =>
    refine ⟨⟨quote, rfl, rfl⟩, fun tail _ => ⟨tail, ?_, rfl⟩⟩
    have h := nextString_quoted (he.spaced hspace) tail
    simpa using h
  · next hspace =>
    obtain ⟨hword, hquote⟩ := he.word hspace
    obtain ⟨b, l, rfl⟩ := List.exists_cons_of_ne_nil he.ne_nil
    refine ⟨⟨b, rfl, hword b List.mem_cons_self⟩, fun tail htail => ⟨tail.drop 1, ?_, ?_⟩⟩
    · exact paramNextString_word tail [] he.ne_nil (fun c hc => ⟨hword c hc, by simp⟩) hquote htail
    · cases tail with
      | nil => rfl
      | cons c tail =>
        have hc : isspace c = true := htail c rfl
        simp [skipSpace, hc]

/-- What `paramNextString` can return at all: a text without quotes, or a word. -/
def Token (w : List Byte) : Prop :=
  quote ∉ w ∨ (w ≠ [] ∧ (∀ b ∈ w, isspace b = false) ∧ w.head? ≠ some quote)

theorem head_skipSpace {s tail : List Byte} {b : Byte} (h : skipSpace s = b :: tail) :
    isspace b = false := by
  have hhead : b ∈ (skipSpace s).head? := by rw [h]; rfl
  exact skipSpace_head b hhead

/-- Not quoted, it is a word. -/
theorem unquoted_word {s tail : List Byte} {b : Byte} (h : skipSpace s = b :: tail)
    (hb : b ≠ quote) :
    let w := (b :: tail).takeWhile fun c => !isspace c && !([] : List Byte).contains c
    w ≠ [] ∧ (∀ c ∈ w, isspace c = false) ∧ w.head? ≠ some quote := by
  have hspace := head_skipSpace h
  have hcons : (b :: tail).takeWhile (fun c => !isspace c && !([] : List Byte).contains c) =
      b :: tail.takeWhile fun c => !isspace c && !([] : List Byte).contains c := by
    simp [hspace]
  refine ⟨?_, ?_, ?_⟩
  · rw [hcons]
    exact List.cons_ne_nil _ _
  · intro c hc
    have := List.mem_takeWhile_imp hc
    simpa using this
  · rw [hcons]
    exact fun hq => hb (Option.some.inj hq)

theorem nextString_token {s w rest : List Byte} (h : nextString s = some (w, rest)) : Token w := by
  obtain ⟨b, tail, hs, hcases⟩ := paramNextString_cases h
  rcases hcases with ⟨-, rfl, -⟩ | ⟨hb, rfl, -⟩
  · left
    intro hq
    have := List.mem_takeWhile_imp hq
    simp at this
  · right
    exact unquoted_word hs hb

/-- Behind an opening quote stands an element that was quoted for its space. -/
theorem quoted_start {l : List (List Byte)} (htok : ∀ a ∈ l, Token a) {t : List Byte}
    (h : skipSpace (joined elementText l) = quote :: t) : space ∈ t.takeWhile (· ≠ quote) := by
  induction l with
  | nil => cases h
  | cons a l ih =>
    have ha := htok a List.mem_cons_self
    rw [joined_cons] at h
    by_cases hspace : space ∈ a
    · have hquote : quote ∉ a := by
        rcases ha with ha | ⟨-, ha, -⟩
        · exact ha
        · exact absurd (ha space hspace) (by decide)
      rw [elementText, if_pos hspace] at h
      have ht : a ++ ([quote] ++ if l = [] then [] else 32 :: joined elementText l) = t := by
        rw [← (List.cons.inj h).2, ← List.append_assoc]
        rfl
      have hpos : ∀ b ∈ a, decide (b ≠ quote) = true := fun b hb =>
        decide_eq_true fun hq : b = quote => hquote (hq ▸ hb)
      rw [← ht, List.takeWhile_append_of_pos hpos]
      exact List.mem_append_left _ hspace
    · rw [elementText, if_neg hspace, skipSpace_append] at h
      split at h
      · split at h
        · cases h
        · exact ih (fun x hx => htok x (List.mem_cons_of_mem _ hx)) h
      · next hword =>
        obtain ⟨c, r, hr⟩ := List.exists_cons_of_ne_nil hword
        rw [hr] at h
        obtain rfl : c = quote := (List.cons.inj h).1
        rcases ha with ha | ⟨hne, hall, hhead⟩
        · exact absurd (skipSpace_subset (by rw [hr]; exact List.mem_cons_self)) ha
        · have hself : skipSpace a = a := by
            cases a with
            | nil => rfl
            | cons x a => simp [skipSpace, hall x List.mem_cons_self]
          rw [hself] at hr
          exact absurd (by rw [hr]; rfl) hhead

/-- An element that is the first one read is plain. -/
theorem plain_of_first {e : List Byte} {l : List (List Byte)} (htok : ∀ a ∈ l, Token a)
    (hclean : NoLineEnd e) (he : Token e) {rest : List Byte}
    (h : nextString (joined elementText (e :: l)) = some (e, rest)) : PlainElement e := by
  by_cases hspace : space ∈ e
  · have hquote : quote ∉ e := by
      rcases he with he | ⟨-, he, -⟩
      · exact he
      · exact absurd (he space hspace) (by decide)
    exact ⟨hclean, List.ne_nil_of_mem hspace, fun _ => hquote, fun hno => absurd hspace hno⟩
  · rcases he with hquote | ⟨hne, hword, hhead⟩
    · rw [joined_cons, elementText, if_neg hspace] at h
      obtain ⟨b, t, hs, hcases⟩ := paramNextString_cases h
      rcases hcases with ⟨rfl, het, -⟩ | ⟨hb, het, -⟩
      · exfalso
        rw [skipSpace_append] at hs
        split at hs
        · split at hs
          · cases hs
          · have hstart : skipSpace (joined elementText l) = quote :: t := hs
            exact hspace (het ▸ quoted_start htok hstart)
        · next hne =>
          obtain ⟨c, r, hr⟩ := List.exists_cons_of_ne_nil hne
          rw [hr] at hs
          obtain rfl : c = quote := (List.cons.inj hs).1
          exact hquote (skipSpace_subset (by rw [hr]; exact List.mem_cons_self))
      · have hw := unquoted_word hs hb
        rw [← het] at hw
        exact ⟨hclean, hw.1, fun hin => absurd hin hspace, fun _ => hw.2⟩
    · exact ⟨hclean, hne, fun hin => absurd hin hspace, fun _ => ⟨hword, hhead⟩⟩

theorem nextString_skipSpace (s : List Byte) : nextString (skipSpace s) = nextString s :=
  paramNextString_skipSpace s []

theorem plain_of_read {l : List (List Byte)} (htok : ∀ a ∈ l, NoLineEnd a ∧ Token a) {fuel : Nat}
    (h : paramList nextString fuel (joined elementText l) = (true, l)) :
    ∀ e ∈ l, PlainElement e := by
  induction l generalizing fuel with
  | nil => simp
  | cons e l ih =>
    have htail : ∀ a ∈ l, NoLineEnd a ∧ Token a := fun a ha => htok a (List.mem_cons_of_mem _ ha)
    obtain ⟨hclean, he⟩ := htok e List.mem_cons_self
    obtain ⟨rest, hfirst⟩ := paramList_first h
    have hplain := plain_of_first (fun a ha => (htail a ha).2) hclean he hfirst
    refine List.forall_mem_cons.mpr ⟨hplain, ?_⟩
    by_cases hl : l = []
    · simp [hl]
    · cases fuel with
      | zero => cases h
      | succ fuel =>
        rw [joined_cons, if_neg hl, paramList_cons nextString_skipSpace (readsBack_element hplain)
          (by simp [isspace])] at h
        have hskip : paramList nextString fuel (32 :: joined elementText l) =
            paramList nextString fuel (joined elementText l) := by
          rw [← paramList_skipSpace nextString_skipSpace,
            ← paramList_skipSpace nextString_skipSpace fuel (joined elementText l)]
          rfl
        rw [hskip] at h
        obtain ⟨hok, hlist⟩ := Prod.mk.inj h
        exact ih htail (Prod.ext hok (List.cons.inj hlist).2)

/-! ## What is delivered -/

theorem delivered_of_text {h : Handlers} (s : Waiting) {name : ValueName} {text : List Byte}
    {stored : List Byte → Prop} (htext : NoLineEnd text) (hstored : stored text) :
    Delivered h s (some (valueLine name text ++ [lf])) name stored :=
  ⟨_, _, _, rfl, handed_valueLine s htext, commandValue_valueLine name text, hstored⟩

/-- Of a text without line ends all is delivered, or nothing. -/
theorem Delivered.stored {h : Handlers} {s : Waiting} {name : ValueName} {text : List Byte}
    {stored : List Byte → Prop} (htext : NoLineEnd text)
    (hd : Delivered h s (some (valueLine name text ++ [lf])) name stored) : stored text := by
  obtain ⟨bytes, line, rest, hsent, hline, hrest, hstored⟩ := hd
  obtain rfl := Option.some.inj hsent
  rw [handed_valueLine s htext] at hline
  obtain rfl := List.singleton_inj.mp hline
  rw [commandValue_valueLine] at hrest
  obtain rfl := (Prod.mk.inj (Option.some.inj hrest)).2
  exact hstored

/-- `stored` asks of a text without line ends what `P` says. -/
theorem Delivered.noLineEnd {h : Handlers} {s : Waiting} {name : ValueName} {text : List Byte}
    {stored : List Byte → Prop} {P : Prop} (hnul : ∀ b ∈ text, b ≠ 0)
    (hstored : ∀ rest, NoLineEnd rest → stored rest → P)
    (hd : Delivered h s (some (valueLine name text ++ [lf])) name stored) : P := by
  obtain ⟨bytes, line, rest, hsent, hline, hrest, hst⟩ := hd
  obtain rfl := Option.some.inj hsent
  exact hstored rest (handed_rest s hnul hline hrest) hst

theorem setValue_quoted {v : List Byte} (h : quote ∉ v) (old : List Byte) :
    ValueString.setValue old (quote :: (v ++ [quote])) = (0, v) := by
  have hnext : paramNextString (quote :: (v ++ [quote])) [] = some (v, []) := nextString_quoted h []
  simp [ValueString.setValue, lastParam, hnext, paramEnd, skipSpace]

/-- What `ValueString` stores came out of the line between two quotes, or whole. -/
theorem setValue_subset {old s v : List Byte}
    (h : ValueString.setValue old s = (0, v)) : v ⊆ s := by
  unfold ValueString.setValue lastParam at h
  cases hp : paramNextString s [] with
  | none =>
    rw [hp] at h
    cases h
  | some r =>
    rw [hp] at h
    by_cases hend : paramEnd r.2 = true
    · rw [Option.bind_some, if_pos hend] at h
      obtain rfl := (Prod.mk.inj h).2
      exact (paramNextString_subset hp).1
    · rw [Option.bind_some, if_neg hend] at h
      cases h

theorem setValue_unquoted {old v : List Byte}
    (h : ValueString.setValue old (quote :: (v ++ [quote])) = (0, v)) : quote ∉ v := by
  unfold ValueString.setValue lastParam at h
  cases hp : paramNextString (quote :: (v ++ [quote])) [] with
  | none =>
    rw [hp] at h
    cases h
  | some r =>
    rw [hp] at h
    by_cases hend : paramEnd r.2 = true
    · rw [Option.bind_some, if_pos hend] at h
      have hw : r.1 = v := (Prod.mk.inj h).2
      have hquoted : r.1 = (v ++ [quote]).takeWhile (· ≠ quote) :=
        (congrArg Prod.fst (Option.some.inj hp)).symm
      intro hq
      rw [← hw, hquoted] at hq
      have hne := List.mem_takeWhile_imp hq
      simp at hne
    · rw [Option.bind_some, if_neg hend] at h
      cases h

/-- **Strings.** A `ValueString` is delivered when it holds no quote and no line
end. -/
theorem string_delivered_iff (h : Handlers) (s : Waiting) (state : ConnState) (name : ValueName)
    (v : List Byte) :
    Delivered h s (ValueString.send state name v) name
        (fun rest => ∀ old, ValueString.setValue old rest = (0, v)) ↔
      (state ≠ .inprogress ∧ state ≠ .unknow) ∧ NoLineEnd v ∧ quote ∉ v := by
  by_cases hstate : state = .inprogress ∨ state = .unknow
  · have hnone : ValueString.send state name v = none := if_pos hstate
    rw [hnone]
    constructor
    · rintro ⟨_, _, _, hsent, -⟩
      cases hsent
    · rintro ⟨⟨hprogress, hunknow⟩, -⟩
      exact (hstate.elim hprogress hunknow).elim
  · have hsend : ValueString.send state name v =
        some (valueLine name (quote :: (cstr v ++ [quote])) ++ [lf]) := if_neg hstate
    have htext : NoLineEnd v → NoLineEnd (quote :: (v ++ [quote])) := by
      intro hv b hb
      rcases List.mem_cons.mp hb with rfl | hb
      · decide
      rcases List.mem_append.mp hb with hb | hb
      · exact hv b hb
      · rw [List.mem_singleton.mp hb]
        decide
    have hself : NoLineEnd v → cstr v = v := fun hv => cstr_eq_self fun b hb => (hv b hb).1
    rw [hsend]
    constructor
    · intro hd
      have hnul : ∀ b ∈ quote :: (cstr v ++ [quote]), b ≠ 0 := by
        intro b hb
        rcases List.mem_cons.mp hb with rfl | hb
        · decide
        rcases List.mem_append.mp hb with hb | hb
        · exact cstr_no_nul v b hb
        · rw [List.mem_singleton.mp hb]
          decide
      have hv : NoLineEnd v := hd.noLineEnd hnul fun rest hrest hstored b hb =>
        hrest b (setValue_subset (hstored []) hb)
      rw [hself hv] at hd
      exact ⟨not_or.mp hstate, hv, setValue_unquoted (hd.stored (htext hv) [])⟩
    · rintro ⟨-, hv, hquote⟩
      rw [hself hv]
      exact delivered_of_text s (htext hv) (setValue_quoted hquote)

theorem elementText_noLineEnd {e : List Byte} (he : NoLineEnd e) : NoLineEnd (elementText e) := by
  unfold elementText
  split
  · intro b hb
    rcases List.mem_cons.mp hb with rfl | hb
    · decide
    rcases List.mem_append.mp hb with hb | hb
    · exact he b hb
    · rw [List.mem_singleton.mp hb]
      decide
  · exact he

theorem joined_noLineEnd {l : List (List Byte)} (h : ∀ e ∈ l, NoLineEnd e) :
    NoLineEnd (joined elementText l) := by
  induction l with
  | nil => simp [joined, NoLineEnd]
  | cons e l ih =>
    have htail := ih fun a ha => h a (List.mem_cons_of_mem _ ha)
    rw [joined_cons]
    intro b hb
    rcases List.mem_append.mp hb with hb | hb
    · exact elementText_noLineEnd (h e List.mem_cons_self) b hb
    · split at hb
      · cases hb
      · rcases List.mem_cons.mp hb with rfl | hb
        · decide
        · exact htail b hb

theorem nextString_params {s : List Byte} (hs : NoLineEnd s) :
    ∀ e ∈ (params nextString s).2, NoLineEnd e ∧ Token e :=
  paramList_all (Q := NoLineEnd) (fun _ _ _ hq hnext =>
    ⟨⟨fun b hb => hq b ((paramNextString_subset hnext).1 hb), nextString_token hnext⟩,
      fun b hb => hq b ((paramNextString_subset hnext).2 hb)⟩) _ hs

theorem setValue_array_iff {s : List Byte} {l : List (List Byte)} :
    StringArray.setValue s = (0, l) ↔ params nextString s = (true, l) := by
  unfold StringArray.setValue
  cases hp : params nextString s with
  | mk ok read => cases ok <;> simp

/-- **Arrays.** A `StringArray` is delivered when all its elements are plain. -/
theorem array_delivered_iff (h : Handlers) (s : Waiting) (state : ConnState) (name : ValueName)
    (l : List (List Byte)) :
    Delivered h s (StringArray.send state name l) name
        (fun rest => StringArray.setValue rest = (0, l)) ↔
      state ≠ .inprogress ∧ ∀ e ∈ l, PlainElement e := by
  by_cases hstate : state = .inprogress
  · have hnone : StringArray.send state name l = none := if_pos hstate
    rw [hnone]
    constructor
    · rintro ⟨_, _, _, hsent, -⟩
      cases hsent
    · rintro ⟨hprogress, -⟩
      exact (hprogress hstate).elim
  · have hsend : StringArray.send state name l =
        some (valueLine name (cstr (joined elementText l)) ++ [lf]) := if_neg hstate
    have hself : NoLineEnd (joined elementText l) →
        cstr (joined elementText l) = joined elementText l :=
      fun hl => cstr_eq_self fun b hb => (hl b hb).1
    rw [hsend]
    constructor
    · intro hd
      have htok : ∀ e ∈ l, NoLineEnd e ∧ Token e :=
        hd.noLineEnd (cstr_no_nul _) fun rest hrest hstored => by
          have hread := nextString_params hrest
          rw [setValue_array_iff.mp hstored] at hread
          exact hread
      have hclean := joined_noLineEnd fun e he => (htok e he).1
      rw [hself hclean] at hd
      exact ⟨hstate, plain_of_read htok (setValue_array_iff.mp (hd.stored hclean))⟩
    · rintro ⟨-, hplain⟩
      have hclean := joined_noLineEnd fun e he => (hplain e he).noLineEnd
      have hread := params_joined (f := id) nextString_skipSpace (l := l)
        fun e he => readsBack_element (hplain e he)
      rw [List.map_id] at hread
      rw [hself hclean]
      exact delivered_of_text s hclean (setValue_array_iff.mpr hread)

/-- **What a send delivers**: one line, and the value as it was, exactly for these
contents. -/
theorem sent_delivered_iff (h : Handlers) (s : Waiting) (state : ConnState) (name : ValueName) :
    (∀ v, Delivered h s (ValueString.send state name v) name
        (fun rest => ∀ old, ValueString.setValue old rest = (0, v)) ↔
      (state ≠ .inprogress ∧ state ≠ .unknow) ∧ NoLineEnd v ∧ quote ∉ v) ∧
    (∀ l, Delivered h s (StringArray.send state name l) name
        (fun rest => StringArray.setValue rest = (0, l)) ↔
      state ≠ .inprogress ∧ ∀ e ∈ l, PlainElement e) :=
  ⟨string_delivered_iff h s state name, array_delivered_iff h s state name⟩

/-- `OBJECT` -/
def objectName : ValueName where
  text := [79, 66, 74, 69, 67, 84]
  ne_nil := by decide
  word := forall_of_all (by decide)
  unquoted := by decide

/-- Of `a"b` the receiver reads `a` and refuses the rest; a string with LF in it
arrives as two lines. -/
theorem quote_refused :
    (commandValue (valueLine objectName (quote :: ([97, 34, 98] ++ [quote])))).map
        (fun r => ValueString.setValue [] r.2) = some (-2, []) ∧
    (ValueString.send .connected objectName [97, 10, 98]).map
        (fun bytes => (Recv.start.handed quietHandlers bytes).length) = some 2 ∧
    ¬ ∀ (h : Handlers) (s : Waiting) (name : ValueName) (v : List Byte),
        Delivered h s (ValueString.send .connected name v) name
          (fun rest => ∀ old, ValueString.setValue old rest = (0, v)) := by
  refine ⟨by decide +kernel, by decide +kernel, fun hall => ?_⟩
  have hidle : Idle .start := ⟨bounded_start, rfl, fun _ => by decide⟩
  have hd := hall quietHandlers ⟨.start, hidle, rfl⟩ objectName [97, 34, 98]
  have hclean : NoLineEnd (quote :: ([97, 34, 98] ++ [quote])) := forall_of_all (by decide)
  exact absurd (Delivered.stored hclean hd []) (by decide +kernel)

end Rts2.Values

import Mathlib.Data.List.Pairwise
import Rts2.Expression.Scanning

/-! # Written expressions

An expression is a first operand and operators with an operand behind each. The tree that is built is the
expression only if every operator is looser than those before it: then every operator takes the whole
tree on its left. -/
namespace Rts2.Rts2Expression
open Rts2.Lib
open Rts2.Lib.Strtod (isspace)

/-! ## The language -/

inductive Operand where
  | const (c : Constant)
  | value (v : DeviceValue)

namespace Operand

def text : Operand → List Char
  | const c => c.text
  | value v => v.text

/-- What an operand says. -/
def exact : Operand → Expression
  | const c => .const c.value
  | value v => .value v.deviceName v.valueName

end Operand

/-- An operator and the operand behind it. Blanks are needed only around a word. -/
structure Operation where
  before : List Char
  op : op_t
  sign : List Char
  after : List Char
  operand : Operand
  before_blank : ∀ c ∈ before, isspace c = true
  spelled : op.Spelled sign
  after_blank : ∀ c ∈ after, isspace c = true
  apart : op.isWord = true → before ≠ [] ∧ after ≠ []

def Operation.text (o : Operation) : List Char :=
  o.before ++ (o.sign ++ (o.after ++ o.operand.text))

structure Written where
  lead : List Char
  first : Operand
  operations : List Operation
  trail : List Char
  lead_blank : ∀ c ∈ lead, isspace c = true
  trail_blank : ∀ c ∈ trail, isspace c = true

def behind (operations : List Operation) (trail : List Char) : List Char :=
  operations.flatMap Operation.text ++ trail

def Written.text (w : Written) : List Char :=
  w.lead ++ (w.first.text ++ behind w.operations w.trail)

/-- Every operand and operator is in the tree, and the tree has the value of the expression. -/
structure Faithful (w : Written) (t : Expression) : Prop where
  operands : t.operands = w.first.exact :: w.operations.map fun o => o.operand.exact
  operators : t.operators = w.operations.map Operation.op
  value : ∃ ast, Reads w.first.exact (w.operations.map fun o => (o.op, o.operand.exact)) ast ∧
    ∀ (D : Type) (m : Doubles D) (getValue : List Char → List Char → Option D),
      t.evaluate m getValue = (Expression.ofTree ast).evaluate m getValue

/-- What the parser can read. -/
structure Readable (w : Written) : Prop where
  /-- Every operator is looser than those before it. -/
  looser : (w.operations.map Operation.op).Pairwise (· > ·)
  /-- A device value is the first operand only. -/
  constants : ∀ o ∈ w.operations, ∃ c, o.operand = .const c
  plain : ∀ x ∈ w.first :: w.operations.map Operation.operand, ∀ c, x = .const c → c.Plain
  before : ∀ o ∈ w.operations, o.before ≠ []
  /-- The character behind an operator is a blank, or a zero with more of the constant behind it. -/
  after : ∀ o ∈ w.operations, ∀ c, o.operand = .const c →
    o.after ≠ [] ∨ c.whole.head? = some '0' ∧ c.tailText ≠ []
  trail : w.trail ≠ []

/-! ## One operation -/

def Number.value? : Number → Option ℚ
  | val v => some v
  | secondPoint => none
  | otherChar => none

def readNumber (str : List Char) : Option ℚ := if str = [] then none else (numberLoop str 0 0).value?

namespace Operation

/-- The constant of an operation as the scanner comes to it. -/
def numberText (o : Operation) (c : Constant) : List Char :=
  if o.after = [] then c.tailText else c.text

/-- The number that is read of an operation. -/
def read (o : Operation) : Option ℚ :=
  match o.operand with
  | .const c => readNumber (o.numberText c)
  | .value _ => none

end Operation

theorem readNumber_eq {str : List Char} {v : ℚ} (h : IsNumber str v) : readNumber str = some v := by
  obtain ⟨c, w, rfl, -⟩ := h.digit
  unfold readNumber
  rw [if_neg (List.cons_ne_nil c w), h.loop]
  rfl

/-- What is left of a constant is nothing, or a number. -/
theorem Constant.tailText_isNumber (c : Constant) (h : c.tailText ≠ []) :
    ∃ v, IsNumber c.tailText v := by
  obtain ⟨d, w, hw⟩ := List.exists_cons_of_ne_nil c.whole_ne
  rcases c.tailText_cases hw with ⟨-, htext⟩ | ⟨c', -, -, htext⟩
  · rw [htext] at h ⊢
    have hplaces := (⟨c.places, none, h, c.places_digits, fun f hf => by cases hf⟩ : Constant).text_isNumber
    unfold text at hplaces
    rw [Option.elim_none, List.append_nil] at hplaces
    exact ⟨_, hplaces⟩
  · rw [htext]
    exact ⟨_, c'.text_isNumber⟩

section
variable {o : Operation} {c : Constant}

theorem Operation.numberText_isNumber (h : o.numberText c ≠ []) : ∃ v, IsNumber (o.numberText c) v := by
  unfold numberText at h ⊢
  by_cases hafter : o.after = []
  · rw [if_pos hafter] at h ⊢
    exact c.tailText_isNumber h
  · rw [if_neg hafter]
    exact ⟨_, c.text_isNumber⟩

/-- When the constant of an operation is read exactly. -/
theorem Operation.read_eq_iff (ho : o.operand = .const c) : o.read = some c.value ↔
    c.Plain ∧ (o.after ≠ [] ∨ c.whole.head? = some '0' ∧ c.tailText ≠ []) := by
  have hread : o.read = readNumber (o.numberText c) := by
    unfold read
    rw [ho]
  have hvalue : ∀ {str : List Char} {v : ℚ}, IsNumber str v →
      (readNumber str = some c.value ↔ numberLoop str 0 0 = .val c.value) := by
    intro str v hs
    rw [readNumber_eq hs, hs.loop, Option.some.injEq, Number.val.injEq]
  rw [hread]
  unfold numberText
  by_cases hafter : o.after = []
  · rw [if_pos hafter]
    by_cases htail : c.tailText = []
    · rw [htail]
      simp [readNumber, hafter]
    · obtain ⟨v, hv⟩ := c.tailText_isNumber htail
      rw [hvalue hv, c.tailText_reads_iff]
      simp [hafter, htail, and_comm]
  · rw [if_neg hafter, hvalue c.text_isNumber, c.reads_iff]
    simp [hafter]

end

/-! ## Scanning an operation -/

/-- No character of a number stands in front. -/
def NoNumber (str : List Char) : Prop := ∀ d ∈ str.head?, d ≠ '.' ∧ d.isDigit = false

theorem noNumber_blank {c : Char} (hc : isspace c = true) : c ≠ '.' ∧ c.isDigit = false := by
  refine ⟨?_, ?_⟩
  · rintro rfl
    cases hc
  · rw [← Bool.not_eq_true]
    intro hdigit
    have hword := wordChar_of_isDigit hdigit
    rw [wordChar, hc] at hword
    cases hword

section
variable {o : Operation} {os : List Operation} {trail : List Char}

theorem behind_cons (o : Operation) (os : List Operation) (trail : List Char) :
    behind (o :: os) trail = o.text ++ behind os trail := by
  unfold behind
  rw [List.flatMap_cons, List.append_assoc]

/-- A blank is in front if one is written there. -/
theorem Operation.text_apart (o : Operation) (rest : List Char) :
    Apart (o.text ++ rest) ↔ o.before ≠ [] := by
  unfold text
  cases hbefore : o.before with
  | nil =>
    obtain ⟨c, w, hsign, hc, -, -⟩ := o.spelled.head
    rw [hsign]
    simpa [Apart, wordChar] using hc
  | cons c w =>
    have hc := o.before_blank c (hbefore ▸ List.mem_cons_self)
    exact ⟨fun _ => List.cons_ne_nil c w, fun _ => hc⟩

theorem behind_apart (hbefore : ∀ o ∈ os, o.before ≠ []) (hne : trail ≠ [])
    (htrail : ∀ c ∈ trail, isspace c = true) : Apart (behind os trail) := by
  cases os with
  | nil =>
    obtain ⟨c, w, rfl⟩ := List.exists_cons_of_ne_nil hne
    exact htrail c List.mem_cons_self
  | cons o os =>
    rw [behind_cons]
    exact (o.text_apart _).mpr (hbefore o List.mem_cons_self)

theorem behind_noNumber (htrail : ∀ c ∈ trail, isspace c = true) : NoNumber (behind os trail) := by
  intro d hd
  cases os with
  | nil => exact noNumber_blank (htrail d (List.mem_of_mem_head? hd))
  | cons o os =>
    rw [behind_cons, Operation.text] at hd
    cases hbefore : o.before with
    | nil =>
      obtain ⟨c, w, hsign, -, hpoint, hdigit⟩ := o.spelled.head
      rw [hbefore, hsign] at hd
      obtain rfl := Option.some.inj hd
      exact ⟨hpoint, hdigit⟩
    | cons c w =>
      rw [hbefore] at hd
      obtain rfl := Option.some.inj hd
      exact noNumber_blank (o.before_blank c (hbefore ▸ List.mem_cons_self))

end

/-- Behind the operator a blank or the first character of the constant is passed over. -/
theorem Operation.behind_sign (o : Operation) {c : Constant} (ho : o.operand = .const c)
    (rest : List Char) : ∃ d tail, o.after ++ (o.operand.text ++ rest) = d :: tail ∧ d ≠ '=' ∧
      (o.op.isWord = true → isspace d = true) ∧ ∀ exp1 op,
        parseFrom (.live (.half exp1 op)) tail =
          parseFrom (.live (.half exp1 op)) (o.numberText c ++ rest) := by
  have htext : o.operand.text = c.text := by
    rw [ho]
    rfl
  rw [htext]
  unfold numberText
  cases hafter : o.after with
  | cons d blanks =>
    have hd := o.after_blank d (hafter ▸ List.mem_cons_self)
    have hblanks : ∀ x ∈ blanks, isspace x = true := fun x hx =>
      o.after_blank x (hafter ▸ List.mem_cons_of_mem d hx)
    refine ⟨d, blanks ++ (c.text ++ rest), rfl, ?_, fun _ => hd, fun exp1 op => ?_⟩
    · rintro rfl
      cases hd
    · rw [if_neg (List.cons_ne_nil d blanks), parseFrom_blanks _ hblanks]
  | nil =>
    obtain ⟨d, w, hw⟩ := List.exists_cons_of_ne_nil c.whole_ne
    have hd := c.whole_digits d (hw ▸ List.mem_cons_self)
    have hsplit : c.text = d :: (w ++ c.fraction.elim [] ('.' :: ·)) := by
      unfold Constant.text
      rw [hw, List.cons_append]
    refine ⟨d, w ++ c.fraction.elim [] ('.' :: ·) ++ rest, ?_, ?_, ?_, fun exp1 op => ?_⟩
    · rw [hsplit, List.nil_append, List.cons_append]
    · rintro rfl
      cases hd
    · intro hword
      exact absurd hafter (o.apart hword).2
    · rw [if_pos rfl]
      unfold Constant.tailText Constant.places
      rw [hw, List.tail_cons]
      by_cases hnil : w = []
      · rw [if_pos hnil, hnil]
        cases c.fraction with
        | none => rfl
        | some f => exact parseFrom_point exp1 op (f ++ rest)
      · rw [if_neg hnil]

/-- What is done with an operation: the scan stops, or it goes on behind the operation with its number
in the tree. -/
inductive Stepped (e : Expression) (x : op_t × Option ℚ) (rest : List Char) :
    Except Stop Expression → Prop where
  | stopped (stop : Stop) (h : Apart rest → ∀ e', e.addItem x ≠ .ok e') :
    Stepped e x rest (.error stop)
  | next (e' : Expression) (h : e.addItem x = .ok e') (hrest : x.2 ≠ none → Apart rest) :
    Stepped e x rest (parseFrom (.live e') rest)

theorem Operation.stepped (o : Operation) {c : Constant} (ho : o.operand = .const c) {e : Expression}
    (he : e.Boundary) {rest : List Char} (hrest : NoNumber rest) :
    Stepped e (o.op, o.read) rest (parseFrom (.live e) (o.text ++ rest)) := by
  obtain ⟨d, tail, htext, hd, hword, htail⟩ := o.behind_sign ho rest
  have hread : o.read = readNumber (o.numberText c) := by
    unfold read
    rw [ho]
  have hparse : parseFrom (.live e) (o.text ++ rest) =
      (thrown (e.addOp o.op)).bind fun e => parseFrom (.live e) tail := by
    unfold text
    rw [List.append_assoc, parseFrom_blanks _ o.before_blank, List.append_assoc, List.append_assoc,
      htext, parseFrom_operator o.spelled hd hword he]
  rw [hparse]
  cases hadd : e.addOp o.op with
  | error msg =>
    refine .stopped _ fun _ e' => ?_
    unfold Expression.addItem
    rw [hadd]
    exact fun h => by cases h
  | ok e' =>
    obtain ⟨exp1, rfl⟩ := he.addOp hadd
    show Stepped e (o.op, o.read) rest (parseFrom (.live (.half exp1 o.op)) tail)
    have hitem : e.addItem (o.op, o.read) = (Expression.half exp1 o.op).addExp (o.read.map .const) := by
      unfold Expression.addItem
      rw [hadd]
      rfl
    rw [Expression.addExp_half] at hitem
    rw [htail]
    by_cases hempty : o.numberText c = []
    · have hnone : o.read = none := by
        rw [hread, hempty]
        rfl
      rw [hempty, List.nil_append]
      refine .next _ ?_ fun h => absurd hnone h
      rw [hitem, hnone]
      rfl
    · obtain ⟨v, hv⟩ := numberText_isNumber hempty
      have hsome : o.read = some v := hread.trans (readNumber_eq hv)
      rw [hsome, Option.elim_some] at hitem
      rw [hsome]
      have hnum : ∀ text,
          Scan.add ⟨text, .live (.const v), .live (.half exp1 o.op), none⟩ =
            .ok ⟨text, .null, .live (.pair exp1 o.op (.const v)), none⟩ := fun _ => rfl
      rcases parseFrom_number (b := .operand) hv Ptr.noConfusion ⟨_, .pairConst exp1 o.op v, rfl⟩ hnum
        hrest with ⟨hapart, hgo⟩ | ⟨hapart, stop, hstop⟩
      · rw [hgo]
        exact .next _ hitem fun _ => hapart
      · rw [hstop]
        exact .stopped stop fun h => absurd h hapart

/-! ## Scanning an expression -/

theorem parseFrom_trail {trail : List Char} (htrail : ∀ c ∈ trail, isspace c = true) (e : Expression) :
    parseFrom (.live e) trail = e.check.elim (.ok e) fun msg => .error (.error msg) := by
  have hblanks := parseFrom_blanks (.live e) htrail []
  rw [List.append_nil] at hblanks
  rw [hblanks]
  rfl

section
variable {e t : Expression} {os : List Operation} {trail : List Char}
  (hconst : ∀ o ∈ os, ∃ c, o.operand = .const c) (htrail : ∀ c ∈ trail, isspace c = true)
include hconst htrail

/-- A text that is parsed builds its tree, and has blanks in front of its operators if every constant is
read. -/
theorem parse_build (he : e.Boundary) (ht : parseFrom (.live e) (behind os trail) = .ok t) :
    e.build (os.map fun o => (o.op, o.read)) = .ok t ∧
      (Apart (behind os trail) → (∀ o ∈ os, o.read ≠ none) →
        (∀ o ∈ os, o.before ≠ []) ∧ trail ≠ []) := by
  induction os generalizing e with
  | nil =>
    rw [show behind [] trail = trail from rfl] at ht ⊢
    refine ⟨?_, fun hapart _ => ⟨fun o ho => (by cases ho), ?_⟩⟩
    · rw [parseFrom_trail htrail] at ht
      cases hcheck : e.check with
      | none =>
        rw [hcheck] at ht
        exact congrArg Except.ok (Except.ok.inj ht)
      | some msg => simp [hcheck] at ht
    · rintro rfl
      exact hapart
  | cons o os ih =>
    obtain ⟨c, ho⟩ := hconst o List.mem_cons_self
    rw [behind_cons] at ht ⊢
    have hnumber : NoNumber (behind os trail) := behind_noNumber htrail
    have hstep := o.stepped ho he hnumber
    rw [ht] at hstep
    generalize hresult : (Except.ok t : Except Stop Expression) = result at hstep
    cases hstep with
    | stopped stop h => cases hresult
    | next e' hadd hrest =>
      have hboundary := (Expression.addItem_spec he hadd).boundary
      obtain ⟨hbuild, hblanks⟩ :=
        ih (fun o' ho' => hconst o' (List.mem_cons_of_mem o ho')) hboundary hresult.symm
      refine ⟨?_, fun hapart hread => ?_⟩
      · rw [List.map_cons, Expression.build, hadd]
        exact hbuild
      · obtain ⟨hbefore, htrail'⟩ := hblanks (hrest (hread o List.mem_cons_self))
          fun o' ho' => hread o' (List.mem_cons_of_mem o ho')
        exact ⟨List.forall_mem_cons.mpr ⟨(o.text_apart _).mp hapart, hbefore⟩, htrail'⟩

/-- With blanks in front of its operators a text builds its tree. -/
theorem build_parse (he : e.Boundary) (hbefore : ∀ o ∈ os, o.before ≠ []) (htrail' : trail ≠ [])
    (hbuild : e.build (os.map fun o => (o.op, o.read)) = .ok t) (ht : t.Complete) :
    parseFrom (.live e) (behind os trail) = .ok t := by
  induction os generalizing e with
  | nil =>
    obtain rfl := Except.ok.inj hbuild
    rw [show behind [] trail = trail from rfl, parseFrom_trail htrail, e.check_eq_none.mpr ht]
    rfl
  | cons o os ih =>
    obtain ⟨c, ho⟩ := hconst o List.mem_cons_self
    have hbefore' : ∀ o' ∈ os, o'.before ≠ [] := fun o' ho' => hbefore o' (List.mem_cons_of_mem o ho')
    have hapart := behind_apart hbefore' htrail' htrail
    rw [behind_cons]
    rw [List.map_cons, Expression.build] at hbuild
    have hnumber : NoNumber (behind os trail) := behind_noNumber htrail
    have hstep := o.stepped ho he hnumber
    generalize hresult : parseFrom (.live e) (o.text ++ behind os trail) = result at hstep
    cases hadd : e.addItem (o.op, o.read) with
    | error msg =>
      rw [hadd] at hbuild
      cases hbuild
    | ok e' =>
      rw [hadd] at hbuild
      cases hstep with
      | stopped stop h => exact absurd hadd (h hapart e')
      | next e'' hadd' hrest =>
        obtain rfl := Except.ok.inj (hadd.symm.trans hadd')
        exact ih (fun o' ho' => hconst o' (List.mem_cons_of_mem o ho'))
          (Expression.addItem_spec he hadd).boundary hbefore' hbuild

end

/-! ## The first operand -/

/-- A value that is not in a tree does not come into it. -/
theorem parseFrom_lost {val x t : Expression} (hclosed : val.Closed) (hx : x ∉ val.operands)
    (hconst : ∀ v, x ≠ .const v) {str : List Char} (ht : parseFrom (.live val) str = .ok t) :
    x ∉ t.operands := by
  have hgrows : ∀ p p', Grows p p' → (p ≠ .null ∧ ∀ e, p = .live e → x ∉ e.operands) →
      p' ≠ .null ∧ ∀ e, p' = .live e → x ∉ e.operands := by
    rintro p p' hgrows ⟨hnull, hnot⟩
    cases hgrows with
    | same => exact ⟨hnull, hnot⟩
    | const v => exact absurd rfl hnull
    | value deviceName valueName => exact absurd rfl hnull
    | @operator e e' op hadd =>
      refine ⟨Ptr.noConfusion, fun e'' he hmem => ?_⟩
      rw [← Ptr.live.inj he] at hmem
      exact hnot e rfl ((Expression.addOp_operands hadd).mem hmem)
    | operand exp1 op v =>
      refine ⟨Ptr.noConfusion, fun e he hmem => ?_⟩
      rw [← Ptr.live.inj he] at hmem
      rcases List.mem_append.mp hmem with hold | hnew
      · exact hnot _ rfl hold
      · exact hconst v (List.mem_singleton.mp hnew)
  refine (Ready.loop_invariant (b := .operand) hgrows ⟨rfl, rfl, val, hclosed, rfl⟩
    ⟨Ptr.noConfusion, ?_⟩ ht).2 t rfl
  intro e he
  rw [← Ptr.live.inj he]
  exact hx

/-- What is read of a constant in front. -/
def Operand.read : Operand → Expression
  | const c => .const (natFrom (natOf c.whole) (c.places.drop 63) : ℕ)
  | value v => .value v.deviceName v.valueName

theorem Operand.read_closed (x : Operand) : x.read.Closed := by
  cases x with
  | const c => exact .const _
  | value v => exact .value _ _

theorem Operand.read_top (x : Operand) : x.read.top = none ∧ x.read.operands = [x.read] := by
  cases x with
  | const c => exact ⟨rfl, rfl⟩
  | value v => exact ⟨rfl, rfl⟩

/-- The first operand is read if a blank is behind it; a value that goes on is another value. -/
theorem parse_first (x : Operand) {rest : List Char} (hrest : NoNumber rest) :
    Apart rest ∧ parseFrom .null (x.text ++ rest) = parseFrom (.live x.read) rest ∨
      ¬ Apart rest ∧ ∀ t, parseFrom .null (x.text ++ rest) = .ok t → x.exact ∉ t.operands := by
  cases x with
  | const c =>
    have hnum : ∀ (v : ℚ) text, Scan.add ⟨text, .live (.const v), .null, none⟩ =
        .ok ⟨text, .null, .live (.const v), none⟩ := fun _ _ => rfl
    rcases parseFrom_number (b := .operand) c.text_isNumber Ptr.noConfusion ⟨_, .const _, rfl⟩ (hnum _)
      hrest with hread | ⟨hapart, stop, hstop⟩
    · exact .inl hread
    · refine .inr ⟨hapart, fun t ht => ?_⟩
      rw [show (Operand.const c).text = c.text from rfl, hstop] at ht
      cases ht
  | value v =>
    obtain ⟨w, r, rfl, hw, hr⟩ := cut_exists wordChar rest
    have hparse := parseFrom_value v hw hr
    rw [show (Operand.value v).text = v.text from rfl, hparse]
    cases r with
    | nil =>
      rw [if_pos rfl, List.append_nil]
      refine .inr ⟨fun hapart => ?_, fun t ht => by cases ht⟩
      cases w with
      | nil => exact hapart
      | cons d w =>
        have hd := hw d List.mem_cons_self
        rw [wordChar, show isspace d = true from hapart] at hd
        cases hd
    | cons d r =>
      rw [if_neg (List.cons_ne_nil d r)]
      cases w with
      | nil =>
        rw [List.append_nil]
        exact .inl ⟨by simpa [Apart, wordChar] using hr d rfl, rfl⟩
      | cons d' w =>
        have hd' := hw d' List.mem_cons_self
        refine .inr ⟨by simpa [Apart, wordChar] using hd', fun t ht => ?_⟩
        refine parseFrom_lost (.value _ _) ?_ (fun _ => Expression.noConfusion) ht
        intro hmem
        have hname := List.mem_singleton.mp hmem
        simp [Operand.exact] at hname

/-- When the first operand is read exactly. -/
theorem Operand.read_eq_iff (x : Operand) : x.read = x.exact ↔ ∀ c, x = .const c → c.Plain := by
  cases x with
  | value v => exact ⟨fun _ c h => (by cases h), fun _ => rfl⟩
  | const c =>
    have hread : (Operand.const c).read = (Operand.const c).exact ↔ c.Plain := by
      rw [← c.reads_iff, c.numberLoop_text, Number.val.injEq]
      exact Expression.const.injEq _ _ ▸ Iff.rfl
    rw [hread]
    constructor
    · rintro hplain c' h
      obtain rfl := Operand.const.inj h
      exact hplain
    · exact fun h => h c rfl

/-! ## The whole text -/

section
variable {w : Written}

theorem parseExpression_text : parseExpression w.text =
    parseFrom .null (w.first.text ++ behind w.operations w.trail) :=
  parseFrom_blanks .null w.lead_blank _

theorem Faithful.readable {t : Expression} (h : Faithful w t) (ht : parseExpression w.text = .ok t) :
    Readable w := by
  have hoperands := h.operands
  have hconst : ∀ o ∈ w.operations, ∃ c, o.operand = .const c := by
    intro o ho
    have hmem : o.operand.exact ∈ t.operands.tail := by
      rw [hoperands]
      exact List.mem_map_of_mem (f := fun o : Operation => o.operand.exact) ho
    obtain ⟨val, hval⟩ := parse_tailConst ht _ hmem
    cases hoperand : o.operand with
    | const c => exact ⟨c, rfl⟩
    | value v =>
      rw [hoperand] at hval
      cases hval
  rw [parseExpression_text] at ht
  rcases parse_first w.first (behind_noNumber w.trail_blank) with ⟨hapart, hfirst⟩ | ⟨-, hlost⟩
  swap
  · exact absurd (hoperands ▸ List.mem_cons_self) (hlost t ht)
  rw [hfirst] at ht
  obtain ⟨hbuild, hblanks⟩ := parse_build hconst w.trail_blank (.inl w.first.read_closed) ht
  obtain ⟨-, hwhole⟩ := Expression.build_spec (.inl w.first.read_closed) hbuild
  obtain ⟨htop, hsingle⟩ := w.first.read_top
  rw [htop, hsingle, hoperands] at hwhole
  obtain ⟨hchain, vals, hvals, hlist⟩ := hwhole (by simp [Nat.add_comm])
  rw [List.singleton_append] at hlist
  obtain ⟨hexact, hlist⟩ := List.cons.inj hlist
  -- every constant is read as it is written
  have hread : ∀ o ∈ w.operations, o.read.map .const = some o.operand.exact := by
    have hmap := congrArg (List.map (Option.map Expression.const)) hvals
    rw [List.map_map, List.map_map, List.map_map] at hmap
    have hmap' := congrArg (List.map some) hlist
    rw [List.map_map, List.map_map] at hmap'
    exact List.map_inj_left.mp (hmap.trans hmap'.symm)
  have hreadc : ∀ o ∈ w.operations, ∀ c, o.operand = .const c → o.read = some c.value := by
    intro o ho c hc
    have hmap := hread o ho
    rw [hc] at hmap
    obtain ⟨v, hv, hconst⟩ := Option.map_eq_some_iff.mp hmap
    rw [hv, Expression.const.inj hconst]
  have hsome : ∀ o ∈ w.operations, o.read ≠ none := by
    intro o ho
    obtain ⟨c, hc⟩ := hconst o ho
    rw [hreadc o ho c hc]
    exact Option.some_ne_none _
  obtain ⟨hbefore, htrail⟩ := hblanks hapart hsome
  have hiff := fun o ho c hc => (Operation.read_eq_iff hc).mp (hreadc o ho c hc)
  refine ⟨?_, hconst, ?_, hbefore, fun o ho c hc => (hiff o ho c hc).2, htrail⟩
  · rw [List.map_map] at hchain
    exact List.isChain_iff_pairwise.mp hchain
  · intro x hx c hc
    rcases List.mem_cons.mp hx with rfl | hx
    · exact w.first.read_eq_iff.mp hexact.symm c hc
    · obtain ⟨o, ho, rfl⟩ := List.mem_map.mp hx
      exact (hiff o ho c hc).1

/-- The number of a constant. -/
def Operand.num : Operand → ℚ
  | const c => c.value
  | value _ => 0

theorem Readable.faithful (h : Readable w) : ∃ t, parseExpression w.text = .ok t ∧ Faithful w t := by
  have hexact : ∀ o ∈ w.operations, o.operand.exact = .const o.operand.num := by
    intro o ho
    obtain ⟨c, hc⟩ := h.constants o ho
    rw [hc]
    rfl
  have hread : ∀ o ∈ w.operations, o.read = some o.operand.num := by
    intro o ho
    obtain ⟨c, hc⟩ := h.constants o ho
    have hplain := h.plain o.operand (List.mem_cons_of_mem _ (List.mem_map_of_mem ho)) c hc
    rw [(Operation.read_eq_iff hc).mpr ⟨hplain, h.after o ho c hc⟩, hc]
    rfl
  have hfirst : w.first.read = w.first.exact := w.first.read_eq_iff.mpr (h.plain _ List.mem_cons_self)
  have hleaf : ∀ op, w.first.exact.addOp op = .ok (.half w.first.exact op) := by
    intro op
    cases w.first with
    | const c => rfl
    | value v => rfl
  have hclosed : w.first.exact.Closed := hfirst ▸ w.first.read_closed
  have horder : ((w.operations.map fun o => (o.op, o.operand.num)).map Prod.fst).Pairwise (· > ·) := by
    rw [List.map_map]
    exact h.looser
  obtain ⟨ast, hbuild, hreads, hoperands, hoperators, hcomplete⟩ :=
    Expression.build_reads (.leaf w.first.exact) (fun op _ => hleaf op) _ horder
  rw [List.map_map] at hbuild hreads hoperands hoperators
  have hbuild : w.first.read.build (w.operations.map fun o => (o.op, o.read)) =
      .ok (.ofTree ast) := by
    rw [hfirst, ← hbuild]
    exact congrArg _ (List.map_congr_left fun o ho => by rw [hread o ho]; rfl)
  have hwhole : (Expression.ofTree ast).Complete := hcomplete (by
    cases hclosed : w.first with
    | const c => exact trivial
    | value v => exact trivial)
  refine ⟨.ofTree ast, ?_, ?_, ?_, ast, ?_, fun D m getValue => rfl⟩
  · have hapart := behind_apart h.before h.trail w.trail_blank
    rw [parseExpression_text]
    rcases parse_first w.first (behind_noNumber w.trail_blank) with ⟨-, hgo⟩ | ⟨hnot, -⟩
    · rw [hgo]
      exact build_parse h.constants w.trail_blank (.inl w.first.read_closed) h.before h.trail hbuild hwhole
    · exact absurd hapart hnot
  · have hone : (Expression.ofTree (.leaf w.first.exact)).operands = [w.first.exact] :=
      hfirst ▸ w.first.read_top.2
    rw [hoperands, hone]
    exact congrArg _ (List.map_congr_left fun o ho => (hexact o ho).symm)
  · have hnone : (Expression.ofTree (.leaf w.first.exact)).operators = [] := by
      cases w.first with
      | const c => rfl
      | value v => rfl
    rw [hoperators, hnone]
    rfl
  · have hmap : (w.operations.map fun o => (o.op, o.operand.exact)) =
        w.operations.map fun o => (o.op, Expression.const o.operand.num) :=
      List.map_congr_left fun o ho => by rw [hexact o ho]
    rw [hmap]
    exact hreads

end

/-- **Values.** The tree that is built is the written expression if and only if this is readable. -/
theorem parse_faithful_iff (w : Written) :
    (∃ t, parseExpression w.text = .ok t ∧ Faithful w t) ↔ Readable w := by
  constructor
  · rintro ⟨t, ht, hfaithful⟩
    exact hfaithful.readable ht
  · exact Readable.faithful

/-- A constant of one digit. -/
def Operand.digit (c : Char) (h : c.isDigit = true) : Operand :=
  .const ⟨[c], none, List.cons_ne_nil c [], by simpa using h, fun f hf => by cases hf⟩

theorem blank : ∀ c ∈ [' '], isspace c = true := List.forall_mem_singleton.mpr rfl

/-- The text `0 and 1 == 1 `; `and` is the loosest operator. -/
def lostOperand : Written where
  lead := []
  first := .digit '0' rfl
  operations :=
    [⟨[' '], .AND, ['a', 'n', 'd'], [' '], .digit '1' rfl, blank, rfl, blank, by decide⟩,
      ⟨[' '], .EQU, ['=', '='], [' '], .digit '1' rfl, blank, rfl, blank, by decide⟩]
  trail := [' ']
  lead_blank := fun c hc => by cases hc
  trail_blank := blank

/-- The tree of `1 == 1` is built. -/
theorem lostOperand_not_faithful :
    ¬ ∃ t, parseExpression lostOperand.text = .ok t ∧ Faithful lostOperand t := by
  rintro ⟨t, ht, hfaithful⟩
  have hparse : parseExpression lostOperand.text = .ok (.pair (.const 1) .EQU (.const 1)) := by
    decide +kernel
  obtain rfl := Except.ok.inj (hparse.symm.trans ht)
  have hlen := congrArg List.length hfaithful.operators
  exact absurd hlen (by decide)

end Rts2.Rts2Expression

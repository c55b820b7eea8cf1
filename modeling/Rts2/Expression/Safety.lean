import Rts2.Expression.Parser

/-! # Which texts are safe to parse

What the scan does with a token depends on the last operand or operator before it. An operator in front
of all operands is added to no tree, a device value behind an operand deletes the tree it is added to,
and a token that goes to the end of the text takes the index behind it. -/
namespace Rts2.Rts2Expression
open Rts2.Lib.Strtod (isspace)

/-! ## Tokens -/

inductive Kind where
  | value
  | number
  | operator (op : op_t)
  | other
  /-- A word without a point, a number with other characters, an unknown operator. -/
  | bad
  deriving DecidableEq

def Token.kind : Token → Kind
  | .word val =>
    match keyword val with
    | some op => .operator op
    | none => if '.' ∈ val then .value else .bad
  | .number val =>
    match numberLoop val 0 0 with
    | .val _ => .number
    | .secondPoint => .bad
    | .otherChar => .bad
  | .operator val => (comparison val).elim .bad .operator
  | .other => .other

/-- The tokens of a text, and whether the last one goes to its end. A character behind a token is
passed over. -/
def tokens : ℕ → List Char → List Token × Bool
  | 0, _ => ([], false)
  | _ + 1, [] => ([], false)
  | fuel + 1, c :: str =>
    if isspace c then tokens fuel str
    else
      match (token (c :: str)).2 with
      | [] => ([(token (c :: str)).1], true)
      | _ :: str' => ((token (c :: str)).1 :: (tokens fuel str').1, (tokens fuel str').2)

/-- The last operand or operator. -/
inductive Before where
  | nothing
  | operand
  | operator (op : op_t)
  deriving DecidableEq

/-- An error is thrown: the token is bad, an operand or another character stands behind an operand,
or an operator behind one that is not tighter. -/
def Before.rejects : Before → Kind → Bool
  | _, .bad => true
  | .operand, .number => true
  | .operand, .other => true
  | .operator op, .operator op' => !decide (op' < op)
  | _, _ => false

/-- An operator has no operand, or a device value is not the first one. -/
def Before.misuses : Before → Kind → Bool
  | .nothing, .operator _ => true
  | .operand, .value => true
  | .operator _, .value => true
  | _, _ => false

def Before.next : Before → Kind → Before
  | _, .value => .operand
  | _, .number => .operand
  | _, .operator op => .operator op
  | b, _ => b

/-- The tokens are safe up to the first that is rejected, and one that goes to the end of the text
is rejected. -/
def Sound : Before → List Kind → Bool → Prop
  | _, [], toEnd => toEnd = false
  | b, k :: ks, toEnd => b.rejects k = true ∨ b.misuses k = false ∧ Sound (b.next k) ks toEnd

/-- A text whose tokens are sound. -/
def SoundText (str : List Char) : Prop :=
  Sound .nothing ((tokens (str.length + 1) str).1.map Token.kind) (tokens (str.length + 1) str).2

instance Sound.instDecidable : ∀ b ks toEnd, Decidable (Sound b ks toEnd)
  | _, [], toEnd => inferInstanceAs (Decidable (toEnd = false))
  | b, k :: ks, toEnd =>
    have := Sound.instDecidable (b.next k) ks toEnd
    inferInstanceAs (Decidable (b.rejects k = true ∨ b.misuses k = false ∧ Sound (b.next k) ks toEnd))

instance SoundText.instDecidable (str : List Char) : Decidable (SoundText str) :=
  Sound.instDecidable _ _ _

/-- Every side of the tree is there. -/
def Expression.Complete : Expression → Prop
  | const _ => True
  | value _ _ => True
  | pair exp1 _ exp2 => exp1.Complete ∧ exp2.Complete
  | half _ _ => False

/-- The scan ends with a complete tree or an error, and does nothing it must not do. -/
structure Safe (result : Except Stop Expression) : Prop where
  noMisuse : ∀ m, result ≠ .error (.misuse m)
  complete : ∀ e, result = .ok e → e.Complete

/-! ## One token -/

theorem Expression.check_eq_none (e : Expression) : e.check = none ↔ e.Complete := by
  induction e with
  | const val => exact ⟨fun _ => trivial, fun _ => rfl⟩
  | value deviceName valueName => exact ⟨fun _ => trivial, fun _ => rfl⟩
  | pair exp1 op exp2 ih1 ih2 =>
    show (exp1.check <|> exp2.check) = none ↔ exp1.Complete ∧ exp2.Complete
    rw [← ih1, ← ih2]
    cases exp1.check with
    | none => exact ⟨fun h => ⟨rfl, h⟩, fun h => h.2⟩
    | some msg => exact ⟨fun h => (by cases h), fun h => (by cases h.1)⟩
  | half exp1 op ih => exact ⟨fun h => (by cases h), fun h => h.elim⟩

/-- The tree can take an operator. -/
inductive Expression.Closed : Expression → Prop where
  | const (val : ℚ) : Closed (.const val)
  | value (deviceName valueName : List Char) : Closed (.value deviceName valueName)
  | pairConst (exp1 : Expression) (op : op_t) (val : ℚ) : Closed (.pair exp1 op (.const val))

/-- What `root_exp` points to behind the last operand or operator. -/
def Before.Holds : Before → Ptr → Prop
  | .nothing, root => root = .null
  | .operand, root => ∃ e : Expression, e.Closed ∧ root = .live e
  | .operator op, root => ∃ exp1, root = .live (.half exp1 op)

/-- The variables between two tokens. -/
structure Ready (b : Before) (s : Scan) : Prop where
  new_exp : s.new_exp = .null
  op : s.op = none
  root_exp : b.Holds s.root_exp

section
variable {b : Before} {s : Scan} {t : Token}

theorem Ptr.delete_eq {p : Ptr} (h : p ≠ .deleted) : ∃ p', p.delete = .ok p' := by
  cases p with
  | null => exact ⟨_, rfl⟩
  | live e => exact ⟨_, rfl⟩
  | deleted => exact absurd rfl h

theorem error_eq (hnew : s.new_exp ≠ .deleted) (hroot : s.root_exp ≠ .deleted) (msg : String) :
    s.error msg = .error (.error msg) := by
  obtain ⟨new, hnew⟩ := Ptr.delete_eq hnew
  obtain ⟨root, hroot⟩ := Ptr.delete_eq hroot
  unfold Scan.error Scan.deleteBoth
  rw [hnew, hroot]
  rfl

theorem Ready.root_ne (h : Ready b s) : s.root_exp ≠ .deleted := by
  have hroot := h.root_exp
  intro hdel
  rw [hdel] at hroot
  cases b with
  | nothing => cases hroot
  | operand =>
    obtain ⟨e, -, hlive⟩ := hroot
    cases hlive
  | operator op =>
    obtain ⟨exp1, hlive⟩ := hroot
    cases hlive

theorem Ready.error (h : Ready b s) (msg : String) : s.error msg = .error (.error msg) :=
  error_eq (by rw [h.new_exp]; exact Ptr.noConfusion) h.root_ne msg

/-- What `take` does with a token of a kind. -/
inductive Takes (t : Token) : Kind → Prop where
  | operator (op : op_t) (h : ∀ s : Scan, s.take t = .ok { s with op := some op }) :
    Takes t (.operator op)
  | value (deviceName valueName : List Char)
    (h : ∀ s : Scan, s.take t = s.deleteBoth.bind fun s =>
      .ok { s with new_exp := .live (.value deviceName valueName) }) : Takes t .value
  | number (v : ℚ) (h : ∀ s : Scan, s.take t = .ok { s with new_exp := .live (.const v) }) :
    Takes t .number
  | other (h : ∀ s : Scan, s.take t = .ok s) : Takes t .other
  | bad (msg : String)
    (h : ∀ s : Scan, s.take t = .error (.error msg) ∨ s.take t = s.error msg) : Takes t .bad

theorem Token.takes (t : Token) : Takes t t.kind := by
  cases t with
  | word val =>
    cases hkey : keyword val with
    | some op =>
      have hkind : (Token.word val).kind = .operator op := by simp only [Token.kind, hkey]
      rw [hkind]
      exact .operator op fun s => by simp only [Scan.take, hkey]
    | none =>
      by_cases hpoint : '.' ∈ val
      · have hkind : (Token.word val).kind = .value := by simp only [Token.kind, hkey, if_pos hpoint]
        rw [hkind]
        refine .value (val.takeWhile (· ≠ '.')) ((val.dropWhile (· ≠ '.')).drop 1) fun s => ?_
        simp only [Scan.take, hkey, if_pos hpoint]
        rfl
      · have hkind : (Token.word val).kind = .bad := by simp only [Token.kind, hkey, if_neg hpoint]
        rw [hkind]
        exact .bad "cannot find value separator (.)" fun s => .inl (by
          simp only [Scan.take, hkey, if_neg hpoint])
  | number val =>
    cases hnum : numberLoop val 0 0 with
    | val v =>
      have hkind : (Token.number val).kind = .number := by simp only [Token.kind, hnum]
      rw [hkind]
      exact .number v fun s => by simp only [Scan.take, hnum]
    | secondPoint =>
      have hkind : (Token.number val).kind = .bad := by simp only [Token.kind, hnum]
      rw [hkind]
      exact .bad "cannot parse number" fun s => .inl (by simp only [Scan.take, hnum])
    | otherChar =>
      have hkind : (Token.number val).kind = .bad := by simp only [Token.kind, hnum]
      rw [hkind]
      exact .bad "number contains unallowed characters" fun s => .inr (by
        simp only [Scan.take, hnum])
  | operator val =>
    cases hcomp : comparison val with
    | some op =>
      have hkind : (Token.operator val).kind = .operator op := by
        simp only [Token.kind, hcomp, Option.elim_some]
      rw [hkind]
      exact .operator op fun s => by simp only [Scan.take, hcomp]
    | none =>
      have hkind : (Token.operator val).kind = .bad := by
        simp only [Token.kind, hcomp, Option.elim_none]
      rw [hkind]
      exact .bad "invalid operand" fun s => .inr (by simp only [Scan.take, hcomp])
  | other => exact .other fun s => rfl

/-- What a token makes of the root. -/
inductive Grows : Ptr → Ptr → Prop where
  | same (p : Ptr) : Grows p p
  | const (val : ℚ) : Grows .null (.live (.const val))
  | value (deviceName valueName : List Char) : Grows .null (.live (.value deviceName valueName))
  | operator {e e' : Expression} {op : op_t} (h : e.addOp op = .ok e') : Grows (.live e) (.live e')
  | operand (exp1 : Expression) (op : op_t) (val : ℚ) :
    Grows (.live (.half exp1 op)) (.live (.pair exp1 op (.const val)))

/-- What is done with a token: an error, a misuse, or the variables are ready for the next one. -/
inductive Added (b : Before) (k : Kind) (s : Scan) : Except Stop Scan → Prop where
  | rejected (msg : String) (h : b.rejects k = true) : Added b k s (.error (.error msg))
  | misused (m : Misuse) (h : b.rejects k = false) (h' : b.misuses k = true) :
    Added b k s (.error (.misuse m))
  | next (s' : Scan) (h : b.rejects k = false) (h' : b.misuses k = false) (hstr : s'.str = s.str)
    (hgrows : Grows s.root_exp s'.root_exp) (hready : Ready (b.next k) s') : Added b k s (.ok s')

theorem Expression.Closed.addOp {e : Expression} (h : e.Closed) (op : op_t) :
    ∃ exp1, e.addOp op = .ok (.half exp1 op) := by
  cases h with
  | const val => exact ⟨_, rfl⟩
  | value deviceName valueName => exact ⟨_, rfl⟩
  | pairConst exp1 op' val =>
    unfold Expression.addOp
    split
    · exact ⟨_, rfl⟩
    · exact ⟨_, rfl⟩

theorem Expression.Closed.addExp {e : Expression} (h : e.Closed) (new : Option Expression) :
    e.addExp new = .error "missing operand" := by
  cases h with
  | const val => rfl
  | value deviceName valueName => rfl
  | pairConst exp1 op val => rfl

theorem Ready.added_operator (h : Ready b s) (op : op_t) :
    Added b (.operator op) s (Scan.add { s with op := some op }) := by
  have hroot := h.root_exp
  show Added b (.operator op) s (Scan.addOp { s with op := some op } op)
  unfold Scan.addOp
  cases b with
  | nothing =>
    rw [show s.root_exp = .null from hroot]
    exact .misused _ rfl rfl
  | operand =>
    obtain ⟨e, hclosed, hlive⟩ := hroot
    obtain ⟨exp1, hadd⟩ := hclosed.addOp op
    rw [hlive]
    dsimp only
    rw [hadd]
    refine .next _ rfl rfl rfl ?_ ⟨h.new_exp, rfl, exp1, rfl⟩
    rw [hlive]
    exact .operator hadd
  | operator op' =>
    obtain ⟨exp1, hlive⟩ := hroot
    rw [hlive]
    dsimp only
    by_cases hlt : op < op'
    · have hadd : (Expression.half exp1 op').addOp op = .ok (.half (.half exp1 op') op) := if_pos hlt
      rw [hadd]
      refine .next _ (by simp [Before.rejects, hlt]) rfl rfl ?_ ⟨h.new_exp, rfl, _, rfl⟩
      rw [hlive]
      exact .operator hadd
    · have hadd : (Expression.half exp1 op').addOp op = .error "missing value" := if_neg hlt
      rw [hadd]
      exact .rejected _ (by simp [Before.rejects, hlt])

theorem Ready.added_number (h : Ready b s) (v : ℚ) :
    Added b .number s (Scan.add { s with new_exp := .live (.const v) }) := by
  have hroot := h.root_exp
  unfold Scan.add
  dsimp only
  rw [h.op]
  cases b with
  | nothing =>
    rw [show s.root_exp = .null from hroot]
    exact .next _ rfl rfl rfl (hroot ▸ .const v) ⟨rfl, rfl, _, .const v, rfl⟩
  | operand =>
    obtain ⟨e, hclosed, hlive⟩ := hroot
    rw [hlive]
    dsimp only
    unfold Scan.addExp
    rw [hclosed.addExp]
    dsimp only
    rw [error_eq (by simp) (by simp)]
    exact .rejected _ rfl
  | operator op' =>
    obtain ⟨exp1, hlive⟩ := hroot
    rw [hlive]
    exact .next _ rfl rfl rfl (hlive ▸ .operand exp1 op' v) ⟨rfl, rfl, _, .pairConst exp1 op' v, rfl⟩

theorem Ready.added_other (h : Ready b s) : Added b .other s s.add := by
  have hroot := h.root_exp
  have hnew := h.new_exp
  unfold Scan.add
  rw [h.op]
  cases b with
  | nothing =>
    rw [show s.root_exp = .null from hroot]
    refine .next _ rfl rfl rfl ?_ ⟨rfl, rfl, hnew⟩
    show Grows s.root_exp s.new_exp
    rw [hnew, show s.root_exp = .null from hroot]
    exact .same _
  | operand =>
    obtain ⟨e, hclosed, hlive⟩ := hroot
    rw [hlive, hnew]
    dsimp only
    unfold Scan.addExp
    rw [hclosed.addExp]
    dsimp only
    rw [h.error]
    exact .rejected _ rfl
  | operator op' =>
    obtain ⟨exp1, hlive⟩ := hroot
    rw [hlive, hnew]
    exact .next _ rfl rfl rfl (hlive ▸ .same _) ⟨rfl, h.op, exp1, rfl⟩

/-- The tree is deleted, and the value is added to it. -/
theorem Ready.added_value (h : Ready b s) (deviceName valueName : List Char) :
    Added b .value s ((s.deleteBoth.bind fun s =>
      .ok { s with new_exp := .live (.value deviceName valueName) }).bind Scan.add) := by
  have hroot := h.root_exp
  have hbind : ∀ root, s.root_exp.delete = .ok root →
      (s.deleteBoth.bind fun s => .ok { s with
        new_exp := .live (.value deviceName valueName) }).bind Scan.add =
        Scan.add { s with new_exp := .live (.value deviceName valueName), root_exp := root } := by
    intro root hdelete
    unfold Scan.deleteBoth
    rw [h.new_exp, hdelete]
    rfl
  cases b with
  | nothing =>
    have hnull : s.root_exp = .null := hroot
    rw [hbind .null (by rw [hnull]; rfl)]
    unfold Scan.add
    dsimp only
    rw [h.op]
    exact .next _ rfl rfl rfl (hnull ▸ .value deviceName valueName)
      ⟨rfl, rfl, _, .value deviceName valueName, rfl⟩
  | operand =>
    obtain ⟨e, -, hlive⟩ := hroot
    rw [hbind .deleted (by rw [hlive]; rfl)]
    unfold Scan.add
    dsimp only
    rw [h.op]
    exact .misused _ rfl rfl
  | operator op' =>
    obtain ⟨exp1, hlive⟩ := hroot
    rw [hbind .deleted (by rw [hlive]; rfl)]
    unfold Scan.add
    dsimp only
    rw [h.op]
    exact .misused _ rfl rfl

/-- One token, before the index moves on. -/
theorem Ready.added (h : Ready b s) (t : Token) : Added b t.kind s ((s.take t).bind Scan.add) := by
  generalize hk : t.kind = k
  have htakes := t.takes
  rw [hk] at htakes
  cases htakes with
  | operator op htake =>
    rw [htake s]
    exact h.added_operator op
  | value deviceName valueName htake =>
    rw [htake s]
    exact h.added_value deviceName valueName
  | number v htake =>
    rw [htake s]
    exact h.added_number v
  | other htake =>
    rw [htake s]
    exact h.added_other
  | bad msg htake =>
    rcases htake s with hthrow | herror
    · rw [hthrow]
      exact .rejected msg rfl
    · rw [herror, h.error]
      exact .rejected msg rfl

end

/-! ## Texts -/

theorem Ready.finish {b : Before} {s : Scan} (h : Ready b s) : Safe s.finish := by
  have hroot := h.root_exp
  unfold Scan.finish
  have hcheck : ∀ root : Expression,
      Safe (root.check.elim (.ok root) fun msg => .error (.error msg)) := by
    intro root
    cases hmsg : root.check with
    | none =>
      refine ⟨fun m heq => (by cases heq), fun e he => ?_⟩
      rw [← Except.ok.inj he]
      exact root.check_eq_none.mp hmsg
    | some msg => exact ⟨fun m heq => (by cases heq), fun e he => (by cases he)⟩
  cases b with
  | nothing =>
    rw [show s.root_exp = .null from hroot]
    exact ⟨fun m heq => (by cases heq), fun e he => (by cases he)⟩
  | operand =>
    obtain ⟨e, -, hlive⟩ := hroot
    rw [hlive]
    exact hcheck e
  | operator op =>
    obtain ⟨exp1, hlive⟩ := hroot
    rw [hlive]
    exact hcheck _

theorem safe_error (msg : String) : Safe (.error (.error msg)) :=
  ⟨fun m heq => (by cases heq), fun e he => (by cases he)⟩

theorem not_safe_misuse (m : Misuse) : ¬ Safe (.error (.misuse m)) := fun h => h.noMisuse m rfl

theorem token_length_le (str : List Char) : (token str).2.length ≤ str.length := by
  cases str with
  | nil => exact Nat.le_refl _
  | cons c rest =>
    have hdrop := (List.dropWhile_suffix wordChar (l := c :: rest)).length_le
    have hdrop' := (List.dropWhile_suffix (· = '=') (l := rest)).length_le
    simp only [token]
    split
    · exact hdrop
    · split
      · exact hdrop
      · split
        · exact Nat.le_succ_of_le hdrop'
        · exact Nat.le_refl _

theorem body_eq (s : Scan) :
    s.body = ((Scan.take { s with str := (token s.str).2 } (token s.str).1).bind Scan.add).bind
      Scan.next := by
  unfold Scan.body
  cases Scan.take { s with str := (token s.str).2 } (token s.str).1 with
  | error stop => rfl
  | ok s' => rfl

/-- A blank is passed over. -/
theorem loop_blank {s : Scan} {c : Char} {str : List Char} (fuel : ℕ) (hs : s.str = c :: str)
    (hc : isspace c = true) : s.loop (fuel + 1) = Scan.loop fuel { s with str } := by
  rw [Scan.loop, hs]
  exact if_pos hc

theorem loop_token {s : Scan} {c : Char} {str : List Char} (fuel : ℕ) (hs : s.str = c :: str)
    (hc : isspace c = false) : s.loop (fuel + 1) = s.body.bind (Scan.loop fuel) := by
  rw [Scan.loop, hs]
  exact if_neg (by simp [hc])

section
variable {c : Char} {str : List Char} (fuel : ℕ) (hc : isspace c = false)
include hc

theorem tokens_end (hrest : (token (c :: str)).2 = []) :
    tokens (fuel + 1) (c :: str) = ([(token (c :: str)).1], true) := by
  rw [tokens, if_neg (by simp [hc]), hrest]

theorem tokens_next {d : Char} {str' : List Char} (hrest : (token (c :: str)).2 = d :: str') :
    tokens (fuel + 1) (c :: str) =
      ((token (c :: str)).1 :: (tokens fuel str').1, (tokens fuel str').2) := by
  rw [tokens, if_neg (by simp [hc]), hrest]

theorem tokens_cons : ∃ ts toEnd, tokens (fuel + 1) (c :: str) = ((token (c :: str)).1 :: ts, toEnd) := by
  cases hrest : (token (c :: str)).2 with
  | nil => exact ⟨_, _, tokens_end fuel hc hrest⟩
  | cons d str' => exact ⟨_, _, tokens_next fuel hc hrest⟩

end

/-- What the body of the loop does with the token at the index: an error, a misuse, the end of the
text, or the variables are ready for the next token. -/
inductive Bodied (b : Before) (s : Scan) : Except Stop Scan → Prop where
  | rejected (msg : String) (h : b.rejects (token s.str).1.kind = true) :
    Bodied b s (.error (.error msg))
  | misused (m : Misuse) (h : b.rejects (token s.str).1.kind = false)
    (h' : b.misuses (token s.str).1.kind = true) : Bodied b s (.error (.misuse m))
  | behind (h : b.rejects (token s.str).1.kind = false) (hrest : (token s.str).2 = []) :
    Bodied b s (.error (.misuse .behindText))
  | next (d : Char) (s' : Scan) (h : b.rejects (token s.str).1.kind = false)
    (h' : b.misuses (token s.str).1.kind = false) (hrest : (token s.str).2 = d :: s'.str)
    (hgrows : Grows s.root_exp s'.root_exp) (hready : Ready (b.next (token s.str).1.kind) s') :
    Bodied b s (.ok s')

theorem Ready.bodied {b : Before} {s : Scan} (h : Ready b s) : Bodied b s s.body := by
  have hadded := Ready.added (s := { s with str := (token s.str).2 }) ⟨h.new_exp, h.op, h.root_exp⟩
    (token s.str).1
  rw [body_eq]
  generalize (Scan.take { s with str := (token s.str).2 } (token s.str).1).bind Scan.add = r at hadded
  cases hadded with
  | rejected msg hreject => exact .rejected msg hreject
  | misused m hreject hmisuse => exact .misused m hreject hmisuse
  | next s' hreject hmisuse hstr hgrows hready =>
    show Bodied b s s'.next
    unfold Scan.next
    cases hrest : s'.str with
    | nil => exact .behind hreject (hstr.symm.trans hrest)
    | cons d str' =>
      exact .next d { s' with str := str' } hreject hmisuse (hstr.symm.trans hrest) hgrows
        ⟨hready.new_exp, hready.op, hready.root_exp⟩

/-- A token that is not rejected is sound if it is used well, and what follows is sound. -/
theorem sound_cons_iff {b : Before} {k : Kind} (h : b.rejects k = false) (ks : List Kind)
    (toEnd : Bool) :
    Sound b (k :: ks) toEnd ↔ b.misuses k = false ∧ Sound (b.next k) ks toEnd := by
  rw [Sound, h]
  exact or_iff_right Bool.false_ne_true

/-- The scan is safe if and only if the tokens are sound. -/
theorem Ready.loop_safe_iff (fuel : ℕ) {b : Before} {s : Scan} (h : Ready b s)
    (hfuel : s.str.length < fuel) :
    Safe (s.loop fuel) ↔
      Sound b ((tokens fuel s.str).1.map Token.kind) (tokens fuel s.str).2 := by
  induction fuel generalizing b s with
  | zero => exact absurd hfuel (Nat.not_lt_zero _)
  | succ fuel ih =>
    cases hs : s.str with
    | nil =>
      have hloop : s.loop (fuel + 1) = s.finish := by
        rw [Scan.loop, hs]
      rw [hloop]
      exact ⟨fun _ => rfl, fun _ => h.finish⟩
    | cons c str =>
      rw [hs, List.length_cons] at hfuel
      by_cases hc : isspace c = true
      · have hrest := ih (s := { s with str }) ⟨h.new_exp, h.op, h.root_exp⟩
          (Nat.lt_of_succ_lt_succ hfuel)
        rw [loop_blank fuel hs hc, tokens, if_pos hc]
        exact hrest
      · rw [Bool.not_eq_true] at hc
        have hlen := token_length_le (c :: str)
        have hbody := h.bodied
        obtain ⟨ts, toEnd, htokens⟩ : ∃ ts toEnd, tokens (fuel + 1) (c :: str) =
          ((token (c :: str)).1 :: ts, toEnd) := tokens_cons fuel hc
        rw [loop_token fuel hs hc]
        generalize s.body = r at hbody
        cases hbody with
        | rejected msg hreject =>
          rw [hs] at hreject
          refine ⟨fun _ => ?_, fun _ => safe_error msg⟩
          rw [htokens]
          exact .inl hreject
        | misused m hreject hmisuse =>
          rw [hs] at hreject hmisuse
          refine ⟨fun hsafe => absurd hsafe (not_safe_misuse m), fun hsound => ?_⟩
          rw [htokens] at hsound
          rw [List.map_cons, sound_cons_iff hreject, hmisuse] at hsound
          cases hsound.1
        | behind hreject hrest =>
          rw [hs] at hreject hrest
          refine ⟨fun hsafe => absurd hsafe (not_safe_misuse _), fun hsound => ?_⟩
          rw [tokens_end fuel hc hrest, List.map_cons, sound_cons_iff hreject] at hsound
          cases hsound.2
        | next d s' hreject hmisuse hrest hgrows hready =>
          rw [hs] at hreject hmisuse hrest hready
          rw [hrest, List.length_cons, List.length_cons] at hlen
          rw [tokens_next fuel hc hrest, List.map_cons, sound_cons_iff hreject]
          exact (ih hready (by omega)).trans (and_iff_right hmisuse).symm

/-- **Safety.** A text is parsed safely if and only if its tokens are sound. -/
theorem parse_safe_iff (str : List Char) : Safe (parseExpression str) ↔ SoundText str :=
  Ready.loop_safe_iff (str.length + 1) (b := .nothing) ⟨rfl, rfl, rfl⟩ (Nat.lt_succ_self _)

example : parseExpression "1 == T0.x ".toList = .error (.misuse .useOfDeleted) := by decide +kernel

example : parseExpression "== 1 ".toList = .error (.misuse .useOfNull) := by decide +kernel

/-- A number at the end of the text. -/
theorem not_safe_number : ¬ Safe (parseExpression ['1']) := by
  intro h
  have hmisuse : parseExpression ['1'] = .error (.misuse .behindText) := by decide +kernel
  exact h.noMisuse .behindText hmisuse

end Rts2.Rts2Expression

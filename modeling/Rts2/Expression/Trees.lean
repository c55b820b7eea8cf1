import Rts2.Expression.Safety
import Rts2.Lib.Precedence

/-! # How a tree grows

The caller keeps what `add` returns. An operator that is looser than the last one gets the whole tree
on its left; for any other operator the new root has the last operand only, and what stands before it is
no part of the tree any more. -/
namespace Rts2.Rts2Expression
open Rts2.Lib
open Rts2.Lib.Strtod (isspace)

namespace Expression

/-! ## Operands and operators -/

def operands : Expression → List Expression
  | const val => [const val]
  | value deviceName valueName => [value deviceName valueName]
  | pair exp1 _ exp2 => exp1.operands ++ exp2.operands
  | half exp1 _ => exp1.operands

def operators : Expression → List op_t
  | const _ => []
  | value _ _ => []
  | pair exp1 op exp2 => exp1.operators ++ op :: exp2.operators
  | half exp1 op => exp1.operators ++ [op]

/-- The operator of the root. -/
def top : Expression → Option op_t
  | const _ => none
  | value _ _ => none
  | pair _ op _ => some op
  | half _ op => some op

/-- A tree of the library as an expression. -/
def ofTree : Tree Expression op_t → Expression
  | .leaf e => e
  | .node left op right => pair (ofTree left) op (ofTree right)

theorem operands_pos (e : Expression) : 0 < e.operands.length := by
  induction e with
  | const val => exact Nat.one_pos
  | value deviceName valueName => exact Nat.one_pos
  | pair exp1 op exp2 ih1 ih2 =>
    rw [operands, List.length_append]
    omega
  | half exp1 op ih => exact ih

/-- An operator takes no operand away but those in front. -/
theorem addOp_operands {e e' : Expression} {op : op_t} (h : e.addOp op = .ok e') :
    e'.operands <:+ e.operands := by
  induction e with
  | const val => rw [← Except.ok.inj h]; exact List.suffix_rfl
  | value deviceName valueName => rw [← Except.ok.inj h]; exact List.suffix_rfl
  | pair exp1 op' exp2 ih1 ih2 =>
    unfold addOp at h
    split at h
    · rw [← Except.ok.inj h]
      exact List.suffix_rfl
    · exact (ih2 h).trans (List.suffix_append _ _)
  | half exp1 op' ih =>
    unfold addOp at h
    split at h
    · rw [← Except.ok.inj h]
      exact List.suffix_rfl
    · cases h

/-- All operands but the first one are constants. -/
def TailConst (e : Expression) : Prop := ∀ x ∈ e.operands.tail, ∃ val, x = const val

end Expression

/-- A pointer to such a tree. -/
def Ptr.TailConst (p : Ptr) : Prop := ∀ e, p = .live e → e.TailConst

theorem Grows.tailConst {p p' : Ptr} (h : Grows p p') (hp : p.TailConst) : p'.TailConst := by
  cases h with
  | same => exact hp
  | const val =>
    rintro e he x hx
    rw [← Ptr.live.inj he] at hx
    cases hx
  | value deviceName valueName =>
    rintro e he x hx
    rw [← Ptr.live.inj he] at hx
    cases hx
  | @operator e e' op hadd =>
    rintro e'' he x hx
    rw [← Ptr.live.inj he] at hx
    obtain ⟨front, hfront⟩ := Expression.addOp_operands hadd
    refine hp e rfl x ?_
    rw [← hfront]
    cases front with
    | nil => exact hx
    | cons y front => exact List.mem_append_right front (List.mem_of_mem_tail hx)
  | operand exp1 op val =>
    rintro e he x hx
    rw [← Ptr.live.inj he] at hx
    have hsplit : (exp1.operands ++ [Expression.const val]).tail =
        exp1.operands.tail ++ [Expression.const val] :=
      List.tail_append_of_ne_nil (List.ne_nil_of_length_pos exp1.operands_pos)
    rcases List.mem_append.mp (hsplit ▸ hx) with hold | hnew
    · exact hp _ rfl x hold
    · exact ⟨val, List.mem_singleton.mp hnew⟩

/-- The next character or token: the scan stops there, or goes on with less text. -/
theorem Ready.loop_step {b : Before} {s : Scan} (h : Ready b s) (hs : s.str ≠ []) :
    (∃ stop, ∀ fuel, s.loop (fuel + 1) = .error stop) ∨
      ∃ b' s', Ready b' s' ∧ Grows s.root_exp s'.root_exp ∧ s'.str.length < s.str.length ∧
        ∀ fuel, s.loop (fuel + 1) = s'.loop fuel := by
  obtain ⟨c, str, hstr⟩ := List.exists_cons_of_ne_nil hs
  by_cases hc : isspace c = true
  · refine .inr ⟨b, { s with str }, ⟨h.new_exp, h.op, h.root_exp⟩, .same _, ?_, fun fuel =>
      loop_blank fuel hstr hc⟩
    rw [hstr]
    exact Nat.lt_succ_self _
  · rw [Bool.not_eq_true] at hc
    have hlen := token_length_le s.str
    have hgo : ∀ fuel, s.loop (fuel + 1) = s.body.bind (Scan.loop fuel) := fun fuel =>
      loop_token fuel hstr hc
    have hbody := h.bodied
    generalize s.body = r at hbody hgo
    cases hbody with
    | rejected msg hreject => exact .inl ⟨_, hgo⟩
    | misused m hreject hmisuse => exact .inl ⟨_, hgo⟩
    | behind hreject hrest => exact .inl ⟨_, hgo⟩
    | next d s' hreject hmisuse hrest hgrows hready =>
      rw [hrest, List.length_cons] at hlen
      exact .inr ⟨_, s', hready, hgrows, hlen, hgo⟩

/-- More fuel than the text is long changes nothing. -/
theorem Ready.loop_fuel {b : Before} {s : Scan} {f g : ℕ} (h : Ready b s) (hf : s.str.length < f)
    (hg : s.str.length < g) : s.loop f = s.loop g := by
  induction f generalizing b s g with
  | zero => exact absurd hf (Nat.not_lt_zero _)
  | succ f ih =>
    obtain ⟨g, rfl⟩ := Nat.exists_eq_succ_of_ne_zero (Nat.ne_zero_of_lt hg)
    by_cases hs : s.str = []
    · rw [Scan.loop, Scan.loop, hs]
    · rcases h.loop_step hs with ⟨stop, hstop⟩ | ⟨b', s', hready, -, hlen, hgo⟩
      · rw [hstop, hstop]
      · rw [hgo, hgo]
        exact ih hready (by omega) (by omega)

/-- What a token keeps holds of the tree that is returned. -/
theorem Ready.loop_invariant {Q : Ptr → Prop} (hQ : ∀ p p', Grows p p' → Q p → Q p') {fuel : ℕ}
    {b : Before} {s : Scan} {t : Expression} (h : Ready b s) (hs : Q s.root_exp)
    (ht : s.loop fuel = .ok t) : Q (.live t) := by
  induction fuel generalizing b s with
  | zero => cases ht
  | succ fuel ih =>
    by_cases hstr : s.str = []
    · have hfinish : s.finish = .ok t := by
        rw [Scan.loop, hstr] at ht
        exact ht
      unfold Scan.finish at hfinish
      cases hroot : s.root_exp with
      | null => rw [hroot] at hfinish; cases hfinish
      | deleted => rw [hroot] at hfinish; cases hfinish
      | live root =>
        rw [hroot] at hfinish hs
        cases hcheck : root.check with
        | some msg => simp [hcheck] at hfinish
        | none =>
          simp only [hcheck, Option.elim_none] at hfinish
          rw [← Except.ok.inj hfinish]
          exact hs
    · rcases h.loop_step hstr with ⟨stop, hstop⟩ | ⟨b', s', hready, hgrows, -, hgo⟩
      · rw [hstop] at ht
        cases ht
      · rw [hgo] at ht
        exact ih hready (hQ _ _ hgrows hs) ht

/-- A device value can only be the first operand of a tree. -/
theorem parse_tailConst {str : List Char} {t : Expression} (ht : parseExpression str = .ok t) :
    t.TailConst :=
  Ready.loop_invariant (Q := Ptr.TailConst) (b := .nothing)
    (s := ⟨str, .null, .null, none⟩) (fun _ _ hgrows hp => hgrows.tailConst hp) ⟨rfl, rfl, rfl⟩
    (fun _ he => by cases he) ht t rfl

/-! ## Operators with constants -/

namespace Expression

/-- An operator and the constant behind it, if one is read. -/
def addItem (e : Expression) (x : op_t × Option ℚ) : Except String Expression :=
  (e.addOp x.1).bind fun e => e.addExp (x.2.map .const)

def build : Expression → List (op_t × Option ℚ) → Except String Expression
  | e, [] => .ok e
  | e, x :: xs => (e.addItem x).bind (build · xs)

/-- A tree between two items; the last constant may be missing. -/
def Boundary (e : Expression) : Prop := e.Closed ∨ ∃ exp1 op, e = half exp1 op

theorem Boundary.addOp {e e' : Expression} {op : op_t} (h : e.Boundary) (he : e.addOp op = .ok e') :
    ∃ exp1, e' = half exp1 op := by
  rcases h with hclosed | ⟨exp1, op', rfl⟩
  · obtain ⟨exp1, hadd⟩ := hclosed.addOp op
    exact ⟨exp1, Except.ok.inj (he.symm.trans hadd)⟩
  · unfold Expression.addOp at he
    split at he
    · exact ⟨_, (Except.ok.inj he).symm⟩
    · cases he

/-- An item adds one operand at most, and one only if nothing is lost. -/
structure Item (e e' : Expression) (x : op_t × Option ℚ) : Prop where
  boundary : e'.Boundary
  length : e'.operands.length ≤ e.operands.length + 1
  whole : e'.operands.length = e.operands.length + 1 →
    (∃ val, x.2 = some val ∧ e' = pair e x.1 (const val)) ∧ ∀ op ∈ e.top, x.1 < op

theorem addExp_half (e : Expression) (op : op_t) (v : Option ℚ) :
    (half e op).addExp (v.map const) = .ok (v.elim (half e op) fun val => pair e op (const val)) := by
  cases v with
  | none => rfl
  | some val => rfl

/-- The operator takes the whole tree. -/
theorem item_whole {e e' : Expression} {op : op_t} {v : Option ℚ}
    (h : e.addOp op = .ok (half e op)) (htop : ∀ op' ∈ e.top, op < op')
    (he : e.addItem (op, v) = .ok e') : Item e e' (op, v) := by
  unfold addItem at he
  rw [h] at he
  have hadd : (half e op).addExp (v.map const) = .ok e' := he
  rw [addExp_half] at hadd
  obtain rfl := Except.ok.inj hadd
  cases v with
  | none =>
    refine ⟨.inr ⟨e, op, rfl⟩, Nat.le_succ _, fun hlen => ?_⟩
    have hsame : e.operands.length = e.operands.length + 1 := hlen
    omega
  | some val =>
    refine ⟨.inl (.pairConst e op val), ?_, fun _ => ⟨⟨val, rfl, rfl⟩, htop⟩⟩
    show (e.operands ++ [const val]).length ≤ e.operands.length + 1
    rw [List.length_append]
    exact Nat.le_refl _

/-- The operator takes the last operand only. -/
theorem item_dropped {exp1 e' : Expression} {op op' : op_t} {val : ℚ} {v : Option ℚ}
    (h : ¬ op < op') (he : (pair exp1 op' (const val)).addItem (op, v) = .ok e') :
    Item (pair exp1 op' (const val)) e' (op, v) := by
  have hadd : (pair exp1 op' (const val)).addOp op = .ok (half (const val) op) := if_neg h
  have hpos := exp1.operands_pos
  unfold addItem at he
  rw [hadd] at he
  have hadd : (half (const val) op).addExp (v.map const) = .ok e' := he
  rw [addExp_half] at hadd
  obtain rfl := Except.ok.inj hadd
  have hlen : (pair exp1 op' (const val)).operands.length = exp1.operands.length + 1 :=
    List.length_append
  cases v with
  | none =>
    refine ⟨.inr ⟨_, op, rfl⟩, ?_, fun heq => ?_⟩
    · rw [hlen]
      show 1 ≤ exp1.operands.length + 1 + 1
      omega
    · rw [hlen] at heq
      have heq : 1 = exp1.operands.length + 1 + 1 := heq
      omega
  | some val' =>
    refine ⟨.inl (.pairConst _ op val'), ?_, fun heq => ?_⟩
    · rw [hlen]
      show 2 ≤ exp1.operands.length + 1 + 1
      omega
    · rw [hlen] at heq
      have heq : 2 = exp1.operands.length + 1 + 1 := heq
      omega

theorem addItem_spec {e e' : Expression} {x : op_t × Option ℚ} (h : e.Boundary)
    (he : e.addItem x = .ok e') : Item e e' x := by
  obtain ⟨op, v⟩ := x
  rcases h with hclosed | ⟨exp1, op', rfl⟩
  · cases hclosed with
    | const val => exact item_whole rfl (fun _ h => by cases h) he
    | value deviceName valueName => exact item_whole rfl (fun _ h => by cases h) he
    | pairConst exp1 op' val =>
      by_cases hlt : op < op'
      · exact item_whole (if_pos hlt) (fun _ h => (Option.some.inj h) ▸ hlt) he
      · exact item_dropped hlt he
  · by_cases hlt : op < op'
    · exact item_whole (if_pos hlt) (fun _ h => (Option.some.inj h) ▸ hlt) he
    · have hadd : (half exp1 op').addOp op = .error "missing value" := if_neg hlt
      unfold addItem at he
      rw [hadd] at he
      cases he

/-- Every item adds one operand at most. If all do, every constant is read, every operator is looser
than the one before, and nothing is lost. -/
theorem build_spec {e t : Expression} {items : List (op_t × Option ℚ)} (h : e.Boundary)
    (ht : e.build items = .ok t) :
    t.operands.length ≤ e.operands.length + items.length ∧
      (t.operands.length = e.operands.length + items.length →
        (e.top.toList ++ items.map Prod.fst).IsChain (· > ·) ∧
          ∃ vals : List ℚ, items.map Prod.snd = vals.map some ∧
            t.operands = e.operands ++ vals.map const) := by
  induction items generalizing e with
  | nil =>
    obtain rfl := Except.ok.inj ht
    refine ⟨Nat.le_refl _, fun _ => ⟨?_, [], rfl, (List.append_nil _).symm⟩⟩
    cases e.top with
    | none => exact .nil
    | some op => exact .singleton op
  | cons x xs ih =>
    unfold build at ht
    cases he : e.addItem x with
    | error msg => rw [he] at ht; cases ht
    | ok e' =>
      rw [he] at ht
      have hitem := addItem_spec h he
      obtain ⟨hle, hwhole⟩ := ih hitem.boundary ht
      have hlen := hitem.length
      simp only [List.length_cons]
      refine ⟨by omega, fun heq => ?_⟩
      obtain ⟨⟨val, hval, rfl⟩, htop⟩ := hitem.whole (by omega)
      obtain ⟨hchain, vals, hvals, hoperands⟩ := hwhole (by omega)
      refine ⟨?_, val :: vals, ?_, ?_⟩
      · have hchain : (x.1 :: xs.map Prod.fst).IsChain (· > ·) := hchain
        cases htop' : e.top with
        | none => exact hchain
        | some op => exact List.isChain_cons_cons.mpr ⟨htop op (Option.mem_def.mpr htop'), hchain⟩
      · rw [List.map_cons, List.map_cons, hval, hvals]
      · rw [hoperands, List.map_cons]
        exact List.append_assoc e.operands [const val] (vals.map const)

/-- Looser and looser operators build the tree of the expression. -/
theorem build_reads {a : Expression} {l : List (op_t × Expression)} {ast : Tree Expression op_t}
    (hreads : Reads a l ast)
    (hadd : ∀ op, (∀ x ∈ l, op < x.1) → (ofTree ast).addOp op = .ok (half (ofTree ast) op))
    (items : List (op_t × ℚ)) (horder : (l.map Prod.fst ++ items.map Prod.fst).Pairwise (· > ·)) :
    ∃ ast', (ofTree ast).build (items.map fun x => (x.1, some x.2)) = .ok (ofTree ast') ∧
      Reads a (l ++ items.map fun x => (x.1, const x.2)) ast' ∧
      (ofTree ast').operands = (ofTree ast).operands ++ items.map (fun x => const x.2) ∧
      (ofTree ast').operators = (ofTree ast).operators ++ items.map Prod.fst ∧
      ((ofTree ast).Complete → (ofTree ast').Complete) := by
  induction items generalizing l ast with
  | nil => exact ⟨ast, rfl, by simpa using hreads, by simp, by simp, id⟩
  | cons x xs ih =>
    obtain ⟨op, val⟩ := x
    have hless : ∀ y ∈ l, op < y.1 := by
      intro y hy
      exact (List.pairwise_append.mp horder).2.2 y.1 (List.mem_map_of_mem hy) op List.mem_cons_self
    have hsnoc : Reads a (l ++ [(op, const val)]) (.node ast op (.leaf (const val))) :=
      hreads.snoc fun y hy => le_of_lt (hless y hy)
    have hmore : ∀ op', (∀ y ∈ l ++ [(op, const val)], op' < y.1) →
        (ofTree (.node ast op (.leaf (const val)))).addOp op' =
          .ok (half (ofTree (.node ast op (.leaf (const val)))) op') := by
      intro op' hop'
      exact if_pos (hop' (op, const val) (List.mem_append_right l List.mem_cons_self))
    have horder' : ((l ++ [(op, const val)]).map Prod.fst ++ xs.map Prod.fst).Pairwise (· > ·) := by
      simpa using horder
    obtain ⟨ast', hbuild, hast', hoperands, hoperators, hcomplete⟩ := ih hsnoc hmore horder'
    refine ⟨ast', ?_, ?_, ?_, ?_, ?_⟩
    · rw [← hbuild]
      show ((ofTree ast).addItem (op, some val)).bind _ = _
      unfold addItem
      rw [hadd op hless]
      rfl
    · simpa using hast'
    · rw [hoperands]
      exact List.append_assoc (ofTree ast).operands [const val] _
    · rw [hoperators]
      exact List.append_assoc (ofTree ast).operators [op] _
    · exact fun h => hcomplete ⟨h, trivial⟩

end Expression

end Rts2.Rts2Expression

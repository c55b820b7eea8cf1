import Rts2.Script.Element
import Mathlib.Data.List.Forall2

/-! # What a block sends

An element sends commands when it gives them one after another, goes on until the last
and can then be run again. A block of elements that send their commands sends them all,
as often as it turns. -/
namespace Rts2.Script

variable {C : Type}

theorem Element.nextCommands_length (acquired : Bool) (client : Client) (es : List (Element C)) :
    (Element.nextCommands acquired client es).length = es.length := by
  induction es with
  | nil => rfl
  | cons e es ih => simp [Element.nextCommands, ih]

/-! ## Sending -/

/-- More is to come from the element. -/
def Ret.GoesOn (ret : Ret) : Prop :=
  ret ≠ ⟨.zero, false⟩ ∧ (ret.code = .zero ∨ ret.code = .keep)

theorem Ret.goesOn_keep : Ret.GoesOn ⟨.keep, false⟩ := ⟨nofun, .inr rfl⟩

theorem Ret.goesOn_mask_zero : (Ret.mask ⟨.zero, false⟩).GoesOn := ⟨nofun, .inl rfl⟩

theorem Ret.GoesOn.mask {ret : Ret} (h : ret.GoesOn) : ret.mask.GoesOn :=
  ⟨fun he => by simp [Ret.mask] at he, h.2⟩

theorem Ret.GoesOn.code_ne_next {ret : Ret} (h : ret.GoesOn) : ret.code ≠ .next := by
  rcases h.2 with hc | hc <;> simp [hc]

/-- Asked by `f`, an element sends the commands one after another, and is `fresh` again
when it has sent the last or has none to send. -/
def Sends (f : Members → Answer C) (fresh : Members → Prop) : List C → Members → Prop
  | [], m => ∃ m', f m = (⟨.next, false⟩, none, m') ∧ fresh m'
  | c :: cs, m => ∃ ret m', f m = (ret, some c, m') ∧
      (ret = ⟨.zero, false⟩ ∧ cs = [] ∧ fresh m' ∨ ret.GoesOn ∧ Sends f fresh cs m')

/-- An element of a block: how it is asked, when it can be run, and what it sends. -/
structure Sender (C : Type) where
  ask : Members → Answer C
  fresh : Members → Prop
  commands : List C
  sends : ∀ m, fresh m → Sends ask fresh commands m

theorem simpleCommand_sends (commands : List C) (n : Nat) (h : n < commands.length ∨ n = 0) :
    Sends (simpleCommand commands) (· = .simple 0) (commands.drop n) (.simple n) := by
  induction hd : commands.drop n generalizing n with
  | nil => exact ⟨_, by simp only [simpleCommand, hd], rfl⟩
  | cons c cs ih =>
    have hcs : commands.drop (n + 1) = cs := by
      rw [← List.drop_drop, hd, List.drop_one, List.tail_cons]
    cases cs with
    | nil => exact ⟨_, _, by simp only [simpleCommand, hd], .inl ⟨rfl, rfl, rfl⟩⟩
    | cons c' cs =>
      have hlt : n + 1 < commands.length := by
        have := congrArg List.length hcs
        simp only [List.length_drop, List.length_cons] at this
        omega
      exact ⟨_, _, by simp only [simpleCommand, hd],
        .inr ⟨Ret.goesOn_keep, ih (n + 1) (.inl hlt) hcs⟩⟩

/-! ## The turns of a block -/

/-- Elements that can be run. -/
abbrev AllFresh (xs : List (Sender C)) (ms : List Members) : Prop :=
  List.Forall₂ (fun x m => x.fresh m) xs ms

/-- What one turn of a block sends. -/
def turn (xs : List (Sender C)) : List C := xs.flatMap (·.commands)

/-- A block that can be run is at its first element and has not turned. -/
def BlockFresh (xs : List (Sender C)) (m : Members) : Prop :=
  ∃ ms, m = .block 0 0 ms ∧ AllFresh xs ms

section Block
variable {endLoop : Int → Bool} {max n : Int} {xs : List (Sender C)}

/-- A block at the element `x`, in its turn `loopCount` of `n`, and what it is going to
send. -/
inductive InBlock (xs : List (Sender C)) (n : Int) : Members → List C → Prop where
  | mk {pre post : List (Sender C)} {x : Sender C} {mpre mpost : List Members} {loopCount : Int}
      {m : Members} {cs : List C} (hxs : xs = pre ++ x :: post) (hpre : AllFresh pre mpre)
      (hpost : AllFresh post mpost) (hm : Sends x.ask x.fresh cs m)
      (hlow : 0 ≤ loopCount) (hhigh : loopCount < n) :
      InBlock xs n (.block pre.length loopCount (mpre ++ m :: mpost))
        (cs ++ turn post ++ (List.replicate (n - loopCount - 1).toNat (turn xs)).flatten)

/-- What is left to send is the first element's, that of the others, and the later
turns. -/
theorem replicate_turn {loopCount : Int} {x : Sender C} {post : List (Sender C)}
    (hxs : xs = x :: post) (hhigh : loopCount < n) :
    (List.replicate (n - loopCount).toNat (turn xs)).flatten =
      x.commands ++ turn post ++ (List.replicate (n - loopCount - 1).toNat (turn xs)).flatten := by
  obtain ⟨k, hk⟩ : ∃ k, (n - loopCount).toNat = k + 1 := ⟨(n - loopCount).toNat - 1, by omega⟩
  have hk' : (n - loopCount - 1).toNat = k := by omega
  rw [hk', hk, List.replicate_succ, List.flatten_cons]
  subst hxs
  simp only [turn, List.flatMap_cons, List.append_assoc]

/-- A block that begins a turn. -/
theorem InBlock.begin {loopCount : Int} {ms : List Members} (hms : AllFresh xs ms) (hne : xs ≠ [])
    (hlow : 0 ≤ loopCount) (hhigh : loopCount < n) :
    InBlock xs n (.block 0 loopCount ms)
      ((List.replicate (n - loopCount).toNat (turn xs)).flatten) := by
  cases hms with
  | nil => exact absurd rfl hne
  | cons hm hpost =>
    rw [replicate_turn rfl hhigh]
    exact InBlock.mk (List.nil_append _).symm .nil hpost (Sender.sends _ _ hm) hlow hhigh

/-- A block at the element after `x`. -/
theorem InBlock.after {pre post : List (Sender C)} {x y : Sender C} {loopCount : Int}
    {mpre mpost : List Members} {m : Members} (hxs : xs = pre ++ x :: y :: post)
    (hpre : AllFresh pre mpre) (hm : x.fresh m) (hpost : AllFresh (y :: post) mpost)
    (hlow : 0 ≤ loopCount) (hhigh : loopCount < n) :
    InBlock xs n (.block (pre.length + 1) loopCount (mpre ++ m :: mpost))
      (turn (y :: post) ++ (List.replicate (n - loopCount - 1).toNat (turn xs)).flatten) := by
  cases hpost with
  | @cons _ my _ mpost hmy hpost =>
    have hpre' : AllFresh (pre ++ [x]) (mpre ++ [m]) := List.rel_append hpre (.cons hm .nil)
    have h : InBlock xs n _ _ :=
      InBlock.mk (show xs = (pre ++ [x]) ++ y :: post by simp [hxs]) hpre' hpost
        (y.sends my hmy) hlow hhigh
    simpa [turn] using h

/-- The block has sent the first of the commands, or has none. -/
def Stepped (xs : List (Sender C)) (n : Int) (answer : Answer C) : List C → Prop
  | [] => ∃ m', answer = (⟨.next, false⟩, none, m') ∧ BlockFresh xs m'
  | c :: cs => ∃ ret m', answer = (ret, some c, m') ∧
      (ret = ⟨.zero, false⟩ ∧ cs = [] ∧ BlockFresh xs m' ∨ ret.GoesOn ∧ InBlock xs n m' cs)

variable (hend : ∀ k, 1 ≤ k → k ≤ n → (endLoop k = true ↔ n ≤ k))
include hend

/-- An element that has sent its last command is followed by the next one, by the first
in the next turn, or by nothing. -/
theorem stepped_blockScriptRet {pre post : List (Sender C)} {x : Sender C} {loopCount : Int}
    {mpre mpost : List Members} {m : Members} (hxs : xs = pre ++ x :: post)
    (hpre : AllFresh pre mpre) (hm : x.fresh m) (hpost : AllFresh post mpost)
    (hlow : 0 ≤ loopCount) (hhigh : loopCount < n) (c : C) :
    Stepped xs n
      (blockScriptRet endLoop ⟨.zero, false⟩ (some c) xs.length pre.length loopCount
        (mpre ++ m :: mpost))
      (c :: (turn post ++ (List.replicate (n - loopCount - 1).toNat (turn xs)).flatten)) := by
  have hloop := hend (loopCount + 1) (by omega) (by omega)
  have hall : AllFresh xs (mpre ++ m :: mpost) := hxs ▸ List.rel_append hpre (.cons hm hpost)
  cases post with
  | nil =>
    have hlast : pre.length + 1 = xs.length := by simp [hxs]
    by_cases hn : n ≤ loopCount + 1
    · have hk : (n - loopCount - 1).toNat = 0 := by omega
      exact ⟨_, _, by simp only [blockScriptRet, hlast, if_true, hloop.2 hn],
        .inl ⟨rfl, by simp [turn, hk], _, rfl, hall⟩⟩
    · have hfalse : endLoop (loopCount + 1) = false :=
        Bool.eq_false_iff.2 fun he => hn (hloop.1 he)
      refine ⟨_, .block 0 (loopCount + 1) (mpre ++ m :: mpost), by simp only [blockScriptRet, hlast,
        if_true, hfalse, Bool.false_eq_true, if_false], .inr ⟨Ret.goesOn_mask_zero, ?_⟩⟩
      have h : InBlock xs n (.block 0 (loopCount + 1) (mpre ++ m :: mpost)) _ :=
        InBlock.begin hall (by simp [hxs]) (by omega) (by omega)
      rwa [show n - (loopCount + 1) = n - loopCount - 1 by omega] at h
  | cons y post =>
    have hlast : pre.length + 1 ≠ xs.length := by simp [hxs]
    exact ⟨_, _, by simp only [blockScriptRet, hlast, if_true, if_false],
      .inr ⟨Ret.goesOn_mask_zero, InBlock.after hxs hpre hm hpost hlow hhigh⟩⟩

/-- The turns of a block, with fuel for the elements that are left. -/
theorem stepped_blockTurns (fuel : Nat) {pre post : List (Sender C)} {x : Sender C}
    {mpre mpost : List Members} {loopCount : Int} {m : Members} {cs : List C}
    (hxs : xs = pre ++ x :: post) (hpre : AllFresh pre mpre) (hpost : AllFresh post mpost)
    (hm : Sends x.ask x.fresh cs m) (hlow : 0 ≤ loopCount) (hhigh : loopCount < n)
    (hfuel : (n - loopCount - 1).toNat * xs.length + post.length < fuel) :
    Stepped xs n
      (blockTurns endLoop (xs.map (·.ask)) fuel pre.length loopCount (mpre ++ m :: mpost))
      (cs ++ turn post ++ (List.replicate (n - loopCount - 1).toNat (turn xs)).flatten) := by
  induction fuel generalizing pre post x mpre mpost loopCount m cs with
  | zero => omega
  | succ fuel ih =>
    have hlen : mpre.length = pre.length := hpre.length_eq.symm
    have hask : (xs.map (·.ask))[pre.length]? = some x.ask := by simp [hxs]
    have helem : (mpre ++ m :: mpost)[pre.length]? = some m := by simp [← hlen]
    have hset : ∀ m', (mpre ++ m :: mpost).set pre.length m' = mpre ++ m' :: mpost := by
      intro m'
      simp [← hlen]
    cases cs with
    | cons c cs =>
      obtain ⟨ret, m', hans, hret⟩ := hm
      rcases hret with ⟨rfl, rfl, hm'⟩ | ⟨hgo, hm'⟩
      · have h := stepped_blockScriptRet hend hxs hpre hm' hpost hlow hhigh c
        simp only [blockTurns, hask, helem, hans, hset, List.length_map]
        exact h
      · refine ⟨ret.mask, .block pre.length loopCount (mpre ++ m' :: mpost), ?_,
          .inr ⟨hgo.mask, .mk hxs hpre hpost hm' hlow hhigh⟩⟩
        simp only [blockTurns, hask, helem, hans, hset, ne_eq, hgo.code_ne_next, not_false_eq_true,
          if_true, blockScriptRet, hgo.1, if_false]
    | nil =>
      obtain ⟨m', hans, hm'⟩ := hm
      have hloop := hend (loopCount + 1) (by omega) (by omega)
      cases post with
      | nil =>
        have hall : AllFresh xs (mpre ++ m' :: mpost) :=
          hxs ▸ List.rel_append hpre (.cons hm' hpost)
        have hlast : pre.length + 1 = xs.length := by simp [hxs]
        by_cases hn : n ≤ loopCount + 1
        · have hk : (n - loopCount - 1).toNat = 0 := by omega
          simp only [blockTurns, hask, helem, hans, hset, List.length_map, hlast, ne_eq,
            not_true_eq_false, if_false, if_true, hloop.2 hn, hk]
          exact ⟨_, rfl, _, rfl, hall⟩
        · have hfalse : endLoop (loopCount + 1) = false :=
            Bool.eq_false_iff.2 fun he => hn (hloop.1 he)
          simp only [blockTurns, hask, helem, hans, hset, List.length_map, hlast, ne_eq,
            not_true_eq_false, if_false, if_true, hfalse, Bool.false_eq_true]
          generalize mpre ++ m' :: mpost = ms at hall
          cases hall with
          | nil => simp at hlast
          | @cons y my rest mrest hmy hrest =>
            have hturns : (n - loopCount - 1).toNat = (n - (loopCount + 1) - 1).toNat + 1 := by
              omega
            have hmul : ((n - (loopCount + 1) - 1).toNat + 1) * (y :: rest).length + 0 < fuel + 1 := by
              rw [← hturns]
              exact hfuel
            have h := ih (List.nil_append (y :: rest)).symm .nil hrest (y.sends my hmy)
              (show 0 ≤ loopCount + 1 by omega) (by omega)
              (by rw [Nat.add_mul, List.length_cons] at hmul; rw [List.length_cons]; omega)
            rw [← replicate_turn rfl (by omega),
              show n - (loopCount + 1) = n - loopCount - 1 by omega] at h
            simpa [turn] using h
      | cons y post =>
        have hlast : pre.length + 1 ≠ xs.length := by simp [hxs]
        simp only [blockTurns, hask, helem, hans, hset, List.length_map, hlast, ne_eq,
          not_true_eq_false, if_false]
        cases hpost with
        | @cons _ my _ mpost hmy hpost =>
          have hpre' : AllFresh (pre ++ [x]) (mpre ++ [m']) := List.rel_append hpre (.cons hm' .nil)
          have h := ih (show xs = (pre ++ [x]) ++ y :: post by simp [hxs]) hpre' hpost
            (y.sends my hmy) hlow hhigh (by simp only [List.length_cons] at hfuel; omega)
          simpa [turn] using h

section
variable (hmax : n = 1 ∨ n = max)
include hmax

/-- `defnextCommand` takes a block one command further. -/
theorem stepped_blockDefnextCommand {m : Members} {cs : List C} (h : InBlock xs n m cs) :
    Stepped xs n (blockDefnextCommand endLoop max (xs.map (·.ask)) m) cs := by
  cases h with
  | @mk pre post x mpre mpost loopCount m cs hxs hpre hpost hm hlow hhigh =>
    refine stepped_blockTurns hend _ hxs hpre hpost hm hlow hhigh ?_
    have hturns : (n - loopCount - 1).toNat ≤ (max - loopCount).toNat := by omega
    have hlen : post.length < xs.length := by
      rw [hxs, List.length_append, List.length_cons]
      omega
    have hmul := Nat.mul_le_mul_right xs.length hturns
    rw [List.length_map, Nat.add_mul, Nat.mul_add, Nat.mul_add]
    omega

/-- A function that takes a block from command to command as `defnextCommand` does
sends what the block has left. -/
theorem InBlock.sends {g : Members → Answer C} {m : Members} {cs : List C}
    (hg : ∀ m cs, InBlock xs n m cs → g m = blockDefnextCommand endLoop max (xs.map (·.ask)) m)
    (h : InBlock xs n m cs) : Sends g (BlockFresh xs) cs m := by
  induction cs generalizing m with
  | nil =>
    obtain ⟨m', hans, hm'⟩ := stepped_blockDefnextCommand hend hmax h
    exact ⟨m', (hg m [] h).trans hans, hm'⟩
  | cons c cs ih =>
    obtain ⟨ret, m', hans, hret⟩ := stepped_blockDefnextCommand hend hmax h
    exact ⟨ret, m', (hg m _ h).trans hans, hret.imp id fun hgo => ⟨hgo.1, ih hgo.2⟩⟩

/-- Asked by `defnextCommand`, a block turns once even if it should not turn at all. -/
theorem blockDefnextCommand_sends (hne : xs ≠ []) (hn : 0 < n) {m : Members}
    (hm : BlockFresh xs m) :
    Sends (blockDefnextCommand endLoop max (xs.map (·.ask))) (BlockFresh xs)
      (List.replicate n.toNat (turn xs)).flatten m := by
  obtain ⟨ms, rfl, hms⟩ := hm
  have h : InBlock xs n (.block 0 0 ms) _ := InBlock.begin hms hne (Int.le_refl 0) hn
  rw [Int.sub_zero] at h
  exact h.sends hend hmax fun _ _ _ => rfl

/-- Asked by `nextCommand`, a block sends its turns. -/
theorem blockNextCommand_sends (hne : xs ≠ []) (hn : 0 < n) (hzero : endLoop 0 = false)
    {m : Members} (hm : BlockFresh xs m) :
    Sends (blockNextCommand endLoop max (xs.map (·.ask))) (BlockFresh xs)
      (List.replicate n.toNat (turn xs)).flatten m := by
  obtain ⟨ms, rfl, hms⟩ := hm
  have h : InBlock xs n (.block 0 0 ms) _ := InBlock.begin hms hne (Int.le_refl 0) hn
  rw [Int.sub_zero] at h
  refine h.sends hend hmax fun m cs hm => ?_
  cases hm with
  | @mk pre post x mpre mpost loopCount m cs hxs hpre hpost hm hlow hhigh =>
    have hloop : endLoop loopCount = false := by
      rcases Int.lt_or_eq_of_le hlow with hpos | rfl
      · exact Bool.eq_false_iff.2 fun he => by
          have := (hend loopCount (by omega) (by omega)).1 he
          omega
      · exact hzero
    simp [blockNextCommand, hloop, hxs]

end

end Block

/-- A block that is empty, or is not to turn, has no command. -/
theorem blockNextCommand_skips {endLoop : Int → Bool} {max : Int} {fs : List (Members → Answer C)}
    {fresh : Members → Prop} {ms : List Members} (h : endLoop 0 = true ∨ fs = [])
    (hm : fresh (.block 0 0 ms)) :
    Sends (blockNextCommand endLoop max fs) fresh [] (.block 0 0 ms) :=
  ⟨_, by simp only [blockNextCommand, h, if_true], hm⟩

/-! ## Scripts -/

section Script
variable {acquired : Bool} {client : Client} {xs : List (Sender C)}

/-- A script at the element `x`, and what it is going to send. -/
inductive InScript (xs : List (Sender C)) : Nat → List Members → List C → Prop where
  | mk {pre post : List (Sender C)} {x : Sender C} {mpre mpost : List Members} {m : Members}
      {cs : List C} (hxs : xs = pre ++ x :: post) (hpre : AllFresh pre mpre)
      (hpost : AllFresh post mpost) (hm : Sends x.ask x.fresh cs m) :
      InScript xs pre.length (mpre ++ m :: mpost) (cs ++ turn post)
  | done {ms : List Members} (hms : AllFresh xs ms) : InScript xs xs.length ms []

/-- The script is at an element, or at its end. -/
theorem InScript.after {pre post : List (Sender C)} {x : Sender C} {mpre mpost : List Members}
    {m : Members} (hxs : xs = pre ++ x :: post) (hpre : AllFresh pre mpre) (hm : x.fresh m)
    (hpost : AllFresh post mpost) :
    InScript xs (pre.length + 1) (mpre ++ m :: mpost) (turn post) := by
  cases hpost with
  | nil =>
    have hlen : xs.length = pre.length + 1 := by simp [hxs]
    rw [← hlen]
    exact .done (hxs ▸ List.rel_append hpre (.cons hm .nil))
  | @cons y my post mpost hmy hpost =>
    have hpre' : AllFresh (pre ++ [x]) (mpre ++ [m]) := List.rel_append hpre (.cons hm .nil)
    have h : InScript xs _ _ _ :=
      .mk (show xs = (pre ++ [x]) ++ y :: post by simp [hxs]) hpre' hpost (y.sends my hmy)
    simpa [turn] using h

theorem InScript.start {ms : List Members} (hms : AllFresh xs ms) : InScript xs 0 ms (turn xs) := by
  cases hms with
  | nil => exact .done .nil
  | @cons x m post mpost hm hpost =>
    exact .mk (List.nil_append (x :: post)).symm .nil hpost (x.sends m hm)

/-- The script has sent the first of the commands, or reports its end. -/
def ScriptStepped (xs : List (Sender C)) (answer : Ret × Option C × Nat × List Members) :
    List C → Prop
  | [] => answer.1.code = .endScript
  | c :: cs => (answer.1.code = .zero ∨ answer.1.code = .keep) ∧ answer.2.1 = some c ∧
      InScript xs answer.2.2.1 answer.2.2.2 cs

theorem stepped_nextCommandTurns (fuel : Nat) {elIter : Nat} {elements : List Members}
    {cs : List C} (h : InScript xs elIter elements cs) (hfuel : xs.length < fuel + elIter) :
    ScriptStepped xs (nextCommandTurns (xs.map (·.ask)) fuel elIter elements) cs := by
  induction fuel generalizing elIter elements cs with
  | zero =>
    cases h with
    | mk hxs => simp only [hxs, List.length_append, List.length_cons] at hfuel; omega
    | done => omega
  | succ fuel ih =>
    cases h with
    | done =>
      show (nextCommandTurns _ _ _ _).1.code = _
      simp [nextCommandTurns]
    | @mk pre post x mpre mpost m cs hxs hpre hpost hm =>
      have hlen : mpre.length = pre.length := hpre.length_eq.symm
      have hask : (xs.map (·.ask))[pre.length]? = some x.ask := by simp [hxs]
      have helem : (mpre ++ m :: mpost)[pre.length]? = some m := by simp [← hlen]
      have hset : ∀ m', (mpre ++ m :: mpost).set pre.length m' = mpre ++ m' :: mpost := by
        intro m'
        simp [← hlen]
      cases cs with
      | nil =>
        obtain ⟨m', hans, hm'⟩ := hm
        simp only [nextCommandTurns, hask, helem, hans, hset, if_true]
        exact ih (.after hxs hpre hm' hpost) (by omega)
      | cons c cs =>
        obtain ⟨ret, m', hans, hret⟩ := hm
        rcases hret with ⟨rfl, rfl, hm'⟩ | ⟨hgo, hm'⟩
        · refine ⟨?_, ?_, ?_⟩ <;>
            simp only [nextCommandTurns, hask, helem, hans, hset, reduceCtorEq,
              Ret.mk.injEq, false_and, if_false, if_true, true_or]
          exact .after hxs hpre hm' hpost
        · have hnext : ret ≠ ⟨.next, false⟩ := fun he => hgo.code_ne_next (by rw [he])
          refine ⟨?_, ?_, ?_⟩ <;>
            simp only [nextCommandTurns, hask, helem, hans, hset, hnext, hgo.1, if_false]
          · exact hgo.2
          · exact .mk hxs hpre hpost hm'

/-- Called once more than there are commands, a script has given them all and reports
its end. -/
theorem issued_of_inScript {script : List (Element C)}
    (hfs : Element.nextCommands acquired client script = xs.map (·.ask)) (calls : Nat)
    {elIter : Nat} {elements : List Members} {cs : List C} (h : InScript xs elIter elements cs)
    (hcalls : cs.length < calls) :
    issued acquired client script calls elIter elements = some cs := by
  induction calls generalizing elIter elements cs with
  | zero => omega
  | succ calls ih =>
    have hlen : xs.length < script.length + 1 + elIter := by
      have := congrArg List.length hfs
      rw [Element.nextCommands_length, List.length_map] at this
      omega
    have hstep := stepped_nextCommandTurns (script.length + 1) h hlen
    rw [← hfs] at hstep
    cases cs with
    | nil =>
      have hend : (nextCommand acquired client script elIter elements).1.code = .endScript := hstep
      simp only [issued, hend]
    | cons c cs =>
      obtain ⟨hcode, hcommand, hin⟩ := hstep
      have hrest := ih hin (by simpa using hcalls)
      have hcommand' : (nextCommand acquired client script elIter elements).2.1 = some c := hcommand
      rcases hcode with hcode | hcode
      all_goals
        have hcode' : (nextCommand acquired client script elIter elements).1.code = _ := hcode
        unfold issued
        simp only [hcode', hcommand']
        exact congrArg (Option.map _) hrest

end Script

end Rts2.Script

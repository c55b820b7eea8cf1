import Rts2.Script.Sends
import Mathlib.Logic.Function.Iterate

/-! # The commands of a script

What a script should send can be read off its elements: a `for` loop repeats the commands
of its block, `ifacq` has the commands of one branch. An else branch, and what is in it,
is asked by `defnextCommand`. -/
namespace Rts2.Script

variable {C : Type} (client : Client) (acquired : Bool)

/-! ## Commands -/

mutual

/-- The commands an element has for the client, all loops unrolled. -/
def Element.commands : Element C → List C
  | .simple kind commands => if kind.answers client then commands else []
  | .forLoop max es => (List.replicate max.toNat (Element.commandsOf es)).flatten
  | .acquired es els => if acquired then Element.commandsOf es else Element.commandsOf els

def Element.commandsOf : List (Element C) → List C
  | [] => []
  | e :: es => e.commands ++ Element.commandsOf es

end

mutual

/-- `defnextCommand` has the commands of the element: no class in it overrides
`nextCommand` for the client, and every block has something to send and a turn to send it
in, as `defnextCommand` looks for neither. -/
def Element.Common : Element C → Prop
  | .simple kind commands => kind = .common ∨ kind.answers client = false ∨ commands = []
  | .forLoop max es => es ≠ [] ∧ 0 < max ∧ Element.AllCommon es
  | .acquired es els =>
    if acquired then es ≠ [] ∧ Element.AllCommon es else Element.AllCommon els

def Element.AllCommon : List (Element C) → Prop
  | [] => True
  | e :: es => e.Common ∧ Element.AllCommon es

end

mutual

/-- Every else branch that is taken can be asked by `defnextCommand`. -/
def Element.ElseCommon : Element C → Prop
  | .simple _ _ => True
  | .forLoop max es => max ≤ 0 ∨ Element.AllElseCommon es
  | .acquired es els =>
    if acquired then Element.AllElseCommon es else Element.AllCommon client acquired els

def Element.AllElseCommon : List (Element C) → Prop
  | [] => True
  | e :: es => e.ElseCommon ∧ Element.AllElseCommon es

end

mutual

/-- An element that can be run from its beginning. -/
def Element.Fresh : Element C → Members → Prop
  | .simple _ _, m => m = .simple 0
  | .forLoop _ es, m => ∃ ms, m = .block 0 0 ms ∧ Element.FreshAll es ms
  | .acquired es els, m => ∃ state ms ms', m = .acquired state (.block 0 0 ms) (.block 0 0 ms') ∧
      checkState acquired state = acquired ∧ Element.FreshAll es ms ∧ Element.FreshAll els ms'

def Element.FreshAll : List (Element C) → List Members → Prop
  | [], ms => ms = []
  | e :: es, ms => ∃ m ms', ms = m :: ms' ∧ e.Fresh m ∧ Element.FreshAll es ms'

end

/-! ## What is sent -/

section
variable {client acquired} {f g : Members → Answer C} {fresh fresh' : Members → Prop}

theorem forEndLoop_iff (max k : Int) : forEndLoop max k = true ↔ max ≤ k := by
  simp [forEndLoop]

theorem onceEndLoop_iff {k : Int} (hk : 1 ≤ k) : onceEndLoop k = true ↔ 1 ≤ k := by
  simp only [onceEndLoop, ne_eq, decide_eq_true_eq]
  omega

theorem Sends.congr {cs : List C} {m m' : Members} (hg : g m = g m') (h : Sends g fresh cs m') :
    Sends g fresh cs m := by
  cases cs with
  | nil =>
    obtain ⟨m'', hans, hm⟩ := h
    exact ⟨m'', hg.trans hans, hm⟩
  | cons c cs =>
    obtain ⟨ret, m'', hans, hret⟩ := h
    exact ⟨ret, m'', hg.trans hans, hret⟩

/-- An element that asks a block of its own sends what the block sends. -/
theorem Sends.put (put : Members → Members) {cs : List C} {m : Members}
    (hput : ∀ m, g (put m) = ((f m).1, (f m).2.1, put (f m).2.2))
    (hfresh : ∀ m, fresh m → fresh' (put m)) (h : Sends f fresh cs m) :
    Sends g fresh' cs (put m) := by
  induction cs generalizing m with
  | nil =>
    obtain ⟨m', hans, hm'⟩ := h
    exact ⟨put m', by rw [hput, hans], hfresh m' hm'⟩
  | cons c cs ih =>
    obtain ⟨ret, m', hans, hret⟩ := h
    refine ⟨ret, put m', by rw [hput, hans], ?_⟩
    rcases hret with ⟨hz, hcs, hm'⟩ | ⟨hgo, hm'⟩
    · exact .inl ⟨hz, hcs, hfresh m' hm'⟩
    · exact .inr ⟨hgo, ih hm'⟩

theorem Sends.weaken {cs : List C} {m : Members} (hfresh : ∀ m, fresh m → fresh' m)
    (h : Sends f fresh cs m) : Sends f fresh' cs m :=
  h.put id (fun _ => rfl) hfresh

/-- The elements as senders that are asked by the functions `fs`. -/
structure SentBy (client : Client) (acquired : Bool) (fs : List (Members → Answer C))
    (es : List (Element C)) (xs : List (Sender C)) : Prop where
  ask : fs = xs.map (·.ask)
  fresh : ∀ ms, Element.FreshAll acquired es ms ↔ AllFresh xs ms
  commands : Element.commandsOf client acquired es = turn xs

theorem SentBy.nil : SentBy (C := C) client acquired [] [] [] :=
  ⟨rfl, fun ms => by simp [Element.FreshAll, AllFresh], rfl⟩

theorem SentBy.cons {e : Element C} {es : List (Element C)} {fs : List (Members → Answer C)}
    {xs : List (Sender C)} (h : SentBy client acquired fs es xs)
    (he : ∀ m, e.Fresh acquired m → Sends f (e.Fresh acquired) (e.commands client acquired) m) :
    SentBy client acquired (f :: fs) (e :: es)
      (⟨f, e.Fresh acquired, e.commands client acquired, he⟩ :: xs) where
  ask := by rw [h.ask, List.map_cons]
  fresh ms := by
    constructor
    · rintro ⟨m, ms, rfl, hm, hms⟩
      exact .cons hm ((h.fresh ms).1 hms)
    · rintro (_ | ⟨hm, hms⟩)
      exact ⟨_, _, rfl, hm, (h.fresh _).2 hms⟩
  commands := by simp only [Element.commandsOf, h.commands, turn, List.flatMap_cons]

theorem SentBy.ne_nil {es : List (Element C)} {fs : List (Members → Answer C)}
    {xs : List (Sender C)} (h : SentBy client acquired fs es xs) (hfs : fs.length = es.length)
    (hne : es ≠ []) : xs ≠ [] := by
  rintro rfl
  rw [h.ask, List.map_nil, List.length_nil, eq_comm, List.length_eq_zero_iff] at hfs
  exact hne hfs

theorem SentBy.blockFresh {es : List (Element C)} {fs : List (Members → Answer C)}
    {xs : List (Sender C)} (h : SentBy client acquired fs es xs) (m : Members) :
    (∃ ms, m = .block 0 0 ms ∧ Element.FreshAll acquired es ms) ↔ BlockFresh xs m :=
  exists_congr fun ms => and_congr_right fun _ => h.fresh ms

/-- A property of all elements of the blocks of an element is one of the element. -/
theorem Element.induct {P : Element C → Prop}
    (simple : ∀ kind commands, P (.simple kind commands))
    (forLoop : ∀ max es, (∀ e ∈ es, P e) → P (.forLoop max es))
    (acquired : ∀ es els, (∀ e ∈ es, P e) → (∀ e ∈ els, P e) → P (.acquired es els))
    (e : Element C) : P e :=
  e.rec (motive_2 := fun es => ∀ e ∈ es, P e) simple forLoop acquired nofun
    fun _ _ he hes => List.forall_mem_cons.2 ⟨he, hes⟩

theorem Element.allCommon_iff (es : List (Element C)) :
    Element.AllCommon client acquired es ↔ ∀ e ∈ es, e.Common client acquired := by
  induction es with
  | nil => simp [Element.AllCommon]
  | cons e es ih => simp [Element.AllCommon, ih]

theorem Element.allElseCommon_iff (es : List (Element C)) :
    Element.AllElseCommon client acquired es ↔ ∀ e ∈ es, e.ElseCommon client acquired := by
  induction es with
  | nil => simp [Element.AllElseCommon]
  | cons e es ih => simp [Element.AllElseCommon, ih]

/-! ## Asked by `defnextCommand` -/

theorem Element.defnextCommands_length (es : List (Element C)) :
    (Element.defnextCommands acquired es).length = es.length := by
  induction es with
  | nil => rfl
  | cons e es ih => simp [Element.defnextCommands, ih]

theorem Kind.answers_common : Kind.common.answers client = true := by cases client <;> rfl

theorem defnextCommand_simple {kind : Kind} {commands : List C}
    (h : (Element.simple kind commands).Common client acquired) {m : Members}
    (hm : m = .simple 0) :
    Sends (Element.defnextCommand acquired (.simple kind commands))
      (Element.Fresh acquired (.simple kind commands))
      (Element.commands client acquired (.simple kind commands)) m := by
  subst hm
  by_cases hkind : kind = .common
  · subst hkind
    have hfun : Element.defnextCommand acquired (.simple .common commands) =
        simpleCommand commands := funext fun m => by simp [Element.defnextCommand]
    rw [hfun, Element.commands, if_pos Kind.answers_common]
    exact simpleCommand_sends commands 0 (.inr rfl)
  · have hnone : Element.commands client acquired (.simple kind commands) = [] := by
      rcases h with h | h | h
      · exact absurd h hkind
      · simp [Element.commands, h]
      · simp [Element.commands, h]
    rw [hnone]
    exact ⟨_, by simp only [Element.defnextCommand, if_neg hkind], rfl⟩

/-- Elements that send their commands, each asked by `defnextCommand`. -/
theorem sentBy_defnextCommands (es : List (Element C))
    (h : ∀ e ∈ es, ∀ m, e.Fresh acquired m →
      Sends (e.defnextCommand acquired) (e.Fresh acquired) (e.commands client acquired) m) :
    ∃ xs, SentBy client acquired (Element.defnextCommands acquired es) es xs := by
  induction es with
  | nil => exact ⟨[], .nil⟩
  | cons e es ih =>
    obtain ⟨he, hes⟩ := List.forall_mem_cons.1 h
    obtain ⟨xs, hxs⟩ := ih hes
    exact ⟨_, hxs.cons he⟩

/-- A branch of `ifacq`, asked by `defnextCommand`, turns once. -/
theorem branch_defnextCommand {es : List (Element C)} {xs : List (Sender C)} (hne : es ≠ [])
    (hxs : SentBy client acquired (Element.defnextCommands acquired es) es xs) {ms : List Members}
    (hms : Element.FreshAll acquired es ms) :
    Sends (blockDefnextCommand onceEndLoop 1 (Element.defnextCommands acquired es)) (BlockFresh xs)
      (Element.commandsOf client acquired es) (.block 0 0 ms) := by
  have h : Sends (blockDefnextCommand onceEndLoop 1 (xs.map (·.ask))) (BlockFresh xs) _
      (.block 0 0 ms) :=
    blockDefnextCommand_sends (fun k hk _ => onceEndLoop_iff hk) (.inl rfl)
      (hxs.ne_nil (Element.defnextCommands_length es) hne) Int.one_pos
      ((hxs.blockFresh _).1 ⟨ms, rfl, hms⟩)
  rw [← hxs.ask] at h
  simpa [hxs.commands] using h

/-- The block of `ifacq` is asked when the target is acquired. -/
theorem Sends.taken {es els : List (Element C)} {xs : List (Sender C)} {ms ms' : List Members}
    {state : Option Bool} {fs : List (Members → Answer C)}
    (h : Sends f (BlockFresh xs) (Element.commandsOf client true es) (.block 0 0 ms))
    (hxs : SentBy client true fs es xs) (hms' : Element.FreshAll true els ms')
    (hg : ∀ state m elseBlock, checkState true state = true →
      g (.acquired state m elseBlock) = ((f m).1, (f m).2.1, .acquired (some true) (f m).2.2 elseBlock))
    (hstate : checkState true state = true) :
    Sends g (Element.Fresh true (.acquired es els))
      (Element.commands client true (.acquired es els))
      (.acquired state (.block 0 0 ms) (.block 0 0 ms')) := by
  have hput : Sends g (Element.Fresh true (.acquired es els)) (Element.commandsOf client true es)
      (.acquired (some true) (.block 0 0 ms) (.block 0 0 ms')) :=
    h.put (fun m => .acquired (some true) m (.block 0 0 ms')) (fun m => hg (some true) m _ rfl)
      fun m hm => by
        obtain ⟨ms, rfl, hms⟩ := (hxs.blockFresh m).2 hm
        exact ⟨_, _, _, rfl, rfl, hms, hms'⟩
  exact Sends.congr ((hg state _ _ hstate).trans (hg (some true) _ _ rfl).symm) hput

/-- The else block is asked by `defnextCommand` when the target is not acquired. -/
theorem else_sends {es els : List (Element C)} {xs : List (Sender C)} {ms ms' : List Members}
    {state : Option Bool}
    (hxs : SentBy client false (Element.defnextCommands false els) els xs)
    (hms : Element.FreshAll false es ms) (hms' : Element.FreshAll false els ms')
    (hg : ∀ state m elseBlock, checkState false state = false →
      g (.acquired state m elseBlock) =
        if els = [] then (⟨.next, false⟩, none, .acquired (some false) m elseBlock)
        else
          let answer := blockDefnextCommand onceEndLoop 1 (Element.defnextCommands false els) elseBlock
          (answer.1, answer.2.1, .acquired (some false) m answer.2.2))
    (hstate : checkState false state = false) :
    Sends g (Element.Fresh false (.acquired es els))
      (Element.commands client false (.acquired es els))
      (.acquired state (.block 0 0 ms) (.block 0 0 ms')) := by
  by_cases hne : els = []
  · subst hne
    exact ⟨.acquired (some false) (.block 0 0 ms) (.block 0 0 ms'), by rw [hg _ _ _ hstate, if_pos rfl],
      _, _, _, rfl, rfl, hms, hms'⟩
  · have hput : Sends g (Element.Fresh false (.acquired es els))
        (Element.commandsOf client false els)
        (.acquired (some false) (.block 0 0 ms) (.block 0 0 ms')) :=
      (branch_defnextCommand hne hxs hms').put (fun m => .acquired (some false) (.block 0 0 ms) m)
        (fun m => by rw [hg _ _ _ rfl, if_neg hne]) fun m hm => by
          obtain ⟨ms', rfl, hms'⟩ := (hxs.blockFresh m).2 hm
          exact ⟨_, _, _, rfl, rfl, hms, hms'⟩
    exact Sends.congr ((hg state _ _ hstate).trans (hg (some false) _ _ rfl).symm) hput

/-- What `defnextCommand` sends of an element it has the commands of. -/
theorem Element.Common.sends (e : Element C) (h : e.Common client acquired) (m : Members)
    (hm : e.Fresh acquired m) :
    Sends (e.defnextCommand acquired) (e.Fresh acquired) (e.commands client acquired) m := by
  induction e using Element.induct generalizing m with
  | simple kind commands => exact defnextCommand_simple h hm
  | forLoop max es ih =>
    obtain ⟨hne, hmax, hes⟩ := h
    obtain ⟨xs, hxs⟩ := sentBy_defnextCommands es fun e he m hm =>
      ih e he ((Element.allCommon_iff es).1 hes e he) m hm
    have hsend := blockDefnextCommand_sends (fun k _ _ => forEndLoop_iff max k) (.inr rfl)
      (hxs.ne_nil (Element.defnextCommands_length es) hne) hmax ((hxs.blockFresh m).1 hm)
    rw [← hxs.ask, ← hxs.commands] at hsend
    exact hsend.weaken fun m => (hxs.blockFresh m).2
  | acquired es els ih ihElse =>
    obtain ⟨state, ms, ms', rfl, hstate, hms, hms'⟩ := hm
    cases acquired with
    | true =>
      obtain ⟨hne, hes⟩ := h
      obtain ⟨xs, hxs⟩ := sentBy_defnextCommands es fun e he m hm =>
        ih e he ((Element.allCommon_iff es).1 hes e he) m hm
      exact (branch_defnextCommand hne hxs hms).taken hxs hms'
        (fun state m elseBlock hs => by simp only [Element.defnextCommand, hs, if_true]) hstate
    | false =>
      obtain ⟨xs, hxs⟩ := sentBy_defnextCommands els fun e he m hm =>
        ihElse e he ((Element.allCommon_iff els).1 h e he) m hm
      exact else_sends hxs hms hms'
        (fun state m elseBlock hs => by
          simp only [Element.defnextCommand, hs, Bool.false_eq_true, if_false])
        hstate

/-! ## Asked by `nextCommand` -/

theorem nextCommand_simple (kind : Kind) (commands : List C) {m : Members} (hm : m = .simple 0) :
    Sends (Element.nextCommand acquired client (.simple kind commands))
      (Element.Fresh acquired (.simple kind commands))
      (Element.commands client acquired (.simple kind commands)) m := by
  subst hm
  cases hanswers : kind.answers client with
  | true =>
    have hfun : Element.nextCommand acquired client (.simple kind commands) =
        simpleCommand commands := funext fun m => by simp [Element.nextCommand, hanswers]
    rw [hfun, Element.commands, if_pos hanswers]
    exact simpleCommand_sends commands 0 (.inr rfl)
  | false =>
    simp only [Element.commands, hanswers, Bool.false_eq_true, if_false]
    exact ⟨_, by simp only [Element.nextCommand, hanswers, Bool.false_eq_true, if_false], rfl⟩

/-- Elements that send their commands, each asked by `nextCommand`. -/
theorem sentBy_nextCommands (es : List (Element C))
    (h : ∀ e ∈ es, ∀ m, e.Fresh acquired m →
      Sends (e.nextCommand acquired client) (e.Fresh acquired) (e.commands client acquired) m) :
    ∃ xs, SentBy client acquired (Element.nextCommands acquired client es) es xs := by
  induction es with
  | nil => exact ⟨[], .nil⟩
  | cons e es ih =>
    obtain ⟨he, hes⟩ := List.forall_mem_cons.1 h
    obtain ⟨xs, hxs⟩ := ih hes
    exact ⟨_, hxs.cons he⟩

/-- A block, asked by `nextCommand`, sends its turns, or nothing if it has none. -/
theorem block_nextCommand {endLoop : Int → Bool} {max n : Int} {es : List (Element C)}
    {xs : List (Sender C)}
    (hxs : SentBy client acquired (Element.nextCommands acquired client es) es xs)
    (hend : ∀ k, 1 ≤ k → k ≤ n → (endLoop k = true ↔ n ≤ k)) (hmax : n = 1 ∨ n = max)
    (hn : 0 < n) (hzero : endLoop 0 = false) {m : Members} (hm : BlockFresh xs m) :
    Sends (blockNextCommand endLoop max (Element.nextCommands acquired client es)) (BlockFresh xs)
      (List.replicate n.toNat (Element.commandsOf client acquired es)).flatten m := by
  by_cases hne : xs = []
  · obtain ⟨ms, rfl, hms⟩ := hm
    have hnone : (List.replicate n.toNat (Element.commandsOf client acquired es)).flatten = [] := by
      simp [hxs.commands, hne, turn]
    rw [hnone]
    exact blockNextCommand_skips (.inr (by simp [hxs.ask, hne])) ⟨ms, rfl, hms⟩
  · rw [hxs.ask, hxs.commands]
    exact blockNextCommand_sends hend hmax hne hn hzero hm

/-- What `nextCommand` sends of an element whose else branches can be asked. -/
theorem Element.ElseCommon.sends (e : Element C) (h : e.ElseCommon client acquired) (m : Members)
    (hm : e.Fresh acquired m) :
    Sends (e.nextCommand acquired client) (e.Fresh acquired) (e.commands client acquired) m := by
  induction e using Element.induct generalizing m with
  | simple kind commands => exact nextCommand_simple kind commands hm
  | forLoop max es ih =>
    by_cases hmax : 0 < max
    · have hes := h.resolve_left (by omega)
      obtain ⟨xs, hxs⟩ := sentBy_nextCommands es fun e he m hm =>
        ih e he ((Element.allElseCommon_iff es).1 hes e he) m hm
      have hzero : forEndLoop max 0 = false :=
        Bool.eq_false_iff.2 fun he => by have := (forEndLoop_iff max 0).1 he; omega
      have hsend := block_nextCommand hxs (fun k _ _ => forEndLoop_iff max k) (.inr rfl) hmax hzero
        ((hxs.blockFresh m).1 hm)
      exact hsend.weaken fun m => (hxs.blockFresh m).2
    · obtain ⟨ms, rfl, hms⟩ := hm
      have hnone : (Element.forLoop max es).commands client acquired = [] := by
        simp [Element.commands, show max.toNat = 0 by omega]
      rw [hnone]
      exact blockNextCommand_skips (.inl ((forEndLoop_iff max 0).2 (by omega))) ⟨ms, rfl, hms⟩
  | acquired es els ih ihElse =>
    obtain ⟨state, ms, ms', rfl, hstate, hms, hms'⟩ := hm
    cases acquired with
    | true =>
      obtain ⟨xs, hxs⟩ := sentBy_nextCommands es fun e he m hm =>
        ih e he ((Element.allElseCommon_iff es).1 h e he) m hm
      have hsend : Sends (blockNextCommand onceEndLoop 1 (Element.nextCommands true client es))
          (BlockFresh xs) _ (.block 0 0 ms) :=
        block_nextCommand hxs (fun k hk _ => onceEndLoop_iff hk) (.inl rfl) Int.one_pos rfl
          ((hxs.blockFresh _).1 ⟨ms, rfl, hms⟩)
      exact Sends.taken (by simpa using hsend) hxs hms'
        (fun state m elseBlock hs => by simp only [Element.nextCommand, hs, if_true]) hstate
    | false =>
      obtain ⟨xs, hxs⟩ := sentBy_defnextCommands els fun e he m hm =>
        Element.Common.sends e ((Element.allCommon_iff els).1 h e he) m hm
      exact else_sends hxs hms hms'
        (fun state m elseBlock hs => by
          simp only [Element.nextCommand, hs, Bool.false_eq_true, if_false])
        hstate

theorem Element.freshAll_inits {es : List (Element C)}
    (h : ∀ e ∈ es, e.Fresh acquired e.init) : Element.FreshAll acquired es (Element.inits es) := by
  induction es with
  | nil => rfl
  | cons e es ih =>
    obtain ⟨he, hes⟩ := List.forall_mem_cons.1 h
    exact ⟨_, _, rfl, he, ih hes⟩

/-- Before it is first asked an element can be run. -/
theorem Element.fresh_init (e : Element C) : e.Fresh acquired e.init := by
  induction e using Element.induct with
  | simple kind commands => rfl
  | forLoop max es ih => exact ⟨_, rfl, Element.freshAll_inits ih⟩
  | acquired es els ih ihElse =>
    exact ⟨_, _, _, rfl, rfl, Element.freshAll_inits ih, Element.freshAll_inits ihElse⟩

/-- A script whose else branches can be asked gives its commands. -/
theorem issued_commands {script : List (Element C)}
    (h : ∀ e ∈ script, e.ElseCommon client acquired) {calls : Nat}
    (hcalls : (Element.commandsOf client acquired script).length < calls) :
    issued acquired client script calls 0 (Element.inits script) =
      some (Element.commandsOf client acquired script) := by
  obtain ⟨xs, hxs⟩ := sentBy_nextCommands script fun e he m hm =>
    Element.ElseCommon.sends e (h e he) m hm
  have hstart : InScript xs 0 (Element.inits script) (turn xs) :=
    .start ((hxs.fresh _).1 (Element.freshAll_inits fun e _ => e.fresh_init))
  rw [← hxs.commands] at hstart
  exact issued_of_inScript hxs.ask calls hstart hcalls

/-! ## Blocks that are run again -/

/-- A run of the element is over. -/
def Ret.Ends (ret : Ret) : Prop := ret = ⟨.next, false⟩ ∨ ret = ⟨.zero, false⟩

/-- An element that sends its commands can be run again when a run is over, and is
sending the rest of them otherwise. -/
theorem Sends.after {cs : List C} {m : Members} (h : Sends f fresh cs m) :
    ((f m).1.Ends → fresh (f m).2.2) ∧
      (¬ (f m).1.Ends → ∃ cs', Sends f fresh cs' (f m).2.2) := by
  cases cs with
  | nil =>
    obtain ⟨m', hans, hm'⟩ := h
    rw [hans]
    exact ⟨fun _ => hm', fun he => absurd (.inl rfl) he⟩
  | cons c cs =>
    obtain ⟨ret, m', hans, hret⟩ := h
    rw [hans]
    rcases hret with ⟨rfl, -, hm'⟩ | ⟨hgo, hm'⟩
    · exact ⟨fun _ => hm', fun he => absurd (.inr rfl) he⟩
    · refine ⟨fun he => ?_, fun _ => ⟨cs, hm'⟩⟩
      rcases he with he | he
      · exact absurd (congrArg Ret.code he) hgo.code_ne_next
      · exact absurd he hgo.1

/-- In every state it is brought to by being asked, an element is sending its commands. -/
theorem sends_iterate (hfresh : ∀ m, fresh m → ∃ cs, Sends f fresh cs m) {m : Members}
    (hm : fresh m) (n : Nat) : ∃ cs, Sends f fresh cs ((fun m => (f m).2.2)^[n] m) := by
  induction n with
  | zero => exact hfresh m hm
  | succ n ih =>
    obtain ⟨cs, hcs⟩ := ih
    rw [Function.iterate_succ_apply']
    by_cases he : (f ((fun m => (f m).2.2)^[n] m)).1.Ends
    · exact hfresh _ (hcs.after.1 he)
    · exact hcs.after.2 he

end

mutual

/-- A tree of `for` blocks over elements that have one command for the client. -/
def Element.IsFor : Element C → Prop
  | .simple kind commands => kind.answers client ∧ commands.length = 1
  | .forLoop _ es => Element.AllFor es
  | .acquired _ _ => False

def Element.AllFor : List (Element C) → Prop
  | [] => True
  | e :: es => e.IsFor ∧ Element.AllFor es

end

section
variable {client acquired}

theorem Element.allFor_iff (es : List (Element C)) :
    Element.AllFor client es ↔ ∀ e ∈ es, e.IsFor client := by
  induction es with
  | nil => simp [Element.AllFor]
  | cons e es ih => simp [Element.AllFor, ih]

/-- There is no else branch in it. -/
theorem Element.IsFor.elseCommon (e : Element C) (h : e.IsFor client) :
    e.ElseCommon client acquired := by
  induction e using Element.induct with
  | simple kind commands => trivial
  | forLoop max es ih =>
    exact .inr ((Element.allElseCommon_iff es).2 fun e he => ih e he ((Element.allFor_iff es).1 h e he))
  | acquired es els => exact absurd h id

theorem Element.freshAll_eq_inits {es : List (Element C)} {ms : List Members}
    (h : ∀ e ∈ es, ∀ m, e.Fresh acquired m → m = e.init) (hms : Element.FreshAll acquired es ms) :
    ms = Element.inits es := by
  induction es generalizing ms with
  | nil => exact hms
  | cons e es ih =>
    obtain ⟨he, hes⟩ := List.forall_mem_cons.1 h
    obtain ⟨m, ms, rfl, hm, hms⟩ := hms
    rw [he m hm, ih hes hms]
    rfl

/-- It can be run again when it is as it was at first, with all that is in it. -/
theorem Element.IsFor.eq_init (e : Element C) (h : e.IsFor client) (m : Members)
    (hm : e.Fresh acquired m) : m = e.init := by
  induction e using Element.induct generalizing m with
  | simple kind commands => exact hm
  | forLoop max es ih =>
    obtain ⟨ms, rfl, hms⟩ := hm
    rw [Element.freshAll_eq_inits (fun e he => ih e he ((Element.allFor_iff es).1 h e he)) hms]
    rfl
  | acquired es els => exact absurd h id

/-- **Loops are unrolled.** A script of `for` blocks over elements that have one command
gives the commands of the unrolled script and reports its end; and a block that has been
run, however often it was asked and whatever it is in, is at its first element with no
turn counted, and so is all that is in it. -/
theorem for_unrolled {script : List (Element C)} (h : ∀ e ∈ script, e.IsFor client) :
    (∀ calls, (Element.commandsOf client acquired script).length < calls →
      issued acquired client script calls 0 (Element.inits script) =
        some (Element.commandsOf client acquired script)) ∧
    ∀ e : Element C, e.IsFor client → ∀ n,
      (e.nextCommand acquired client
        ((fun m => (e.nextCommand acquired client m).2.2)^[n] e.init)).1.Ends →
      (e.nextCommand acquired client
        ((fun m => (e.nextCommand acquired client m).2.2)^[n] e.init)).2.2 = e.init := by
  refine ⟨fun calls hcalls => issued_commands (fun e he => (h e he).elseCommon) hcalls,
    fun e he n hends => ?_⟩
  obtain ⟨cs, hcs⟩ := sends_iterate
    (fun m hm => ⟨_, Element.ElseCommon.sends e he.elseCommon m hm⟩) e.fresh_init n
  exact he.eq_init e _ (hcs.after.1 hends)

/-- A loop in a loop, one that is not to run and one that is empty. -/
theorem for_unrolled_nested :
    issued true .camera
      [.forLoop 2 [.simple .common [1], .forLoop 3 [.simple .camera [2]], .forLoop 0 [.simple .common [3]],
        .forLoop 5 []]] 9 0
      (Element.inits [.forLoop 2 [.simple .common [1], .forLoop 3 [.simple .camera [2]],
        .forLoop 0 [.simple .common [3]], .forLoop 5 []]]) =
      some [1, 2, 2, 2, 1, 2, 2, 2] := by
  have h : ∀ e ∈ [Element.forLoop 2 [.simple .common [1], .forLoop 3 [.simple .camera [2]],
      .forLoop 0 [.simple .common [3]], .forLoop 5 []]], e.IsFor .camera := by
    simp [Element.IsFor, Element.AllFor, Kind.answers]
  exact (for_unrolled h).1 9 (by decide)

/-! ## Branches -/

end

end Rts2.Script

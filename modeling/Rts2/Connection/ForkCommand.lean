import Mathlib.Data.List.TakeWhile
import Rts2.Lib.Cut
import Rts2.Lib.Strtod

/-! # The command of a child process

The constructor of `ConnFork` splits a command into the program and its arguments. It ends every
token in place, with a NUL that it writes to the string of the caller. A character stands for a
byte. -/
namespace Rts2.Connection.ForkCommand
open Rts2.Lib

def nul : Char := '\x00'

/-- `*pos`; a NUL stands behind the string. -/
def cur (rest : List Char) : Char := rest.headD nul

def isquote (c : Char) : Bool := c = '"' || c = '\x27'

/-! ## One token -/

section
variable (pos : List Char)

/-- `pos` behind the blanks. -/
def skipped : List Char := pos.dropWhile Strtod.isspace

/-- `endChar`, a NUL when the token has no quotes. -/
def endChar : Char := if isquote (cur (skipped pos)) then cur (skipped pos) else nul

/-- What stands before `start`: the blanks, and a quote. -/
def opening : List Char :=
  pos.takeWhile Strtod.isspace ++ if isquote (cur (skipped pos)) then (skipped pos).take 1 else []

def start : List Char :=
  if isquote (cur (skipped pos)) then (skipped pos).drop 1 else skipped pos

/-- The condition of the loop over a token. -/
def inToken (endChar c : Char) : Bool :=
  ((endChar = nul && !Strtod.isspace c) || (endChar ≠ nul && c ≠ endChar)) && c ≠ nul

def token : List Char := (start pos).takeWhile (inToken (endChar pos))

/-- `pos` behind the token. -/
def behind : List Char := (start pos).dropWhile (inToken (endChar pos))

end

/-! ## The constructor -/

/-- The constructor: `before` is the string up to `pos` as it is now, `pos` is the rest of it. -/
structure Scan where
  before : List Char
  pos : List Char
  exePath : Option (List Char)
  argv : List (List Char)
  count : Nat
  finished : Bool
  deriving DecidableEq

def Scan.begin (_exe : List Char) : Scan := ⟨[], _exe, none, [], 0, false⟩

/-- `if (pos > start)`: the first token is copied to `exePath`, the others are arguments. -/
def Scan.store (s : Scan) (start : Nat) (token : List Char) : Scan :=
  if start < s.before.length then
    if s.count = 0 then { s with exePath := some token, count := s.count + 1 }
    else { s with argv := s.argv ++ [token], count := s.count + 1 }
  else { s with count := s.count + 1 }

/-- One round of the outer loop. -/
def Scan.round (s : Scan) : Scan :=
  let start := s.before ++ opening s.pos
  let s' :=
    if cur (behind s.pos) = nul then
      { s with before := start ++ token s.pos, pos := behind s.pos, finished := true }
    else
      { s with before := start ++ token s.pos ++ [nul], pos := (behind s.pos).drop 1 }
  s'.store start.length (token s.pos)

/-- `while (!finished)` -/
def Scan.loop : Nat → Scan → Scan
  | 0, s => s
  | fuel + 1, s => if s.finished then s else Scan.loop fuel s.round

/-- The new connection, and the string of the caller. -/
structure Constructed where
  exePath : Option (List Char)
  argv : List (List Char)
  _exe : List Char
  deriving DecidableEq

/-- Every round but the last one takes a character. -/
def construct (_exe : List Char) : Constructed :=
  let s := Scan.loop (_exe.length + 1) (Scan.begin _exe)
  ⟨s.exePath, s.argv, s.before ++ s.pos⟩

/-! ## Commands -/

/-- The token that is read: its closing quote, when it has one, and its characters so far. -/
structure Open where
  quote : Option Char
  text : List Char

def Open.closes (t : Open) (c : Char) : Bool := t.quote.elim (Strtod.isspace c) (c = ·)

def Open.add (t : Open) (c : Char) : Open := { t with text := t.text ++ [c] }

/-- A token that begins with this character. -/
def Open.first (c : Char) : Open := if isquote c then ⟨some c, []⟩ else ⟨none, [c]⟩

/-- The tokens of a command, read character by character. Blanks separate them, a token in quotes
goes to the next such quote; what is not closed goes to the end, if there is anything in it. -/
def tokensFrom : Option Open → List Char → List (List Char)
  | none, [] => []
  | none, c :: cs =>
    if Strtod.isspace c then tokensFrom none cs else tokensFrom (some (Open.first c)) cs
  | some t, [] => if t.text = [] then [] else [t.text]
  | some t, c :: cs =>
    if t.closes c then t.text :: tokensFrom none cs else tokensFrom (some (t.add c)) cs

def tokens (command : List Char) : List (List Char) := tokensFrom none command

/-- The connection gets the tokens of its command, the string of the caller stays as it is, and a
second connection from it gets the same. -/
structure Exact (command : List Char) : Prop where
  first : (construct command).exePath = (tokens command).head?
  others : (construct command).argv = (tokens command).tail
  unchanged : (construct command)._exe = command
  again : (construct (construct command)._exe).exePath = (construct command).exePath ∧
    (construct (construct command)._exe).argv = (construct command).argv

/-- Nothing ends the first token: a quote that is opened is not closed, or no blank follows. -/
def RunsToEnd (command : List Char) : Prop :=
  if isquote (cur (skipped command)) then cur (skipped command) ∉ (skipped command).drop 1
  else ∀ c ∈ skipped command, Strtod.isspace c = false

instance instDecidableRunsToEnd (command : List Char) : Decidable (RunsToEnd command) :=
  inferInstanceAs (Decidable (if isquote (cur (skipped command)) then
    cur (skipped command) ∉ (skipped command).drop 1
  else ∀ c ∈ skipped command, Strtod.isspace c = false))

/-! ## Reading one token -/

section
variable {pos : List Char}

theorem opening_token_behind (pos : List Char) : opening pos ++ (token pos ++ behind pos) = pos := by
  unfold token behind
  rw [List.takeWhile_append_dropWhile]
  unfold opening start
  split
  · rw [List.append_assoc, List.take_append_drop]
    exact List.takeWhile_append_dropWhile
  · rw [List.append_nil]
    exact List.takeWhile_append_dropWhile

theorem nul_notMem_behind (h : nul ∉ pos) : nul ∉ behind pos := by
  intro hmem
  rw [← opening_token_behind pos] at h
  exact h (List.mem_append_right _ (List.mem_append_right _ hmem))

/-- Without a NUL in the string the scan stops at its end only. -/
theorem cur_eq_nul (h : nul ∉ pos) : cur pos = nul ↔ pos = [] := by
  cases pos with
  | nil => simp [cur]
  | cons c rest =>
    have hne : c ≠ nul := fun hc => h (hc ▸ List.mem_cons_self)
    simp [cur, hne]

theorem tokensFrom_skipped (pos : List Char) : tokensFrom none pos = tokensFrom none (skipped pos) := by
  unfold skipped
  induction pos with
  | nil => rfl
  | cons c rest ih =>
    by_cases hc : Strtod.isspace c = true
    · rw [tokensFrom, if_pos hc, ih, List.dropWhile_cons_of_pos hc]
    · rw [List.dropWhile_cons_of_neg hc]

/-- A token that is read goes on as long as the loop does. -/
theorem tokensFrom_open (q : Char) (t : Open) (hq : ∀ c ∈ pos, t.closes c = !inToken q c) :
    tokensFrom (some t) pos =
      if pos.dropWhile (inToken q) = [] then
        if t.text ++ pos.takeWhile (inToken q) = [] then [] else [t.text ++ pos.takeWhile (inToken q)]
      else (t.text ++ pos.takeWhile (inToken q)) :: tokens ((pos.dropWhile (inToken q)).drop 1) := by
  induction pos generalizing t with
  | nil => simp [tokensFrom]
  | cons c rest ih =>
    have hclose := hq c List.mem_cons_self
    by_cases hc : inToken q c = true
    · rw [hc] at hclose
      have hadd : ∀ d ∈ rest, (t.add c).closes d = !inToken q d :=
        fun d hd => hq d (List.mem_cons_of_mem c hd)
      rw [tokensFrom, if_neg (by simp [hclose]), ih (t.add c) hadd, List.dropWhile_cons_of_pos hc,
        List.takeWhile_cons_of_pos hc]
      simp [Open.add]
    · rw [Bool.not_eq_true] at hc
      rw [hc] at hclose
      rw [tokensFrom, if_pos (by simpa using hclose), List.dropWhile_cons_of_neg (by simp [hc]),
        List.takeWhile_cons_of_neg (by simp [hc])]
      simp [tokens]

/-- A round reads the first token of what is left. -/
theorem tokens_eq (h : nul ∉ pos) :
    tokens pos =
      if behind pos = [] then if token pos = [] then [] else [token pos]
      else token pos :: tokens ((behind pos).drop 1) := by
  have hskip : nul ∉ skipped pos := fun hmem => h (List.dropWhile_subset _ hmem)
  have hhead := List.head?_dropWhile_not Strtod.isspace pos
  unfold tokens token behind start endChar
  rw [tokensFrom_skipped]
  unfold skipped at *
  generalize pos.dropWhile Strtod.isspace = rest at *
  cases rest with
  | nil => simp [cur, isquote, nul, tokensFrom]
  | cons c rest =>
    have hc : Strtod.isspace c = false := by simpa using hhead
    have hnul : c ≠ nul := fun hc => hskip (hc ▸ List.mem_cons_self)
    have hrest : ∀ d ∈ rest, d ≠ nul := fun d hd hdn => hskip (hdn ▸ List.mem_cons_of_mem c hd)
    rw [tokensFrom, if_neg (by simp [hc])]
    by_cases hquote : isquote c = true
    · have hq : ∀ d ∈ rest, (Open.first c).closes d = !inToken c d := by
        intro d hd
        simp [Open.first, hquote, Open.closes, inToken, hnul, hrest d hd]
      have hopen := tokensFrom_open c (Open.first c) hq
      simpa [cur, hquote, Open.first, tokens] using hopen
    · have hq : ∀ d ∈ rest, (Open.first c).closes d = !inToken nul d := by
        intro d hd
        simp [Open.first, hquote, Open.closes, inToken, hrest d hd]
      have hopen := tokensFrom_open nul (Open.first c) hq
      have hin : inToken nul c = true := by simp [inToken, hc, hnul]
      simpa [cur, hquote, Open.first, tokens, hin] using hopen

end

/-! ## The loop -/

/-- What is found so far: the program, and its arguments. -/
structure Scan.Found (s : Scan) (found : List (List Char)) : Prop where
  exePath : s.exePath = found.head?
  argv : s.argv = found.tail
  count : s.count = 0 ↔ found = []

theorem Scan.Found.store {s : Scan} {found : List (List Char)} (h : s.Found found) {start : Nat}
    (hstart : start < s.before.length) (token : List Char) :
    (s.store start token).Found (found ++ [token]) := by
  unfold Scan.store
  rw [if_pos hstart]
  cases found with
  | nil =>
    rw [if_pos (h.count.mpr rfl)]
    exact ⟨rfl, h.argv, by simp⟩
  | cons first others =>
    rw [if_neg (fun h0 => List.cons_ne_nil _ _ (h.count.mp h0))]
    refine ⟨h.exePath, ?_, by simp⟩
    show s.argv ++ [token] = others ++ [token]
    rw [h.argv, List.tail_cons]

theorem Scan.Found.of_eq {s s' : Scan} {found : List (List Char)} (h : s.Found found)
    (hexe : s'.exePath = s.exePath) (hargv : s'.argv = s.argv) (hcount : s'.count = s.count) :
    s'.Found found :=
  ⟨hexe.trans h.exePath, hargv.trans h.argv, by rw [hcount]; exact h.count⟩

theorem Scan.round_last {s : Scan} (h : cur (behind s.pos) = nul) :
    s.round =
      ({ s with
          before := s.before ++ opening s.pos ++ token s.pos
          pos := behind s.pos
          finished := true } : Scan).store (s.before ++ opening s.pos).length (token s.pos) := by
  simp only [Scan.round, if_pos h]

theorem Scan.round_next {s : Scan} (h : cur (behind s.pos) ≠ nul) :
    s.round =
      ({ s with
          before := s.before ++ opening s.pos ++ token s.pos ++ [nul]
          pos := (behind s.pos).drop 1 } : Scan).store (s.before ++ opening s.pos).length
        (token s.pos) := by
  simp only [Scan.round, if_neg h]

section
variable (s : Scan) (start : Nat) (token : List Char)

@[simp] theorem Scan.store_before : (s.store start token).before = s.before := by
  unfold Scan.store
  split
  · split <;> rfl
  · rfl

@[simp] theorem Scan.store_pos : (s.store start token).pos = s.pos := by
  unfold Scan.store
  split
  · split <;> rfl
  · rfl

@[simp] theorem Scan.store_finished : (s.store start token).finished = s.finished := by
  unfold Scan.store
  split
  · split <;> rfl
  · rfl

end

theorem Scan.loop_finished {s : Scan} (h : s.finished = true) (fuel : Nat) :
    Scan.loop fuel s = s := by
  cases fuel with
  | zero => rfl
  | succ fuel => rw [Scan.loop, if_pos h]

/-- The last round stores what stands at the end, if there is something. -/
theorem Scan.Found.round_last {s : Scan} {found : List (List Char)} (h : s.Found found)
    (hlast : cur (behind s.pos) = nul) :
    s.round.exePath = (found ++ if token s.pos = [] then [] else [token s.pos]).head? ∧
      s.round.argv = (found ++ if token s.pos = [] then [] else [token s.pos]).tail := by
  rw [Scan.round_last hlast]
  have hsame : Scan.Found
      { s with
        before := s.before ++ opening s.pos ++ token s.pos
        pos := behind s.pos
        finished := true } found := h.of_eq rfl rfl rfl
  by_cases htoken : token s.pos = []
  · rw [if_pos htoken, List.append_nil]
    unfold Scan.store
    rw [if_neg (by simp [htoken])]
    exact ⟨hsame.exePath, hsame.argv⟩
  · rw [if_neg htoken]
    have hpos := List.length_pos_iff.mpr htoken
    have hstart : (s.before ++ opening s.pos).length <
        (s.before ++ opening s.pos ++ token s.pos).length := by simpa using hpos
    have hstored := hsame.store hstart (token s.pos)
    exact ⟨hstored.exePath, hstored.argv⟩

/-- Any other round ends a token in place, also one without characters. -/
theorem Scan.Found.round_next {s : Scan} {found : List (List Char)} (h : s.Found found)
    (hnext : cur (behind s.pos) ≠ nul) : s.round.Found (found ++ [token s.pos]) := by
  rw [Scan.round_next hnext]
  have hsame : Scan.Found
      { s with
        before := s.before ++ opening s.pos ++ token s.pos ++ [nul]
        pos := (behind s.pos).drop 1 } found := h.of_eq rfl rfl rfl
  exact hsame.store (by simp) (token s.pos)

/-- The loop finds the tokens of what is left, and ends. -/
theorem Scan.loop_tokens {s : Scan} {found : List (List Char)} {fuel : Nat}
    (hfuel : s.pos.length < fuel) (hopen : s.finished = false) (hnul : nul ∉ s.pos)
    (h : s.Found found) :
    (Scan.loop fuel s).exePath = (found ++ tokens s.pos).head? ∧
      (Scan.loop fuel s).argv = (found ++ tokens s.pos).tail ∧
      (Scan.loop fuel s).finished = true := by
  induction fuel generalizing s found with
  | zero => omega
  | succ fuel ih =>
    have hbehind := nul_notMem_behind hnul
    rw [Scan.loop, if_neg (by simp [hopen]), tokens_eq hnul]
    by_cases hlast : cur (behind s.pos) = nul
    · have hend : s.round.finished = true := by rw [Scan.round_last hlast, Scan.store_finished]
      rw [if_pos ((cur_eq_nul hbehind).mp hlast), Scan.loop_finished hend]
      exact ⟨(h.round_last hlast).1, (h.round_last hlast).2, hend⟩
    · rw [if_neg (mt (cur_eq_nul hbehind).mpr hlast)]
      have hpos : s.round.pos = (behind s.pos).drop 1 := by
        rw [Scan.round_next hlast, Scan.store_pos]
      have hgoes : s.round.finished = false := by
        rw [Scan.round_next hlast, Scan.store_finished, hopen]
      have hshorter : s.round.pos.length < fuel := by
        have hlen := congrArg List.length (opening_token_behind s.pos)
        have hsome := List.length_pos_iff.mpr (mt (cur_eq_nul hbehind).mpr hlast)
        simp only [List.length_append] at hlen
        rw [hpos, List.length_drop]
        omega
      have hfree : nul ∉ s.round.pos := fun hmem => hbehind (List.mem_of_mem_drop (hpos ▸ hmem))
      have hrest := ih hshorter hgoes hfree (h.round_next hlast)
      rw [hpos] at hrest
      simpa only [List.append_assoc, List.singleton_append] using hrest

/-- A new connection has the tokens of its command. -/
theorem construct_tokens {command : List Char} (hnul : nul ∉ command) :
    (construct command).exePath = (tokens command).head? ∧
      (construct command).argv = (tokens command).tail := by
  have hbegin : (Scan.begin command).Found [] := ⟨rfl, rfl, by simp [Scan.begin]⟩
  have hloop := Scan.loop_tokens (Nat.lt_succ_self _) rfl hnul hbegin
  exact ⟨hloop.1, hloop.2.1⟩

/-! ## The string of the caller -/

/-- What stands before `pos` is not written again. -/
theorem Scan.before_prefix_loop (s : Scan) (fuel : Nat) :
    s.before <+: (Scan.loop fuel s).before := by
  induction fuel generalizing s with
  | zero => exact List.prefix_rfl
  | succ fuel ih =>
    rw [Scan.loop]
    split
    · exact List.prefix_rfl
    · refine List.IsPrefix.trans ?_ (ih s.round)
      by_cases hlast : cur (behind s.pos) = nul
      · rw [Scan.round_last hlast, Scan.store_before, List.append_assoc]
        exact List.prefix_append _ _
      · rw [Scan.round_next hlast, Scan.store_before, List.append_assoc, List.append_assoc]
        exact List.prefix_append _ _

/-- A command that ends with its first token is not written to. -/
theorem construct_last {command : List Char} (h : cur (behind command) = nul) :
    construct command =
      ⟨(Scan.begin command).round.exePath, (Scan.begin command).round.argv, command⟩ := by
  have hend : (Scan.begin command).round.finished = true := by
    rw [Scan.round_last (s := Scan.begin command) h, Scan.store_finished]
  have hloop : Scan.loop (command.length + 1) (Scan.begin command) = (Scan.begin command).round := by
    rw [Scan.loop, if_neg (by simp [Scan.begin]), Scan.loop_finished hend]
  have htext : (Scan.begin command).round.before ++ (Scan.begin command).round.pos = command := by
    rw [Scan.round_last (s := Scan.begin command) h, Scan.store_before, Scan.store_pos]
    simpa [Scan.begin] using opening_token_behind command
  unfold construct
  simp only [hloop, htext]

/-- In any other command a NUL takes the place behind the first token. -/
theorem construct_next {command : List Char} (h : cur (behind command) ≠ nul) :
    ∃ more, (construct command)._exe = opening command ++ (token command ++ nul :: more) := by
  have hgoes : (Scan.begin command).round.before = opening command ++ token command ++ [nul] := by
    rw [Scan.round_next (s := Scan.begin command) h, Scan.store_before]
    rfl
  obtain ⟨more, hmore⟩ :=
    Scan.before_prefix_loop (Scan.begin command).round command.length
  refine ⟨more ++ (Scan.loop command.length (Scan.begin command).round).pos, ?_⟩
  unfold construct
  simp only [Scan.loop, Scan.begin, Bool.false_eq_true, if_false]
  rw [← Scan.begin, ← hmore, hgoes]
  simp

theorem runsToEnd_iff {command : List Char} (hnul : nul ∉ command) :
    RunsToEnd command ↔ cur (behind command) = nul := by
  have hskip : nul ∉ skipped command := fun hmem => hnul (List.dropWhile_subset _ hmem)
  rw [cur_eq_nul (nul_notMem_behind hnul)]
  unfold RunsToEnd behind start endChar
  rw [List.dropWhile_eq_nil_iff]
  by_cases hquote : isquote (cur (skipped command)) = true
  · have hend : cur (skipped command) ≠ nul := fun h => by simp [h, isquote, nul] at hquote
    have hin : ∀ c ∈ (skipped command).drop 1,
        inToken (cur (skipped command)) c = true ↔ c ≠ cur (skipped command) := by
      intro c hc
      have hne : c ≠ nul := fun h => hskip (h ▸ List.mem_of_mem_drop hc)
      simp [inToken, hend, hne]
    simp only [if_pos hquote]
    constructor
    · exact fun h c hc => (hin c hc).mpr fun heq => h (heq ▸ hc)
    · exact fun h hmem => (hin _ hmem).mp (h _ hmem) rfl
  · simp only [if_neg hquote]
    refine forall_congr' fun c => forall_congr' fun hc => ?_
    have hne : c ≠ nul := fun h => hskip (h ▸ hc)
    simp [inToken, hne]

/-! ## Exactly the commands of one token -/

theorem exact_iff_runsToEnd (command : List Char) (hnul : nul ∉ command) :
    Exact command ↔ RunsToEnd command := by
  rw [runsToEnd_iff hnul]
  constructor
  · intro h
    by_contra hnext
    obtain ⟨more, hmore⟩ := construct_next hnext
    refine hnul ?_
    rw [← h.unchanged, hmore]
    simp
  · intro hlast
    obtain ⟨hfirst, hothers⟩ := construct_tokens hnul
    have hsame : (construct command)._exe = command := by rw [construct_last hlast]
    exact ⟨hfirst, hothers, hsame, by rw [hsame]; exact ⟨rfl, rfl⟩⟩

/-- A program without arguments. -/
theorem exact_program : nul ∉ " /bin/true".toList ∧
    (Exact " /bin/true".toList ↔ RunsToEnd " /bin/true".toList) :=
  ⟨by decide, exact_iff_runsToEnd " /bin/true".toList (by decide)⟩

/-- The arguments are there once only. -/
theorem not_exact_argument : ¬ Exact "img.sh -v".toList := by
  intro h
  have hargv : (construct (construct "img.sh -v".toList)._exe).argv =
    (construct "img.sh -v".toList).argv := h.again.2
  revert hargv
  decide

end Rts2.Connection.ForkCommand

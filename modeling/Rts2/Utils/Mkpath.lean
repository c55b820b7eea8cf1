import Mathlib.Data.List.Basic
import Mathlib.Tactic.Common

/-! # Directories of a path

`mkpath` makes the directories of a path, one for each slash its pointer stops at. The pointer
is moved behind the first character of each part before it looks for the next slash. -/
namespace Rts2.Utils.Mkpath

/-- Why `mkdir` fails. -/
inductive Errno where
  | eexist
  | other (errno : Nat)
  deriving DecidableEq

/-- What comes of a call: the value it returns, or a character behind the end of the string is
read. -/
inductive Outcome where
  | returned (ret : Int)
  | overrun
  deriving DecidableEq

/-- Where the loop stands: at `start`, or at `end`, which is looked at. -/
inductive Place where
  | start
  | scan

/-- The loop of `mkpath`, with the part of the path that is passed and the directories made; the
answer of `mkdir` may depend on all its calls. -/
def mkpathLoop (mkdir : List (List Char) → Option Errno) :
    Place → List Char → List (List Char) → List Char → List (List Char) × Outcome
  | .start, _, calls, [] => (calls, .overrun)
  | .start, passed, calls, c :: rest => mkpathLoop mkdir .scan (passed ++ [c]) calls rest
  | .scan, _, calls, [] => (calls, .returned 0)
  | .scan, passed, calls, c :: rest =>
    if c = '/' then
      let calls := calls ++ [passed]
      match mkdir calls with
      | some (.other _) => (calls, .returned (-1))
      | _ => mkpathLoop mkdir .start (passed ++ ['/']) calls rest
    else mkpathLoop mkdir .scan (passed ++ [c]) calls rest

/-- `mkpath` -/
def mkpath (mkdir : List (List Char) → Option Errno) (path : List Char) :
    List (List Char) × Outcome :=
  mkpathLoop mkdir .start [] [] path

/-! ## The directories that are named -/

/-- The prefixes that end before a slash, in a path that is passed so far. -/
def prefixes : List Char → List Char → List (List Char)
  | _, [] => []
  | passed, c :: rest =>
    if c = '/' then passed :: prefixes (passed ++ ['/']) rest else prefixes (passed ++ [c]) rest

/-- The last component is not empty. -/
def named (dir : List Char) : Bool := dir.getLast?.any (· ≠ '/')

/-- Only characters of the string are read; unless a `mkdir` fails with another error than
`EEXIST`, it is called for the prefixes that end before a slash, in their order, without some
of those that end in an empty component. -/
def Makes (mkdir : List (List Char) → Option Errno) (path : List Char) : Prop :=
  (∃ errno, mkdir (mkpath mkdir path).1 = some (.other errno) ∧ (mkpath mkdir path).2 = .returned (-1)) ∨
    ((mkpath mkdir path).2 = .returned 0 ∧ (mkpath mkdir path).1.Sublist (prefixes [] path) ∧
      (mkpath mkdir path).1.filter named = (prefixes [] path).filter named)

/-- The number of slashes at the end. -/
def endSlashes : List Char → Nat
  | [] => 0
  | c :: rest => if (c :: rest).all (· = '/') then rest.length + 1 else endSlashes rest

/-- Where the loop ends within the string, by what is left of it. -/
def Within : Place → List Char → Prop
  | .start, rest => rest ≠ [] ∧ endSlashes rest.tail % 2 = 0
  | .scan, rest => endSlashes rest % 2 = 0

variable {mkdir : List (List Char) → Option Errno} {passed rest path : List Char} {c : Char}
  {calls : List (List Char)} {place : Place}

theorem endSlashes_of_all (h : rest.all (· = '/') = true) : endSlashes rest = rest.length := by
  cases rest with
  | nil => rfl
  | cons c rest => rw [endSlashes, if_pos h, List.length_cons]

theorem endSlashes_cons_of_ne (hc : c ≠ '/') : endSlashes (c :: rest) = endSlashes rest := by
  rw [endSlashes, if_neg]
  simp [hc]

/-- A slash takes the loop back to its begin. -/
theorem within_slash : Within .scan ('/' :: rest) ↔ Within .start rest := by
  cases rest with
  | nil => simp [Within, endSlashes]
  | cons c rest =>
    have hskip : endSlashes ('/' :: c :: rest) % 2 = endSlashes rest % 2 := by
      by_cases hall : rest.all (· = '/') = true
      · rw [endSlashes_of_all hall]
        by_cases hc : c = '/'
        · rw [endSlashes_of_all (by simpa [hc] using hall), List.length_cons, List.length_cons]
          omega
        · rw [endSlashes, if_neg (by simp [hc]), endSlashes_cons_of_ne hc, endSlashes_of_all hall]
      · rw [endSlashes, if_neg (by simpa using fun _ => by simpa using hall), endSlashes,
          if_neg (by simpa using fun _ => by simpa using hall)]
    simp only [Within, List.tail_cons, hskip]
    simp

theorem within_other (hc : c ≠ '/') : Within .scan (c :: rest) ↔ Within .scan rest := by
  simp only [Within, endSlashes_cons_of_ne hc]

theorem named_slash (passed : List Char) : named (passed ++ ['/']) = false := by
  simp [named]

/-! ## The loop -/

/-- What the loop makes from a place on. -/
def MakesFrom (mkdir : List (List Char) → Option Errno) (place : Place) (passed : List Char)
    (calls : List (List Char)) (rest : List Char) : Prop :=
  (∃ errno, mkdir (mkpathLoop mkdir place passed calls rest).1 = some (.other errno) ∧
      (mkpathLoop mkdir place passed calls rest).2 = .returned (-1)) ∨
    ((mkpathLoop mkdir place passed calls rest).2 = .returned 0 ∧
      ∃ made, (mkpathLoop mkdir place passed calls rest).1 = calls ++ made ∧
        made.Sublist (prefixes passed rest) ∧
        made.filter named = (prefixes passed rest).filter named)

/-- The slash behind `start` is not looked at, and ends an empty component. -/
theorem makesFrom_start (hpassed : named passed = false)
    (h : MakesFrom mkdir .scan (passed ++ [c]) calls rest) :
    MakesFrom mkdir .start passed calls (c :: rest) := by
  rcases h with hfails | ⟨hret, made, hmade, hsub, hnamed⟩
  · exact .inl hfails
  · refine .inr ⟨hret, made, hmade, ?_⟩
    by_cases hc : c = '/'
    · subst hc
      rw [prefixes, if_pos rfl, List.filter_cons_of_neg (by simp [hpassed])]
      exact ⟨hsub.cons passed, hnamed⟩
    · rw [prefixes, if_neg hc]
      exact ⟨hsub, hnamed⟩

/-- A directory that is made, or is there. -/
theorem makesFrom_slash (hmkdir : ∀ errno, mkdir (calls ++ [passed]) ≠ some (.other errno))
    (h : MakesFrom mkdir .start (passed ++ ['/']) (calls ++ [passed]) rest) :
    MakesFrom mkdir .scan passed calls ('/' :: rest) := by
  have hloop : mkpathLoop mkdir .scan passed calls ('/' :: rest) =
      mkpathLoop mkdir .start (passed ++ ['/']) (calls ++ [passed]) rest := by
    rw [mkpathLoop, if_pos rfl]
    dsimp only
    cases hres : mkdir (calls ++ [passed]) with
    | none => rfl
    | some errno =>
      cases errno with
      | eexist => rfl
      | other errno => exact absurd hres (hmkdir errno)
  unfold MakesFrom
  rw [hloop, prefixes, if_pos rfl]
  rcases h with hfails | ⟨hret, made, hmade, hsub, hnamed⟩
  · exact .inl hfails
  · refine .inr ⟨hret, passed :: made, by rw [hmade, List.append_assoc]; rfl, hsub.cons_cons passed, ?_⟩
    rw [List.filter_cons, List.filter_cons, hnamed]

theorem makesFrom_other (hc : c ≠ '/') (h : MakesFrom mkdir .scan (passed ++ [c]) calls rest) :
    MakesFrom mkdir .scan passed calls (c :: rest) := by
  unfold MakesFrom
  rw [mkpathLoop, if_neg hc, prefixes, if_neg hc]
  exact h

theorem makesFrom_of_within (h : Within place rest) (hpassed : place = .start → named passed = false) :
    MakesFrom mkdir place passed calls rest := by
  induction rest generalizing place passed calls with
  | nil =>
    cases place with
    | start => exact absurd rfl h.1
    | scan => exact .inr ⟨rfl, [], (List.append_nil calls).symm, List.Sublist.refl _, rfl⟩
  | cons c rest ih =>
    have hscan (passed : List Char) (h : Within .scan rest) :
        MakesFrom mkdir .scan passed calls rest := ih h fun h => (by cases h)
    cases place with
    | start => exact makesFrom_start (hpassed rfl) (hscan _ h.2)
    | scan =>
      by_cases hc : c = '/'
      · subst hc
        by_cases hfails : ∃ errno, mkdir (calls ++ [passed]) = some (.other errno)
        · obtain ⟨errno, herrno⟩ := hfails
          have hloop : mkpathLoop mkdir .scan passed calls ('/' :: rest) =
              (calls ++ [passed], .returned (-1)) := by
            rw [mkpathLoop, if_pos rfl]
            dsimp only
            rw [herrno]
          exact .inl ⟨errno, by rw [hloop]; exact herrno, by rw [hloop]⟩
        · have hmkdir : ∀ errno, mkdir (calls ++ [passed]) ≠ some (.other errno) :=
            fun errno herrno => hfails ⟨errno, herrno⟩
          exact makesFrom_slash hmkdir (ih (within_slash.mp h) fun _ => named_slash passed)
      · exact makesFrom_other hc (hscan _ ((within_other hc).mp h))

/-- Where every directory can be made, the loop goes behind the end. -/
theorem overrun_of_not_within (h : ¬Within place rest) :
    (mkpathLoop (fun _ => none) place passed calls rest).2 = .overrun := by
  induction rest generalizing place passed calls with
  | nil =>
    cases place with
    | start => rfl
    | scan => exact absurd rfl h
  | cons c rest ih =>
    cases place with
    | start => exact ih fun hscan => h ⟨List.cons_ne_nil c rest, hscan⟩
    | scan =>
      by_cases hc : c = '/'
      · subst hc
        rw [mkpathLoop, if_pos rfl]
        exact ih fun hstart => h (within_slash.mpr hstart)
      · rw [mkpathLoop, if_neg hc]
        exact ih fun hscan => h ((within_other hc).mpr hscan)

/-- The path is read within its end, and its directories are made, exactly if it is not empty and
has, without its first character, an even number of slashes at its end. -/
theorem mkpath_iff (path : List Char) :
    (∀ mkdir, Makes mkdir path) ↔ path ≠ [] ∧ endSlashes path.tail % 2 = 0 := by
  constructor
  · intro h
    by_contra hends
    have hover : (mkpath (fun _ => none) path).2 = .overrun := overrun_of_not_within hends
    rcases h fun _ => none with ⟨_, hfails, _⟩ | ⟨hret, _⟩
    · cases hfails
    · rw [hover] at hret
      cases hret
  · intro hends mkdir
    have hmakes : MakesFrom mkdir .start [] [] path := makesFrom_of_within hends fun _ => rfl
    rcases hmakes with hfails | ⟨hret, made, hmade, hsub, hnamed⟩
    · exact .inl hfails
    · rw [List.nil_append] at hmade
      refine .inr ⟨hret, ?_, ?_⟩
      · rw [mkpath, hmade]
        exact hsub
      · rw [mkpath, hmade]
        exact hnamed

/-- A directory that is given with its slash. -/
theorem trailing_slash : ¬Makes (fun _ => none) ['a', '/'] := by
  rintro (⟨_, hfails, _⟩ | ⟨hret, _⟩)
  · cases hfails
  · cases hret

end Rts2.Utils.Mkpath

import Rts2.Lib.Run
import Rts2.Db.Constraint

/-! # Copies of constraints

A set of constraints is a map from names to pointers. It is filled by `parse` and by
`load`, and the objects are made by `createConstraint`. The copy constructor makes new
objects of the same names, and has a list of the names it knows. -/
namespace Rts2.Db
open Rts2.Lib

/-! ## Constraints by their names -/

/-- `getName` -/
def Quantity.getName : Quantity → String
  | .time => "time"
  | .airmass => "airmass"
  | .zenithDist => "zenithDistance"
  | .ha => "HA"
  | .dec => "dec"
  | .altitude => "altitude"
  | .azimuth => "azimuth"
  | .ldistance => "lunarDistance"
  | .laltitude => "lunarAltitude"
  | .lphase => "lunarPhase"
  | .sdistance => "solarDistance"
  | .saltitude => "sunAltitude"

/-- `getName` -/
def Constraint.getName : Constraint → String
  | .interval q _ => q.getName
  | .maxRepeat _ => "maxRepeats"

/-- `Constraints::createConstraint` -/
def createConstraint (name : String) : Option Constraint :=
  if name = "time" then some (.interval .time [])
  else if name = "airmass" then some (.interval .airmass [])
  else if name = "zenithDistance" then some (.interval .zenithDist [])
  else if name = "HA" then some (.interval .ha [])
  else if name = "dec" then some (.interval .dec [])
  else if name = "altitude" then some (.interval .altitude [])
  else if name = "azimuth" then some (.interval .azimuth [])
  else if name = "lunarDistance" then some (.interval .ldistance [])
  else if name = "lunarAltitude" then some (.interval .laltitude [])
  else if name = "lunarPhase" then some (.interval .lphase [])
  else if name = "solarDistance" then some (.interval .sdistance [])
  else if name = "sunAltitude" then some (.interval .saltitude [])
  else if name = "maxRepeats" then some (.maxRepeat (-1))
  else none

/-! ## Texts -/

/-- The functions that read numbers and dates. `strtof` tells whether nothing is left
after the number, and `parseDate` leaves its second argument when there is no date. -/
structure Numbers where
  strtof : List Char → Option ℚ × Bool
  atof : List Char → Option ℚ
  atoi : List Char → Int
  parseDate : List Char → Option ℚ → Option ℚ

/-- `ConstraintInterval::parse`, the interval to be added -/
def parseInterval (C : Numbers) (arg : List Char) : Except String ConstraintDoubleInterval :=
  match arg.dropWhile (· ≠ ':') with
  | [] => .error ("the interval must contain a single : - cannot find : in interval " ++
      String.ofList arg)
  | _ :: upper =>
    let lower := arg.takeWhile (· ≠ ':')
    if lower ≠ [] ∧ (C.strtof lower).2 = false then
      .error ("cannot parse lower intrval - " ++ String.ofList arg)
    else if upper ≠ [] ∧ (C.strtof upper).2 = false then
      .error ("cannot find : in interval " ++ String.ofList upper)
    else .ok ⟨if lower = [] then none else (C.strtof lower).1,
      if upper = [] then none else (C.strtof upper).1⟩

/-- `parse` -/
def Constraint.parse (C : Numbers) (arg : List Char) : Constraint → Except String Constraint
  | .interval q intervals => (parseInterval C arg).map fun i => .interval q (intervals ++ [i])
  | .maxRepeat _ => .ok (.maxRepeat (C.atoi arg))

/-! ## XML -/

structure BoundNode where
  name : String
  comment : Bool
  content : List Char

structure IntervalNode where
  name : String
  comment : Bool
  children : List BoundNode

structure ConstraintNode where
  name : String
  comment : Bool
  children : List IntervalNode
  content : Option (List Char)

/-- The bounds of an interval; an unexpected node is named. -/
def loadBounds (lower upper : String) (number : List Char → Option ℚ → Option ℚ) :
    List BoundNode → ConstraintDoubleInterval → Except String ConstraintDoubleInterval
  | [], i => .ok i
  | par :: pars, i =>
    if par.name = lower then
      loadBounds lower upper number pars { i with lower := number par.content i.lower }
    else if par.name = upper then
      loadBounds lower upper number pars { i with upper := number par.content i.upper }
    else if par.comment then loadBounds lower upper number pars i
    else .error par.name

/-- The intervals that were added before an unexpected node stay. -/
def loadIntervals (lower upper : String) (number : List Char → Option ℚ → Option ℚ) :
    List IntervalNode → List ConstraintDoubleInterval →
      List ConstraintDoubleInterval × Option String
  | [], intervals => (intervals, none)
  | inter :: inters, intervals =>
    if inter.name = "interval" then
      match loadBounds lower upper number inter.children ⟨none, none⟩ with
      | .ok i => loadIntervals lower upper number inters (intervals ++ [i])
      | .error name => (intervals, some name)
    else if inter.comment then loadIntervals lower upper number inters intervals
    else (intervals, some inter.name)

/-- `load` -/
def Constraint.load (C : Numbers) (cons : ConstraintNode) : Constraint → Constraint × Option String
  | .interval .time _ =>
    let loaded := loadIntervals "from" "to" C.parseDate cons.children []
    (.interval .time loaded.1, loaded.2)
  | .interval q _ =>
    let loaded := loadIntervals "lower" "upper" (fun text _ => C.atof text) cons.children []
    (.interval q loaded.1, loaded.2)
  | .maxRepeat n =>
    match cons.content with
    | some content => (.maxRepeat (C.atoi content), none)
    | none => (.maxRepeat n, some cons.name)

/-! ## Maps -/

/-- The objects, in the order in which they were made, and the map: a pointer is a place
among the objects. -/
structure Constraints where
  objects : List Constraint
  map : List (String × Nat)

/-- A name is put in its place among the names of the map. -/
def setKey (key : String) (p : Nat) : List (String × Nat) → List (String × Nat)
  | [] => [(key, p)]
  | (k, q) :: map =>
    if key = k then (key, p) :: map
    else if key < k then (key, p) :: (k, q) :: map
    else (k, q) :: setKey key p map

/-- `(*this)[con->getName ()] = ConstraintPtr (con)`, for a new object. -/
def Constraints.add (s : Constraints) (con : Constraint) : Constraints where
  objects := s.objects ++ [con]
  map := setKey con.getName s.objects.length s.map

/-- `Constraints::parse` -/
def Constraints.parse (C : Numbers) (s : Constraints) (name : String) (arg : List Char) :
    Except String Constraints :=
  match s.map.lookup name with
  | some p => match s.objects[p]? with
    | some con => (con.parse C arg).map fun con => { s with objects := s.objects.set p con }
    | none => .ok s
  | none => match createConstraint name with
    | none => .error ("cannot allocate constraint with name " ++ name)
    | some con => (con.parse C arg).map fun con => s.add con

/-- `Constraints::load`; an unexpected node ends it, with what was loaded so far. -/
def Constraints.load (C : Numbers) (overwrite : Bool) :
    List ConstraintNode → Constraints → Constraints × Option String
  | [], s => (s, none)
  | cons :: nodes, s =>
    if cons.comment then Constraints.load C overwrite nodes s
    else match s.map.lookup cons.name with
      | some p =>
        if overwrite = false then Constraints.load C overwrite nodes s
        else match s.objects[p]? with
          | some con =>
            let loaded := con.load C cons
            let s := { s with objects := s.objects.set p loaded.1 }
            match loaded.2 with
            | none => Constraints.load C overwrite nodes s
            | some name => (s, some name)
          | none => (s, none)
      | none => match createConstraint cons.name with
        | none => (s, some cons.name)
        | some con =>
          let loaded := con.load C cons
          match loaded.2 with
          | none => Constraints.load C overwrite nodes (s.add loaded.1)
          | some name => (s, some name)

/-- What fills a map. -/
inductive Source where
  | parse (name : String) (arg : List Char)
  | load (nodes : List ConstraintNode) (overwrite : Bool)

/-- A map after one more source, also after one with an error. -/
def Constraints.read (C : Numbers) (s : Constraints) : Source → Constraints
  | .parse name arg => match s.parse C name arg with
    | .ok s => s
    | .error _ => s
  | .load nodes overwrite => (Constraints.load C overwrite nodes s).1

/-! ## The copy constructor -/

/-- A new object takes over what the old one holds; the program ends when the kind of the
constraint is none of those that can be copied. -/
def Constraint.copied (con old : Constraint) : Option Constraint :=
  if con.getName = "time" ∨ con.getName = "airmass" ∨ con.getName = "zenithDistance" ∨
      con.getName = "HA" ∨ con.getName = "dec" ∨ con.getName = "lunarDistance" ∨
      con.getName = "lunarAltitude" ∨ con.getName = "lunarPhase" ∨
      con.getName = "solarDistance" ∨ con.getName = "sunAltitude" then
    match con, old with
    | .interval q intervals, .interval _ old => some (.interval q (intervals ++ old))
    | _, _ => none
  else if con.getName = "maxRepeats" then
    match con, old with
    | .maxRepeat _, .maxRepeat n => some (.maxRepeat n)
    | _, _ => none
  -- unsuported constraint type in copy constructor
  else none

/-- The new objects and the new map, for the rest of the old map. -/
def copyFrom (old : List Constraint) :
    List (String × Nat) → List Constraint → Option Constraints
  | [], objects => some ⟨objects, []⟩
  | (key, p) :: map, objects => do
    let con ← (createConstraint key).bind fun con => old[p]?.bind con.copied
    let rest ← copyFrom old map (objects ++ [con])
    some ⟨rest.objects, (key, objects.length) :: rest.map⟩

/-- `Constraints::Constraints (Constraints &cs)` -/
def Constraints.copy (cs : Constraints) : Option Constraints :=
  copyFrom cs.objects cs.map cs.objects

/-! ## Maps hold constraints under their names -/

variable {C : Numbers} {s t : Constraints} {con old : Constraint} {name key : String}

theorem Constraint.parse_getName {arg : List Char} {con' : Constraint}
    (h : con.parse C arg = .ok con') : con'.getName = con.getName := by
  cases con with
  | maxRepeat n => cases h; rfl
  | interval q intervals =>
    unfold Constraint.parse at h
    cases hi : parseInterval C arg with
    | error e => rw [hi] at h; cases h
    | ok i => rw [hi] at h; cases h; rfl

theorem Constraint.load_getName (con : Constraint) (cons : ConstraintNode) :
    (con.load C cons).1.getName = con.getName := by
  cases con with
  | interval q intervals => cases q <;> rfl
  | maxRepeat n =>
    unfold Constraint.load
    cases cons.content with
    | none => rfl
    | some content => rfl

/-- Each name has an object of that name. -/
def Constraints.Named (s : Constraints) : Prop :=
  ∀ e ∈ s.map, ∃ con, s.objects[e.2]? = some con ∧ con.getName = e.1

theorem mem_setKey {p : Nat} {map : List (String × Nat)} {e : String × Nat}
    (h : e ∈ setKey key p map) : e = (key, p) ∨ e ∈ map := by
  induction map with
  | nil => exact .inl (List.mem_singleton.mp h)
  | cons kq map ih =>
    obtain ⟨k, q⟩ := kq
    unfold setKey at h
    split at h
    · rcases List.mem_cons.mp h with h | h
      · exact .inl h
      · exact .inr (List.mem_cons_of_mem _ h)
    · split at h
      · rcases List.mem_cons.mp h with h | h
        · exact .inl h
        · exact .inr h
      · rcases List.mem_cons.mp h with h | h
        · exact .inr (h ▸ List.mem_cons_self ..)
        · exact (ih h).imp_right (List.mem_cons_of_mem _)

theorem Constraints.Named.add (h : s.Named) (con : Constraint) : (s.add con).Named := by
  intro e he
  rcases mem_setKey he with rfl | he
  · exact ⟨con, by simp [Constraints.add], rfl⟩
  · obtain ⟨con', hcon', hname⟩ := h e he
    refine ⟨con', ?_, hname⟩
    have hlt := (List.getElem?_eq_some_iff.mp hcon').1
    simp only [Constraints.add]
    rw [List.getElem?_append_left hlt]
    exact hcon'

/-- An object may change, but for its name. -/
theorem Constraints.Named.set {p : Nat} {con' : Constraint} (h : s.Named)
    (hcon : s.objects[p]? = some con) (hname : con'.getName = con.getName) :
    Constraints.Named { s with objects := s.objects.set p con' } := by
  intro e he
  obtain ⟨c, hc, hcname⟩ := h e he
  by_cases hp : p = e.2
  · refine ⟨con', ?_, ?_⟩
    · show (s.objects.set p con')[e.2]? = some con'
      rw [hp, List.getElem?_set_self (List.getElem?_eq_some_iff.mp hc).1]
    · rw [hp, hc] at hcon
      cases hcon
      exact hname.trans hcname
  · refine ⟨c, ?_, hcname⟩
    show (s.objects.set p con')[e.2]? = some c
    rw [List.getElem?_set_ne hp]
    exact hc

theorem Constraints.Named.parse {arg : List Char} (h : s.Named)
    (hs : s.parse C name arg = .ok t) : t.Named := by
  unfold Constraints.parse at hs
  split at hs
  · split at hs
    · next con hcon =>
      cases hp : con.parse C arg with
      | error e => rw [hp] at hs; cases hs
      | ok con' =>
        rw [hp] at hs
        cases hs
        exact h.set hcon (Constraint.parse_getName hp)
    · cases hs
      exact h
  · split at hs
    · cases hs
    · next con _ =>
      cases hp : con.parse C arg with
      | error e => rw [hp] at hs; cases hs
      | ok con' =>
        rw [hp] at hs
        cases hs
        exact h.add con'

theorem Constraints.Named.load (overwrite : Bool) (nodes : List ConstraintNode) (h : s.Named) :
    (Constraints.load C overwrite nodes s).1.Named := by
  induction nodes generalizing s with
  | nil => exact h
  | cons cons nodes ih =>
    unfold Constraints.load
    split
    · exact ih h
    · split
      · split
        · exact ih h
        · split
          · next con hcon =>
            have hset := h.set hcon (con.load_getName (C := C) cons)
            dsimp only
            split
            · exact ih hset
            · exact hset
          · exact h
      · split
        · exact h
        · dsimp only
          split
          · exact ih (h.add _)
          · exact h

theorem Constraints.Named.read (h : s.Named) (source : Source) : (s.read C source).Named := by
  cases source with
  | load nodes overwrite => exact h.load overwrite nodes
  | parse name arg =>
    unfold Constraints.read
    dsimp only
    split
    · next hs => exact h.parse hs
    · exact h

theorem named_run (C : Numbers) (sources : List Source) :
    (run (Constraints.read C) ⟨[], []⟩ sources).Named :=
  run_invariant (fun _ he => absurd he List.not_mem_nil) (fun _ source h => h.read source) sources

/-! ## Copies -/

/-- The copy has the names of the old map, for objects of its own that are satisfied when
the old ones are; the old objects are as they were. -/
def Constraints.Copied (s : Constraints) : Prop :=
  ∃ t, s.copy = some t ∧ s.objects <+: t.objects ∧ (t.map.map Prod.snd).Nodup ∧
    (∀ e ∈ t.map, s.objects.length ≤ e.2) ∧
    List.Forall₂ (fun e e' => e.1 = e'.1 ∧ ∃ con con', s.objects[e.2]? = some con ∧
      t.objects[e'.2]? = some con' ∧ ∀ tar JD, con.satisfy tar JD = con'.satisfy tar JD)
      s.map t.map

/-- A name of a constraint that can be copied. -/
def Copyable (name : String) : Prop := name ≠ "altitude" ∧ name ≠ "azimuth"

/-- The new object is as the old one. -/
theorem copied_eq (h : Copyable old.getName) :
    (createConstraint old.getName).bind (·.copied old) = some old := by
  cases old with
  | maxRepeat n => rfl
  | interval q intervals =>
    cases q with
    | altitude => exact absurd rfl h.1
    | azimuth => exact absurd rfl h.2
    | time | airmass | zenithDist | ha | dec | ldistance | laltitude | lphase | sdistance
    | saltitude => rfl

theorem not_copied (h : ¬Copyable name) : (createConstraint name).bind (·.copied old) = none := by
  have hname : name = "altitude" ∨ name = "azimuth" := by
    by_contra hne
    exact h (not_or.mp hne)
  rcases hname with rfl | rfl
  · rfl
  · rfl

theorem copyFrom_copies {old : List Constraint} {map : List (String × Nat)}
    (hnamed : ∀ e ∈ map, ∃ con, old[e.2]? = some con ∧ con.getName = e.1)
    (hcopy : ∀ e ∈ map, Copyable e.1) : ∀ objects, ∃ t, copyFrom old map objects = some t ∧
      objects <+: t.objects ∧ (t.map.map Prod.snd).Nodup ∧
      (∀ e ∈ t.map, objects.length ≤ e.2) ∧
      List.Forall₂ (fun e e' => e.1 = e'.1 ∧
        ∃ con, old[e.2]? = some con ∧ t.objects[e'.2]? = some con) map t.map := by
  induction map with
  | nil => exact fun objects => ⟨⟨objects, []⟩, rfl, List.prefix_refl _, .nil, nofun, .nil⟩
  | cons e map ih =>
    intro objects
    obtain ⟨key, p⟩ := e
    obtain ⟨⟨con, hcon, hname⟩, hnamed⟩ := List.forall_mem_cons.mp hnamed
    obtain ⟨hkey, hcopy⟩ := List.forall_mem_cons.mp hcopy
    obtain ⟨t, ht, hprefix, hnodup, hfresh, hrest⟩ := ih hnamed hcopy (objects ++ [con])
    have hnew : (createConstraint key).bind (fun new => old[p]?.bind new.copied) = some con := by
      dsimp only at hcon hname hkey
      rw [hcon, ← hname]
      exact copied_eq (hname ▸ hkey)
    have hplace : t.objects[objects.length]? = some con := by
      obtain ⟨more, hmore⟩ := hprefix
      rw [← hmore]
      simp
    have hnext : ∀ e ∈ t.map, objects.length < e.2 := by
      intro e he
      have hle := hfresh e he
      rw [List.length_append, List.length_singleton] at hle
      exact hle
    refine ⟨⟨t.objects, (key, objects.length) :: t.map⟩, ?_, (List.prefix_append ..).trans hprefix,
      ?_, ?_, ?_⟩
    · unfold copyFrom
      rw [hnew]
      show (copyFrom old map (objects ++ [con])).bind _ = _
      rw [ht]
      rfl
    · refine List.nodup_cons.mpr ⟨fun hmem => ?_, hnodup⟩
      obtain ⟨e, he, hp⟩ := List.mem_map.mp hmem
      exact absurd (hnext e he) (by rw [hp]; exact lt_irrefl _)
    · exact List.forall_mem_cons.mpr ⟨le_refl _, fun e he => (hnext e he).le⟩
    · exact .cons ⟨rfl, con, hcon, hplace⟩ hrest

theorem copyFrom_ends {old : List Constraint} {map : List (String × Nat)} {e : String × Nat}
    (he : e ∈ map) (hcopy : ¬Copyable e.1) : ∀ objects, copyFrom old map objects = none := by
  induction map with
  | nil => cases he
  | cons e' map ih =>
    intro objects
    obtain ⟨key, p⟩ := e'
    unfold copyFrom
    rcases List.mem_cons.mp he with rfl | he
    · have hnone : (createConstraint key).bind (fun new => old[p]?.bind new.copied) = none := by
        cases hold : old[p]? with
        | none => cases createConstraint key <;> rfl
        | some con => exact not_copied hcopy
      rw [hnone]
      rfl
    · cases (createConstraint key).bind (fun new => old[p]?.bind new.copied) with
      | none => rfl
      | some con =>
        show (copyFrom old map (objects ++ [con])).bind _ = none
        rw [ih he]
        rfl

/-- **A map is copied** when, and only when, no name of it is one the copy constructor
does not know; else the program ends. -/
theorem copied_iff (C : Numbers) (sources : List Source) :
    (run (Constraints.read C) ⟨[], []⟩ sources).Copied ↔
      ∀ e ∈ (run (Constraints.read C) ⟨[], []⟩ sources).map, Copyable e.1 := by
  have hnamed := named_run C sources
  generalize run (Constraints.read C) ⟨[], []⟩ sources = s at hnamed ⊢
  constructor
  · rintro ⟨t, ht, -⟩ e he
    by_contra hcopy
    rw [Constraints.copy, copyFrom_ends he hcopy] at ht
    cases ht
  · intro hcopy
    obtain ⟨t, ht, hprefix, hnodup, hfresh, hsame⟩ := copyFrom_copies hnamed hcopy s.objects
    refine ⟨t, ht, hprefix, hnodup, hfresh, hsame.imp ?_⟩
    rintro e e' ⟨hkey, con, hcon, hcon'⟩
    exact ⟨hkey, con, con, hcon, hcon', fun _ _ => rfl⟩

/-- Numbers of digits only. -/
def digits : Numbers where
  strtof text := (some (text.foldl (fun n c => 10 * n + (c.toNat - 48 : Nat)) 0), text.all Char.isDigit)
  atof text := some (text.foldl (fun n c => 10 * n + (c.toNat - 48 : Nat)) 0)
  atoi text := text.foldl (fun n c => 10 * n + (c.toNat - 48 : Nat)) 0
  parseDate _ date := date

/-- A copy of `altitude` ends the program. -/
theorem altitude_not_copied : ¬(run (Constraints.read digits) ⟨[], []⟩
    [.parse "altitude" ['2', '0', ':', '8', '0']]).Copied := by
  rintro ⟨t, ht, -⟩
  have hnone : (run (Constraints.read digits) ⟨[], []⟩
      [.parse "altitude" ['2', '0', ':', '8', '0']]).copy = none := by decide +kernel
  rw [hnone] at ht
  cases ht

end Rts2.Db

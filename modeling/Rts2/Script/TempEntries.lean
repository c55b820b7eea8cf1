import Mathlib.Data.List.Infix
import Mathlib.Tactic.Common

/-! # Temporary entries of a script

A script registers entries of /tmp, which the destructor of its connection removes with all that
is in them. Components of a path are taken by their names, as without symbolic links. -/
namespace Rts2.Script.TempEntries

/-! ## Places in the file system -/

/-- A place, by the components that lead to it from the root. -/
abbrev Place := List (List Char)

def dot : List Char := ['.']
def dotdot : List Char := ['.', '.']
def tmp : List Char := ['t', 'm', 'p']

/-- A component leads to a place; the root is above itself. -/
def Place.enter (place : Place) (component : List Char) : Place :=
  if component = [] ∨ component = dot then place
  else if component = dotdot then place.dropLast
  else place ++ [component]

/-- The place of an absolute path. -/
def normalise (path : List Char) : Place := (path.splitOn '/').foldl Place.enter []

/-- Strictly inside /tmp. -/
def Inside (place : Place) : Prop := ∃ entry rest, place = tmp :: entry :: rest

/-! ## The connection -/

/-- What comes of `open` for writing. -/
inductive Open where
  | opened
  | isDir
  | failed
  deriving DecidableEq

/-- `"/../"` -/
def escape : List Char := ['/', '.', '.', '/']

/-- `"/tmp/"` before the string -/
def path (value : List Char) : List Char := ['/', 't', 'm', 'p', '/'] ++ value

/-- `tempentry`, with what comes of `open` for its path. -/
def tempentry (tempentries : List (List Char)) (call : List Char × Open) : List (List Char) :=
  if escape <:+: call.1 then tempentries
  else if call.2 = .failed then tempentries
  else tempentries ++ [call.1]

/-- What `nftw` finds at the path and below it, and `rmfiledir` is called for. -/
def rmdir_r (path : List Char) (place : Place) : Prop := normalise path <+: place

/-- What `ConnExe::~ConnExe` removes after the calls of `tempentry`. -/
def removed (calls : List (List Char × Open)) (place : Place) : Prop :=
  ∃ value ∈ calls.foldl tempentry [], rmdir_r (path value) place

/-! ## Which strings do no harm -/

/-- The components without those that lead nowhere. -/
def names (value : List Char) : List (List Char) :=
  (value.splitOn '/').filter fun component => component ≠ [] && component ≠ dot

/-- Without a `..` at the end, and the component it takes back. -/
def taken (names : List (List Char)) : List (List Char) :=
  if names.getLast? = some dotdot then names.dropLast.dropLast else names

/-- Behind a `..`, which leads to the root, the names lead into /tmp and on; else they lead on. -/
def LeadsInside (value : List Char) : Prop :=
  match names value with
  | [] => False
  | first :: rest =>
    if first = dotdot then ∃ entry more, taken rest = tmp :: entry :: more
    else taken (first :: rest) ≠ []

/-- A call whose string is refused, cannot be opened or leads inside. -/
def Harmless (call : List Char × Open) : Prop :=
  escape <:+: call.1 ∨ call.2 = .failed ∨ LeadsInside call.1

variable {value : List Char} {place : Place} {components ns : List (List Char)}

/-! ## The walk along the names -/

theorem normalise_path (value : List Char) :
    normalise (path value) = (value.splitOn '/').foldl Place.enter [tmp] := by
  have hroot : path value = [] ++ '/' :: (tmp ++ '/' :: value) := rfl
  have htmp : '/' ∉ tmp := by decide
  unfold normalise
  rw [hroot, List.splitOn_append_cons_self_of_not_mem List.not_mem_nil,
    List.splitOn_append_cons_self_of_not_mem htmp]
  rfl

/-- Components that lead nowhere are left out. -/
theorem foldl_filter (components : List (List Char)) (place : Place) :
    (components.filter fun component => component ≠ [] && component ≠ dot).foldl Place.enter place =
      components.foldl Place.enter place := by
  induction components generalizing place with
  | nil => rfl
  | cons component components ih =>
    by_cases hstays : component = [] ∨ component = dot
    · have hplace : place.enter component = place := if_pos hstays
      rw [List.filter_cons_of_neg (by simpa using fun h => hstays.resolve_left h), ih, List.foldl_cons,
        hplace]
    · rw [List.filter_cons_of_pos (by simpa [not_or] using hstays), List.foldl_cons, ih, List.foldl_cons]

/-- Names that all lead on. -/
theorem foldl_names (hnames : ∀ name ∈ ns, name ≠ [] ∧ name ≠ dot) (hup : dotdot ∉ ns) (place : Place) :
    ns.foldl Place.enter place = place ++ ns := by
  induction ns generalizing place with
  | nil => exact (List.append_nil place).symm
  | cons name ns ih =>
    obtain ⟨hname, hrest⟩ := List.forall_mem_cons.mp hnames
    have hfirst := List.ne_of_not_mem_cons hup
    have hlater := List.not_mem_of_not_mem_cons hup
    have hplace : place.enter name = place ++ [name] := by
      rw [Place.enter, if_neg (not_or.mpr hname), if_neg fun h => hfirst h.symm]
    rw [List.foldl_cons, hplace, ih hrest hlater, List.append_assoc]
    rfl

/-- A `..` that stands at the end takes the last step back. -/
theorem foldl_taken (hnames : ∀ name ∈ ns, name ≠ [] ∧ name ≠ dot) (hup : dotdot ∉ ns.dropLast)
    (hfirst : place = [] ∨ ns.dropLast ≠ [] ∨ ns.getLast? ≠ some dotdot) :
    ns.foldl Place.enter place = place ++ taken ns := by
  unfold taken
  by_cases hlast : ns.getLast? = some dotdot
  · rw [if_pos hlast]
    have hsplit : ns = ns.dropLast ++ [dotdot] := (List.dropLast_append_getLast? dotdot hlast).symm
    have hon := foldl_names (fun name hname => hnames name ((List.dropLast_subset ns) hname)) hup place
    have hback : ns.foldl Place.enter place = (place ++ ns.dropLast).dropLast := by
      conv => lhs; rw [hsplit]
      rw [List.foldl_append, hon]
      rfl
    rw [hback]
    by_cases hnil : ns.dropLast = []
    · rw [hnil]
      rcases hfirst with rfl | hne | hne
      · rfl
      · exact absurd hnil hne
      · exact absurd hlast hne
    · exact List.dropLast_append_of_ne_nil hnil
  · rw [if_neg hlast]
    refine foldl_names hnames (fun hmem => ?_) place
    have hne : ns ≠ [] := List.ne_nil_of_mem hmem
    rw [← List.dropLast_append_getLast hne] at hmem
    rcases List.mem_append.mp hmem with hmem | hmem
    · exact hup hmem
    · refine hlast ?_
      rw [List.getLast?_eq_getLast_of_ne_nil hne, List.mem_singleton.mp hmem]

/-! ## Where a `..` stands -/

theorem intercalate_append {a b : List (List Char)} (ha : a ≠ []) (hb : b ≠ []) :
    ['/'].intercalate (a ++ b) = ['/'].intercalate a ++ '/' :: ['/'].intercalate b := by
  induction a with
  | nil => exact absurd rfl ha
  | cons component a ih =>
    by_cases hnil : a = []
    · subst hnil
      rw [List.singleton_append, List.intercalate_cons_of_ne_nil hb, List.intercalate_singleton,
        List.append_assoc]
      rfl
    · have hne : a ++ b ≠ [] := fun h => hnil (List.append_eq_nil_iff.mp h).1
      rw [List.cons_append, List.intercalate_cons_of_ne_nil hne, ih hnil,
        List.intercalate_cons_of_ne_nil hnil, List.append_assoc, List.append_assoc, List.append_assoc]

/-- A component `..` with others on both sides stands between slashes. -/
theorem escape_of_components {a b : List (List Char)} (ha : a ≠ []) (hb : b ≠ [])
    (h : value.splitOn '/' = a ++ dotdot :: b) : escape <:+: value := by
  have hvalue : value = ['/'].intercalate a ++ '/' :: (dotdot ++ '/' :: ['/'].intercalate b) := by
    have hjoin : ['/'].intercalate (value.splitOn '/') = value := List.intercalate_splitOn '/'
    rw [← hjoin, h, intercalate_append ha (List.cons_ne_nil _ _), List.intercalate_cons_of_ne_nil hb,
      List.append_assoc]
    rfl
  refine ⟨['/'].intercalate a, ['/'].intercalate b, ?_⟩
  conv => rhs; rw [hvalue]
  rw [List.append_assoc]
  rfl

/-- In a string that is not refused, `..` stands at the begin or at the end. -/
theorem dotdot_at_ends (hescape : ¬escape <:+: value) : dotdot ∉ (names value).tail.dropLast := by
  intro hmem
  obtain ⟨first, rest, hnames⟩ : ∃ first rest, names value = first :: rest := by
    refine List.exists_cons_of_ne_nil fun hnil => ?_
    rw [hnil] at hmem
    cases hmem
  rw [hnames, List.tail_cons] at hmem
  have hne : rest ≠ [] := by
    rintro rfl
    cases hmem
  obtain ⟨before, behind, hrest⟩ := List.append_of_mem hmem
  have hall : names value = (first :: before) ++ dotdot :: (behind ++ [rest.getLast hne]) := by
    rw [hnames]
    conv => lhs; rw [← List.dropLast_append_getLast hne, hrest]
    simp
  obtain ⟨a, c, hsplit, ha, hc⟩ := List.filter_eq_append_iff.mp hall
  obtain ⟨c₁, c₂, rfl, -, -, hc₂⟩ := List.filter_eq_cons_iff.mp hc
  refine hescape (escape_of_components (fun h => ?_) (fun h => ?_) ((List.append_assoc ..).symm ▸ hsplit))
  · rw [(List.append_eq_nil_iff.mp h).1] at ha
    cases ha
  · rw [h] at hc₂
    exact absurd hc₂.symm (List.append_ne_nil_of_right_ne_nil _ (List.cons_ne_nil _ _))

/-! ## What is removed -/

/-- A walk from /tmp that ends inside, by the names of the string. -/
theorem inside_iff (hescape : ¬escape <:+: value) :
    Inside (normalise (path value)) ↔ LeadsInside value := by
  have hwalk : normalise (path value) = (names value).foldl Place.enter [tmp] := by
    rw [normalise_path, ← foldl_filter]
    rfl
  have hnames : ∀ name ∈ names value, name ≠ [] ∧ name ≠ dot := by
    intro name hname
    simpa [names] using (List.mem_filter.mp hname).2
  have hends := dotdot_at_ends hescape
  rw [hwalk]
  unfold LeadsInside
  cases h : names value with
  | nil =>
    refine ⟨fun hin => ?_, False.elim⟩
    obtain ⟨entry, rest, hplace⟩ := hin
    cases hplace
  | cons first rest =>
    rw [h] at hnames hends
    obtain ⟨hone, hrest⟩ := List.forall_mem_cons.mp hnames
    by_cases hup : first = dotdot
    · -- the place is the root, and the rest starts there
      have hroot : (first :: rest).foldl Place.enter [tmp] = taken rest := by
        rw [List.foldl_cons, hup]
        exact foldl_taken hrest hends (.inl rfl)
      rw [hroot]
      exact (iff_of_eq (if_pos hup)).symm
    · have hdrop : dotdot ∉ (first :: rest).dropLast := by
        cases rest with
        | nil => exact List.not_mem_nil
        | cons second rest =>
          intro hmem
          rcases List.mem_cons.mp hmem with hmem | hmem
          · exact hup hmem.symm
          · exact hends hmem
      have hstep : (first :: rest).dropLast ≠ [] ∨ (first :: rest).getLast? ≠ some dotdot := by
        cases rest with
        | nil => exact .inr fun hlast => hup (Option.some.inj hlast)
        | cons second rest => exact .inl (List.cons_ne_nil _ _)
      rw [foldl_taken hnames hdrop (.inr hstep)]
      refine Iff.trans ⟨fun hin => ?_, fun hne => ?_⟩ (iff_of_eq (if_neg hup)).symm
      · obtain ⟨entry, more, hplace⟩ := hin
        intro hnil
        rw [hnil] at hplace
        cases hplace
      · obtain ⟨entry, more, hmore⟩ := List.exists_cons_of_ne_nil hne
        exact ⟨entry, more, congrArg (tmp :: ·) hmore⟩

/-- The strings that `tempentry` keeps. -/
theorem mem_tempentries (calls : List (List Char × Open)) (before : List (List Char)) :
    value ∈ calls.foldl tempentry before ↔
      value ∈ before ∨ ∃ call ∈ calls, call.1 = value ∧ ¬escape <:+: call.1 ∧ call.2 ≠ .failed := by
  induction calls generalizing before with
  | nil => simp
  | cons call calls ih =>
    rw [List.foldl_cons, ih]
    have hone : value ∈ tempentry before call ↔
        value ∈ before ∨ call.1 = value ∧ ¬escape <:+: call.1 ∧ call.2 ≠ .failed := by
      unfold tempentry
      by_cases hescape : escape <:+: call.1
      · simp [hescape]
      · by_cases hfailed : call.2 = .failed
        · simp [hescape, hfailed]
        · simp [hescape, hfailed, eq_comm]
    rw [hone, List.exists_mem_cons_iff, or_assoc]

/-- All below an entry is removed with it, and stays inside with it. -/
theorem rmdir_r_inside (p : List Char) :
    (∀ place, rmdir_r p place → Inside place) ↔ Inside (normalise p) := by
  refine ⟨fun hall => hall _ List.prefix_rfl, fun hin place hbelow => ?_⟩
  obtain ⟨entry, rest, hp⟩ := hin
  obtain ⟨below, hplace⟩ := hbelow
  refine ⟨entry, rest ++ below, ?_⟩
  rw [← hplace, hp]
  rfl

/-- The strings kept lead inside, if each call was harmless, and only then. -/
theorem kept_inside_iff (calls : List (List Char × Open)) :
    (∀ value ∈ calls.foldl tempentry [], Inside (normalise (path value))) ↔
      ∀ call ∈ calls, Harmless call := by
  have hkept : ∀ value, value ∈ calls.foldl tempentry [] ↔
      ∃ call ∈ calls, call.1 = value ∧ ¬escape <:+: call.1 ∧ call.2 ≠ .failed := by
    intro value
    rw [mem_tempentries]
    simp
  constructor
  · intro hall call hcall
    by_cases hescape : escape <:+: call.1
    · exact .inl hescape
    · by_cases hfailed : call.2 = .failed
      · exact .inr (.inl hfailed)
      · refine .inr (.inr ((inside_iff hescape).mp (hall call.1 ?_)))
        exact (hkept _).mpr ⟨call, hcall, rfl, hescape, hfailed⟩
  · intro hall value hvalue
    obtain ⟨call, hcall, rfl, hescape, hopen⟩ := (hkept value).mp hvalue
    have hleads : LeadsInside call.1 :=
      ((hall call hcall).resolve_left hescape).resolve_left hopen
    exact (inside_iff hescape).mpr hleads

/-- The destructor removes nothing but what the strings kept lead to, and what is below. -/
theorem removed_iff_kept (calls : List (List Char × Open)) :
    (∀ place, removed calls place → Inside place) ↔
      ∀ value ∈ calls.foldl tempentry [], Inside (normalise (path value)) := by
  refine ⟨fun hall value hvalue => ?_, fun hall place hremoved => ?_⟩
  · exact (rmdir_r_inside _).mp fun place hplace => hall place ⟨value, hvalue, hplace⟩
  · obtain ⟨value, hvalue, hplace⟩ := hremoved
    exact (rmdir_r_inside _).mpr (hall value hvalue) place hplace

/-- Accepted strings name entries inside /tmp, and the destructor removes nothing else, if each
call was harmless, and only then. -/
theorem tempentries_inside_iff (calls : List (List Char × Open)) :
    ((∀ value ∈ calls.foldl tempentry [], Inside (normalise (path value))) ↔
      ∀ call ∈ calls, Harmless call) ∧
    ((∀ place, removed calls place → Inside place) ↔ ∀ call ∈ calls, Harmless call) :=
  ⟨kept_inside_iff calls, (removed_iff_kept calls).trans (kept_inside_iff calls)⟩

/-- A script that registers `..` has all files of the system removed. -/
theorem root_removed :
    ¬∀ calls : List (List Char × Open),
      (∀ value ∈ calls.foldl tempentry [], Inside (normalise (path value))) ∧
        ∀ place, removed calls place → Inside place := by
  intro hall
  have hkept : dotdot ∈ [(dotdot, Open.isDir)].foldl tempentry [] := by decide
  have hroot : normalise (path dotdot) = [] := by decide
  obtain ⟨entry, rest, hplace⟩ := (hall [(dotdot, .isDir)]).1 dotdot hkept
  rw [hroot] at hplace
  cases hplace

end Rts2.Script.TempEntries

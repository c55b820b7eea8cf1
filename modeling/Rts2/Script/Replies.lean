import Rts2.Connection.OneLine
import Rts2.Script.ConnExe

/-! # One reply to each query

The script may write its next query before the last one is answered, as long as
it is not read in the loop of a waiting query. -/
namespace Rts2.Script
open Rts2.Connection Rts2.Lib
open Rts2.Connection.ConnFork (lineText lineText_append Keeps Intact DeliversAll)

/-! ## Lines of a text -/

/-- A line of the script: a query without line ends in it. -/
structure QueryLine (line : List Byte) : Prop where
  noLineEnd : NoLineEnd line
  query : (query line).isSome = true

theorem paramNextString_spaces {spaces : List Byte} (h : ∀ b ∈ spaces, isspace b = true)
    (s enddelim : List Byte) :
    paramNextString (spaces ++ s) enddelim = paramNextString s enddelim := by
  unfold paramNextString skipSpace
  rw [List.dropWhile_append_of_pos h]

theorem query_spaces {spaces : List Byte} (h : ∀ b ∈ spaces, isspace b = true) (s : List Byte) :
    query (spaces ++ s) = query s := by
  unfold query
  rw [paramNextString_spaces h]

theorem query_blank {line : List Byte} (h : ∀ b ∈ line, isspace b = true) :
    query line = none := by
  rw [← List.append_nil line, query_spaces h]
  rfl

/-- The text before the first LF. -/
theorem split_lf {l l' rest rest' : List Byte} (h : lf ∉ l) (h' : lf ∉ l')
    (heq : l ++ lf :: rest = l' ++ lf :: rest') : l = l' ∧ rest = rest' := by
  have hpart : ∀ {l rest : List Byte}, lf ∉ l → (l ++ lf :: rest).takeWhile (· ≠ lf) = l := by
    intro l rest hl
    have hne : ∀ b ∈ l, decide (b ≠ lf) = true := by
      intro b hb
      exact decide_eq_true fun hlf => hl (hlf ▸ hb)
    rw [List.takeWhile_append_of_pos hne]
    simp
  have hl : l = l' := by rw [← hpart h, heq, hpart h']
  subst hl
  exact ⟨rfl, (List.cons.inj (List.append_cancel_left heq)).2⟩

theorem lf_notMem_of_inLine {text : List Byte} (h : ∀ b ∈ text, inLine b = true) : lf ∉ text :=
  fun hmem => ((inLine_iff lf).1 (h lf hmem)).2.1 rfl

theorem lineText_bytes {lines : List (List Byte)} (h : ∀ l ∈ lines, QueryLine l) {b : Byte}
    (hb : b ∈ lineText lines) : b ≠ 0 ∧ b ≠ cr := by
  obtain ⟨l, hl, hb⟩ := List.mem_flatMap.mp hb
  rcases List.mem_append.mp hb with hb | hb
  · exact ⟨((h l hl).noLineEnd b hb).1, ((h l hl).noLineEnd b hb).2.2⟩
  · obtain rfl := List.mem_singleton.mp hb
    exact ⟨by decide, by decide⟩

/-- Spaces in front of a line do not reach over its end. -/
theorem lf_notMem_spaces {spaces rest : List Byte} {l : List Byte} {ls : List (List Byte)}
    (hspaces : ∀ b ∈ spaces, isspace b = true) (hl : QueryLine l)
    (h : spaces ++ rest = lineText (l :: ls)) : lf ∉ spaces := by
  intro hmem
  obtain ⟨before, behind, rfl, hbefore⟩ := List.eq_append_cons_of_mem hmem
  have hline : lf ∉ l := fun hlf => (hl.noLineEnd lf hlf).2.1 rfl
  have hsplit : before ++ lf :: (behind ++ rest) = l ++ lf :: lineText ls := by
    simpa [List.append_assoc] using h
  obtain ⟨rfl, -⟩ := split_lf hbefore hline hsplit
  have hquery := hl.query
  rw [query_blank fun b hb => hspaces b (List.mem_append_left _ hb)] at hquery
  cases hquery

/-- Where a text stands whose lines the script has written: `spaces`, then what was read of
it, then what is still to be read. -/
def Follows (rest future : List Byte) (todo : List (List Byte)) : Prop :=
  ∃ spaces : List Byte, (∀ b ∈ spaces, isspace b = true) ∧ spaces ++ rest ++ future = lineText todo

theorem Follows.skipSpace {rest future : List Byte} {todo : List (List Byte)}
    (h : Follows rest future todo) : Follows (skipSpace rest) future todo := by
  obtain ⟨spaces, hspaces, htext⟩ := h
  refine ⟨spaces ++ rest.takeWhile isspace, ?_, ?_⟩
  · intro b hb
    rcases List.mem_append.mp hb with hb | hb
    · exact hspaces b hb
    · exact List.mem_takeWhile_imp hb
  · rw [← htext, List.append_assoc spaces]
    congr 2
    exact List.takeWhile_append_dropWhile

/-- What stands behind the text of a line of the script. -/
theorem ending_of_lineText {rest : List Byte} (h : ∀ b ∈ rest, b ≠ 0 ∧ b ≠ cr) :
    (rest.dropWhile inLine = [] ∧ ending (rest.dropWhile inLine) = .unfinished []) ∨
      ∃ rest', rest.dropWhile inLine = lf :: rest' ∧
        ending (rest.dropWhile inLine) = .line rest' := by
  cases hdrop : rest.dropWhile inLine with
  | nil => exact .inl ⟨rfl, rfl⟩
  | cons b rest' =>
    have hb := h b ((List.dropWhile_sublist _).subset (hdrop ▸ List.mem_cons_self ..))
    obtain rfl : b = lf := by
      rcases dropWhile_inLine_cons hdrop with h0 | hlf | hcr
      · exact absurd h0 hb.1
      · exact hlf
      · exact absurd hcr hb.2
    exact .inr ⟨rest', rfl, by simp [ending]⟩

/-- A line that was cut off is the next one of the script. -/
theorem Follows.line {rest rest' future : List Byte} {todo : List (List Byte)}
    (h : Follows rest future todo) (hlines : ∀ l ∈ todo, QueryLine l)
    (hline : rest.dropWhile inLine = lf :: rest') :
    ∃ l ls, todo = l :: ls ∧ query l = query (rest.takeWhile inLine) ∧
      rest' ++ future = lineText ls := by
  obtain ⟨spaces, hspaces, htext⟩ := h
  have hrest : rest = rest.takeWhile inLine ++ lf :: rest' := by
    rw [← hline, List.takeWhile_append_dropWhile]
  cases todo with
  | nil =>
    rw [hrest] at htext
    simp at htext
  | cons l ls =>
    have hl := hlines l (List.mem_cons_self ..)
    have hfree : lf ∉ spaces ++ rest.takeWhile inLine := by
      intro hmem
      rcases List.mem_append.mp hmem with hmem | hmem
      · exact lf_notMem_spaces hspaces hl (List.append_assoc .. ▸ htext) hmem
      · exact lf_notMem_of_inLine (fun b hb => List.mem_takeWhile_imp hb) hmem
    have hsplit : (spaces ++ rest.takeWhile inLine) ++ lf :: (rest' ++ future) =
        l ++ lf :: lineText ls := by
      rw [hrest] at htext
      simpa [List.append_assoc] using htext
    obtain ⟨hl', hls⟩ := split_lf hfree (fun hlf => (hl.noLineEnd lf hlf).2.1 rfl) hsplit
    exact ⟨l, ls, rfl, by rw [← hl', query_spaces hspaces], hls⟩

/-- A text without a line end, with nothing behind it, is no line. -/
theorem Follows.nil {rest : List Byte} {todo : List (List Byte)} (h : Follows rest [] todo)
    (hlines : ∀ l ∈ todo, QueryLine l) (hfree : lf ∉ rest) : todo = [] := by
  obtain ⟨spaces, hspaces, htext⟩ := h
  rw [List.append_nil] at htext
  cases todo with
  | nil => rfl
  | cons l ls =>
    have hmem : lf ∈ spaces ++ rest := by
      rw [htext]
      simp
    rcases List.mem_append.mp hmem with hmem | hmem
    · exact absurd hmem (lf_notMem_spaces hspaces (hlines l (List.mem_cons_self ..)) htext)
    · exact absurd hmem hfree

/-! ## Orderly runs -/

/-- The line that `processBuffer` cuts off next. -/
def cutLine (rest : List Byte) : Option (List Byte) :=
  if atEnd rest then none
  else match ending ((skipSpace rest).dropWhile inLine) with
    | .line _ => some ((skipSpace rest).takeWhile inLine)
    | _ => none

/-- A query that waits is answered before its time has come, and the pipe takes the answer. -/
def Settles (f : ConnFork) (w : Wait) (conn : Conn) (c : Clock) (a a' : PipeWrite) : Prop :=
  if c.cond < w.tom then
    w.query.holds conn = true → c.after < w.tom ∧ Keeps f (.writeToProcess [49] a)
  else Keeps f (.writeToProcess [48] a')

/-- A query is answered by one line, and the pipe takes it. -/
def Answers (f : ConnFork) (q : Query) (w : World) (c : Clock) (a a' : PipeWrite) : Prop :=
  match w.waits q with
  | some (conn, tom) => Settles f ⟨q, toInt32 (tom + c.start)⟩ conn c a a'
  | none => lf ∉ w.answer q ∧ Keeps f (.writeToProcess (w.answer q) a)

/-- The step gives one line to each query it answers, and reads nothing while a query waits. -/
def Orderly (s : ConnExe) : ConnExe.Event → Prop
  | .receive data =>
    match s.control with
    | .waiting _ _ _ => data = []
    | _ => True
  | .scan w c a a' =>
    match s.control with
    | .processing _ rest =>
      match (cutLine rest).bind query with
      | some q => Answers s.fork q w c a a'
      | none => True
    | _ => True
  | .turn conn c a a' =>
    match s.control with
    | .waiting w _ _ => Settles s.fork w conn c a a'
    | _ => True
  | .add => True
  | .writable ready a => Keeps s.fork (.writable ready a)

/-! ## Between two lines -/

/-- The query whose loop runs. -/
def Control.asked : Control → List Query
  | .waiting w _ _ => [w.query]
  | _ => []

/-- What was read and not cut into lines. -/
def Control.held : Control → List Byte
  | .idle buf => buf
  | .processing command rest => command ++ rest
  | .waiting _ rest _ => rest

/-- The control holds no line it has passed over, and nothing was read over the text. -/
def Control.Sound : Control → Prop
  | .idle buf => lf ∉ buf
  | .processing command rest => command = [] ∨ (rest = [] ∧ lf ∉ command)
  | .waiting _ _ overwritten => overwritten = 0

variable {lines : List (List Byte)} {s : ConnExe} {held : List Byte} {asked : List Query}

/-- The queries of the script up to `held` have had one reply each, but for `asked`. -/
structure At (lines : List (List Byte)) (s : ConnExe) (held : List Byte) (asked : List Query) :
    Prop where
  crashed : s.crashed = false
  intact : Intact s.fork (lineText (s.replies.map Prod.snd))
  oneLine : ∀ r ∈ s.replies, lf ∉ r.2
  place : ∃ done todo future, lines = done ++ todo ∧ lineText lines = s.received ++ future ∧
    Follows held future todo ∧ done.filterMap query = s.replies.map Prod.fst ++ asked

structure Inv (lines : List (List Byte)) (s : ConnExe) : Prop where
  here : At lines s s.control.held s.control.asked
  sound : s.control.Sound

theorem inv_start (lines : List (List Byte)) : Inv lines .start where
  here :=
    { crashed := rfl
      intact := ConnFork.intact_start
      oneLine := fun _ hr => absurd hr (by simp [ConnExe.start])
      place := ⟨[], lines, lineText lines, rfl, rfl,
        ⟨[], fun _ hb => absurd hb (by simp), rfl⟩, rfl⟩ }
  sound := by simp [ConnExe.start, Control.Sound]

/-- A text that starts where another does, up to spaces, follows as well. -/
theorem At.congr (h : At lines s held asked) {held' : List Byte}
    (hheld : ∀ {future todo}, Follows held future todo → Follows held' future todo) :
    At lines s held' asked where
  crashed := h.crashed
  intact := h.intact
  oneLine := h.oneLine
  place := by
    obtain ⟨done, todo, future, hlines, hread, hfollows, hdone⟩ := h.place
    exact ⟨done, todo, future, hlines, hread, hheld hfollows, hdone⟩

theorem At.withControl (h : At lines s held asked) (control : Control) :
    At lines { s with control } held asked :=
  ⟨h.crashed, h.intact, h.oneLine, h.place⟩

theorem At.withFork (h : At lines s held asked) {f : ConnFork}
    (hf : Intact f (lineText (s.replies.map Prod.snd))) :
    At lines { s with fork := f } held asked :=
  ⟨h.crashed, hf, h.oneLine, h.place⟩

theorem At.reply {q : Query} (h : At lines s held [q]) {text : List Byte} (htext : lf ∉ text)
    {a : PipeWrite} (hk : Keeps s.fork (.writeToProcess text a)) :
    At lines (s.reply q text a) held [] where
  crashed := h.crashed
  intact := by
    have hstep := h.intact.step hk
    simp only [ConnExe.reply, List.map_append, lineText_append, List.map_cons, List.map_nil]
    exact hstep
  oneLine := by
    intro r hr
    rcases List.mem_append.mp hr with hr | hr
    · exact h.oneLine r hr
    · obtain rfl := List.mem_singleton.mp hr
      exact htext
  place := by
    obtain ⟨done, todo, future, hlines, hread, hfollows, hdone⟩ := h.place
    refine ⟨done, todo, future, hlines, hread, hfollows, ?_⟩
    rw [hdone, List.append_nil]
    simp [ConnExe.reply]

theorem At.resume (h : At lines s held []) : Inv lines (s.resume held 0) where
  here := h.withControl (.processing [] held)
  sound := .inl rfl

theorem At.turn {w : Wait} (h : At lines s held [w.query]) {conn : Conn} {c : Clock}
    {a a' : PipeWrite} (hsettles : Settles s.fork w conn c a a') :
    Inv lines (s.turn w held 0 conn c a a') := by
  unfold ConnExe.turn
  unfold Settles at hsettles
  split
  · rename_i hcond
    rw [if_pos hcond] at hsettles
    split
    · rename_i hholds
      obtain ⟨hafter, hk⟩ := hsettles hholds
      rw [ConnExe.timedOut, if_neg (not_le.mpr hafter)]
      exact (h.reply (by decide) hk).resume
    · exact ⟨h.withControl (.waiting w held 0), rfl⟩
  · rename_i hcond
    rw [if_neg hcond] at hsettles
    rw [ConnExe.timedOut, if_pos (le_trans (not_lt.mp hcond) c.cond_le_after)]
    exact (h.reply (by decide) hsettles).resume

/-- What was read holds bytes of lines only. -/
theorem At.bytes (h : At lines s held asked) (hlines : ∀ l ∈ lines, QueryLine l) :
    ∀ b ∈ held, b ≠ 0 ∧ b ≠ cr := by
  obtain ⟨done, todo, future, rfl, -, ⟨spaces, -, htext⟩, -⟩ := h.place
  intro b hb
  have hmem : b ∈ lineText todo := by
    rw [← htext]
    exact List.mem_append_left _ (List.mem_append_right _ hb)
  exact lineText_bytes (fun l hl => hlines l (List.mem_append_right _ hl)) hmem

/-- The next line is cut off: its query is the next one of the script. -/
theorem At.line (h : At lines s held []) (hlines : ∀ l ∈ lines, QueryLine l) {rest : List Byte}
    (hline : held.dropWhile inLine = lf :: rest) :
    ∃ q, query (held.takeWhile inLine) = some q ∧ At lines s rest [q] := by
  obtain ⟨done, todo, future, rfl, hread, hfollows, hdone⟩ := h.place
  obtain ⟨l, ls, rfl, hquery, hrest⟩ :=
    hfollows.line (fun l hl => hlines l (List.mem_append_right _ hl)) hline
  have hl := hlines l (List.mem_append_right _ (List.mem_cons_self ..))
  obtain ⟨q, hq⟩ := Option.isSome_iff_exists.mp hl.query
  refine ⟨q, hquery ▸ hq, h.crashed, h.intact, h.oneLine, done ++ [l], ls, future, ?_, hread,
    ⟨[], fun _ hb => absurd hb (by simp), hrest⟩, ?_⟩
  · simp
  · rw [List.filterMap_append, hdone]
    simp [hq]

theorem At.processLine {q : Query} (h : At lines s held [q]) {line : List Byte}
    (hq : query line = some q) {w : World} {c : Clock} {a a' : PipeWrite}
    (hanswers : Answers s.fork q w c a a') :
    Inv lines (s.processLine line held w c a a') := by
  unfold ConnExe.processLine
  unfold Answers at hanswers
  rw [hq]
  dsimp only
  split
  · rename_i conn tom hwaits
    rw [hwaits] at hanswers
    exact At.turn (w := ⟨q, toInt32 (tom + c.start)⟩) h hanswers
  · rename_i hwaits
    rw [hwaits] at hanswers
    exact ⟨(h.reply hanswers.1 hanswers.2).withControl (.processing [] held), .inl rfl⟩

theorem Inv.scan (h : Inv lines s) (hlines : ∀ l ∈ lines, QueryLine l) {command rest : List Byte}
    (hcontrol : s.control = .processing command rest) {w : World} {c : Clock} {a a' : PipeWrite}
    (horderly : Orderly s (.scan w c a a')) : Inv lines (s.scan command rest w c a a') := by
  have hhere := h.here
  have hsound := h.sound
  simp only [hcontrol, Control.held, Control.asked, Control.Sound] at hhere hsound
  simp only [Orderly, hcontrol, cutLine] at horderly
  unfold ConnExe.scan
  split
  · rename_i hend
    have hrest : rest = [] := by
      cases rest with
      | nil => rfl
      | cons b rest =>
        have hb := hhere.bytes hlines b (List.mem_append_right _ (List.mem_cons_self ..))
        exact absurd (by simpa [atEnd] using hend) hb.1
    subst hrest
    rw [List.append_nil] at hhere
    refine ⟨hhere.withControl (.idle command), ?_⟩
    rcases hsound with rfl | ⟨-, hfree⟩
    · exact List.not_mem_nil
    · exact hfree
  · rename_i hend
    rw [if_neg hend] at horderly
    have hcommand : command = [] := by
      rcases hsound with hnil | ⟨rfl, -⟩
      · exact hnil
      · exact absurd rfl hend
    subst hcommand
    have hskip : At lines s (skipSpace rest) [] := hhere.congr fun hf => hf.skipSpace
    dsimp only
    rcases ending_of_lineText (hskip.bytes hlines) with ⟨hnil, hending⟩ | ⟨rest', hline, hending⟩
    · rw [hending]
      have hall : (skipSpace rest).takeWhile inLine = skipSpace rest := by
        have happ := List.takeWhile_append_dropWhile (p := inLine) (l := skipSpace rest)
        rwa [hnil, List.append_nil] at happ
      refine ⟨?_, .inr ⟨rfl, lf_notMem_of_inLine fun b hb => List.mem_takeWhile_imp hb⟩⟩
      simpa [Control.held, Control.asked, hall] using
        hskip.withControl (.processing ((skipSpace rest).takeWhile inLine) [])
    · rw [hending] at horderly ⊢
      obtain ⟨q, hq, hat⟩ := hskip.line hlines hline
      simp only [Option.bind_some, hq] at horderly
      exact hat.processLine hq horderly

/-! ## Every run -/

theorem Inv.receive (h : Inv lines s) {data : List Byte} (horderly : Orderly s (.receive data))
    (hread : (s.receive data).received <+: lineText lines) : Inv lines (s.receive data) := by
  obtain ⟨hhere, hsound⟩ := h
  cases hcontrol : s.control with
  | idle buf =>
    simp only [ConnExe.receive, hcontrol] at hread ⊢
    simp only [hcontrol, Control.held, Control.asked] at hhere
    obtain ⟨done, todo, future, hlines, htext, ⟨spaces, hspaces, hplace⟩, hdone⟩ := hhere.place
    obtain ⟨future', hfuture'⟩ := hread
    obtain rfl : future = data ++ future' := by
      rw [htext, List.append_assoc] at hfuture'
      exact (List.append_cancel_left hfuture').symm
    refine ⟨⟨hhere.crashed, hhere.intact, hhere.oneLine, done, todo, future', hlines,
      hfuture'.symm, ⟨spaces, hspaces, ?_⟩, hdone⟩, .inl rfl⟩
    rw [← hplace]
    simp [Control.held]
  | processing command rest =>
    have hsame : s.receive data = s := by simp only [ConnExe.receive, hcontrol]
    rw [hsame]
    exact ⟨hhere, hsound⟩
  | waiting w rest overwritten =>
    have hempty : data = [] := by simpa only [Orderly, hcontrol] using horderly
    have hsame : s.receive data = s := by
      rw [hempty]
      simp only [ConnExe.receive, hcontrol, List.length_nil, Nat.add_zero, List.append_nil]
      rw [← hcontrol]
    rw [hsame]
    exact ⟨hhere, hsound⟩

theorem Inv.step (h : Inv lines s) (hlines : ∀ l ∈ lines, QueryLine l) {e : ConnExe.Event}
    (horderly : Orderly s e) (hread : (s.step e).received <+: lineText lines) :
    Inv lines (s.step e) := by
  have hgo : ∀ {s' : ConnExe}, (if s.crashed = true then s else s') = s' := by
    intro s'
    rw [if_neg (by simp [h.here.crashed])]
  cases e with
  | receive data =>
    simp only [ConnExe.step, hgo] at hread ⊢
    exact h.receive horderly hread
  | scan w c a a' =>
    cases hcontrol : s.control with
    | processing command rest =>
      simp only [ConnExe.step, hgo, hcontrol]
      exact h.scan hlines hcontrol horderly
    | idle buf => simpa only [ConnExe.step, hgo, hcontrol] using h
    | waiting w rest overwritten => simpa only [ConnExe.step, hgo, hcontrol] using h
  | turn conn c a a' =>
    cases hcontrol : s.control with
    | waiting w rest overwritten =>
      simp only [ConnExe.step, hgo, hcontrol]
      have hhere := h.here
      have hsound := h.sound
      simp only [hcontrol, Control.held, Control.asked, Control.Sound] at hhere hsound
      subst hsound
      simp only [Orderly, hcontrol] at horderly
      exact hhere.turn horderly
    | idle buf => simpa only [ConnExe.step, hgo, hcontrol] using h
    | processing command rest => simpa only [ConnExe.step, hgo, hcontrol] using h
  | add =>
    simp only [ConnExe.step, hgo]
    have hfork := h.here.intact.step (e := .add) trivial
    rw [show (ConnFork.Event.add).bytes = [] from rfl, List.append_nil] at hfork
    exact ⟨h.here.withFork hfork, h.sound⟩
  | writable ready a =>
    simp only [ConnExe.step, hgo]
    have hfork := h.here.intact.step (e := .writable ready a) horderly
    rw [show (ConnFork.Event.writable ready a).bytes = [] from rfl, List.append_nil] at hfork
    exact ⟨h.here.withFork hfork, h.sound⟩

@[simp] theorem turn_received (s : ConnExe) (w : Wait) (rest : List Byte) (overwritten : Nat)
    (conn : Conn) (c : Clock) (a a' : PipeWrite) :
    (s.turn w rest overwritten conn c a a').received = s.received := by
  have htimed : ∀ s : ConnExe, (s.timedOut w c a').received = s.received := by
    intro s
    unfold ConnExe.timedOut
    split <;> rfl
  have hresume : ∀ s : ConnExe, (s.resume rest overwritten).received = s.received := by
    intro s
    unfold ConnExe.resume
    split
    · rfl
    split <;> rfl
  unfold ConnExe.turn
  split
  · split
    · rw [hresume, htimed]
      rfl
    · rfl
  · rw [hresume, htimed]

@[simp] theorem scan_received (s : ConnExe) (command rest : List Byte) (w : World) (c : Clock)
    (a a' : PipeWrite) : (s.scan command rest w c a a').received = s.received := by
  unfold ConnExe.scan
  split
  · rfl
  dsimp only
  split
  · unfold ConnExe.processLine
    split
    · rfl
    · split
      · exact turn_received ..
      · rfl
  · rfl
  · rfl

/-- Nothing that was read is forgotten. -/
theorem received_step (s : ConnExe) (e : ConnExe.Event) :
    s.received <+: (s.step e).received := by
  unfold ConnExe.step
  split
  · exact List.prefix_refl _
  split
  · unfold ConnExe.receive
    split
    · exact List.prefix_append _ _
    · exact List.prefix_refl _
    · exact List.prefix_append _ _
  · rw [scan_received]
  · rw [turn_received]
  · exact List.prefix_refl _
  · exact List.prefix_refl _
  · exact List.prefix_refl _

theorem received_run (s : ConnExe) (es : List ConnExe.Event) :
    s.received <+: (run ConnExe.step s es).received := by
  induction es generalizing s with
  | nil => exact List.prefix_refl _
  | cons e es ih => exact (received_step s e).trans (ih (s.step e))

theorem inv_run (hlines : ∀ l ∈ lines, QueryLine l) {es : List ConnExe.Event}
    (h : Inv lines s) (horderly : Along ConnExe.step Orderly s es)
    (hread : (run ConnExe.step s es).received <+: lineText lines) :
    Inv lines (run ConnExe.step s es) := by
  induction es generalizing s with
  | nil => exact h
  | cons e es ih =>
    have hstep := (received_run (s.step e) es).trans hread
    exact ih (h.step hlines horderly.1 hstep) horderly.2 hread

/-- **One reply line to each query, in order**, in every run whose steps are orderly, however
many queries the script writes ahead. -/
theorem one_reply_each (lines : List (List Byte)) (es : List ConnExe.Event)
    (hlines : ∀ l ∈ lines, QueryLine l) (horderly : Along ConnExe.step Orderly .start es)
    (hread : (run ConnExe.step .start es).received <+: lineText lines) :
    (run ConnExe.step .start es).replies.map Prod.fst <+: lines.filterMap query ∧
    (∀ r ∈ (run ConnExe.step .start es).replies, lf ∉ r.2) ∧
    DeliversAll (run ConnExe.step .start es).fork
      (lineText ((run ConnExe.step .start es).replies.map Prod.snd)) ∧
    ∀ buf, (run ConnExe.step .start es).control = .idle buf →
      (run ConnExe.step .start es).received = lineText lines →
      (run ConnExe.step .start es).replies.map Prod.fst = lines.filterMap query := by
  obtain ⟨hhere, hsound⟩ := inv_run hlines (inv_start lines) horderly hread
  refine ⟨?_, hhere.oneLine, hhere.intact.deliversAll, fun buf hcontrol hall => ?_⟩
  · obtain ⟨done, todo, future, rfl, -, -, hdone⟩ := hhere.place
    rw [List.filterMap_append, hdone, List.append_assoc]
    exact List.prefix_append _ _
  · simp only [hcontrol, Control.held, Control.asked, Control.Sound] at hhere hsound
    obtain ⟨done, todo, future, rfl, htext, hfollows, hdone⟩ := hhere.place
    obtain rfl : future = [] := by
      rw [hall] at htext
      exact List.self_eq_append_right.mp htext
    obtain rfl := hfollows.nil (fun l hl => hlines l (List.mem_append_right _ hl)) hsound
    rw [List.append_nil, hdone, List.append_nil]

/-- A device that is idle, and one that is not. -/
def idleDevice : Conn := ⟨false, Status.deviceIdle⟩
def busyDevice : Conn := ⟨false, Status.telMoving⟩

/-- A device under every name. -/
def worldOf (conn : Conn) : World := ⟨fun _ _ => none, fun _ => none, fun _ => some conn, none⟩

/-- `waitidle a 5` -/
def lineWaitidle : List Byte := commandWaitidle ++ [32, 97, 32, 53]

def clockAt (cond after : Int) (h : cond ≤ after) : Clock := ⟨0, cond, after, h⟩

/-- Two queries are written at once, and the first one has to wait. -/
theorem one_reply_each_ahead :
    (run ConnExe.step .start [.receive (lineWaitidle ++ lf :: commandRunDevice ++ [lf]),
      .scan (worldOf busyDevice) (clockAt 0 0 (by decide)) (.takes 9) (.takes 9),
      .turn idleDevice (clockAt 2 3 (by decide)) (.takes 9) (.takes 9),
      .scan (worldOf idleDevice) (clockAt 3 3 (by decide)) (.takes 20) (.takes 9),
      .scan (worldOf idleDevice) (clockAt 3 3 (by decide)) (.takes 9) (.takes 9)]).replies.map
        Prod.fst = [lineWaitidle, commandRunDevice].filterMap query :=
  (one_reply_each [lineWaitidle, commandRunDevice] _
    (by
      intro l hl
      rcases List.mem_cons.mp hl with rfl | hl
      · exact ⟨forall_of_all (by decide), by decide⟩
      · obtain rfl := List.mem_singleton.mp hl
        exact ⟨forall_of_all (by decide), by decide⟩)
    (by
      refine ⟨trivial, ?_, ?_, ?_, trivial, trivial⟩
      · exact fun hholds => absurd hholds (by decide)
      · exact fun _ => ⟨by decide, rfl, by decide, by decide⟩
      · exact ⟨by decide, rfl, by decide, by decide⟩)
    (by decide)).2.2.2 [] rfl (by decide)

/-- One query, and two replies: the device is idle, and then the time is over. -/
theorem two_replies :
    query lineWaitidle = some (.waitidle [97] 5) ∧
    (run ConnExe.step .start [.receive (lineText [lineWaitidle]),
      .scan (worldOf idleDevice) (clockAt 4 5 (by decide)) (.takes 9) (.takes 9)]).fork.delivered =
        lineText [[49], [48]] := by
  decide

end Rts2.Script

import Rts2.Connection.SplitInvariance
import Rts2.Connection.ValueLine

/-! # The lines one message becomes

`sendMsg` puts LF behind a message. A message without line ends in it is one
line; and whatever was sent, no line holds a line end. -/
namespace Rts2.Connection
open Rts2.Lib

/-- A connection between two lines. -/
def Waiting : Type := { s : Recv // Idle s ∧ s.crashed = false }

/-- The lines handed to `processLine` while these bytes arrive. -/
def Recv.handed (h : Handlers) (s : Recv) (bytes : List Byte) : List (List Byte) :=
  (run (Recv.feed h) s bytes).lines.drop s.lines.length

/-- A text without line ends. -/
def NoLineEnd (text : List Byte) : Prop := ∀ b ∈ text, b ≠ 0 ∧ b ≠ lf ∧ b ≠ cr

theorem NoLineEnd.inLine {text : List Byte} (h : NoLineEnd text) :
    ∀ b ∈ text, inLine b = true := fun b hb => (inLine_iff b).mpr (h b hb)

theorem NoLineEnd.isText {text : List Byte} (h : NoLineEnd text) : IsText text :=
  fun b hb => ⟨(h b hb).1, (h b hb).2.1⟩

/-- A text that starts with a word and holds no line end is handed over as it is. -/
theorem deliverLine_message {h : Handlers} {s : Recv} (hc : s.crashed = false) {line : List Byte}
    (hline : NoLineEnd line) {b : Byte} (hhead : line.head? = some b) (hspace : isspace b = false)
    (payload : List Byte) :
    s.deliverLine h ⟨line, false, payload⟩ = s.processLine h line := by
  have hne : line ≠ [] := by
    rintro rfl
    cases hhead
  have hstart : ∀ x ∈ line.head?, isspace x = false := by
    intro x hx
    obtain rfl : b = x := Option.some.inj (hhead.symm.trans hx)
    exact hspace
  obtain ⟨hkeep, hword⟩ := run_keep_word hline.inLine hstart hne
  have hit : Item.line ⟨line, false, payload⟩ = line := rfl
  unfold Recv.deliverLine
  rw [hit, hkeep, hword.lineOf]
  exact if_neg (by simp [hc, hne])

/-- A message that starts with a word and holds no line end is one line. -/
theorem handed_message {h : Handlers} (s : Waiting) {line : List Byte} (hline : NoLineEnd line)
    {b : Byte} (hhead : line.head? = some b) (hspace : isspace b = false) :
    s.val.handed h (line ++ [lf]) = [line] := by
  obtain ⟨s, hidle, hc⟩ := s
  have hlines : (run (Recv.feed h) s (line ++ [lf])).lines = s.lines ++ [line] := by
    rw [show line ++ [lf] = Item.line ⟨line, false, []⟩ ++ [lf] from rfl,
      line_feed hidle hc hline.isText, deliverLine_message hc hline hhead hspace]
    split
    · rw [takeData_lines, processLine_lines]
    · exact processLine_lines s _
  show (run (Recv.feed h) s (line ++ [lf])).lines.drop s.lines.length = _
  rw [hlines, List.drop_left]

/-! ## No line holds a line end -/

/-- What is kept of a line: CR at most at its end. -/
structure Partial (buf : List Byte) : Prop where
  text : ∀ b ∈ buf, b ≠ 0 ∧ b ≠ lf
  crLast : cr ∉ buf.dropLast

theorem Partial.keep {buf : List Byte} (h : Partial buf) {b : Byte} (hnul : b ≠ 0) (hlf : b ≠ lf) :
    Partial (keep buf b) := by
  unfold Connection.keep
  split
  · split
    · exact ⟨by simp, by simp⟩
    · exact ⟨by simp [hnul, hlf], by simp⟩
  · next hmid =>
    obtain ⟨hne, hlast⟩ := not_or.mp hmid
    refine ⟨?_, ?_⟩
    · intro c hc
      rcases List.mem_append.mp hc with hc | hc
      · exact h.text c hc
      · obtain rfl := List.mem_singleton.mp hc
        exact ⟨hnul, hlf⟩
    · rw [List.dropLast_concat]
      intro hmem
      rw [← List.dropLast_concat_getLast hne] at hmem
      rcases List.mem_append.mp hmem with hmem | hmem
      · exact h.crLast hmem
      · have hcr := List.mem_singleton.mp hmem
        rw [List.getLast?_eq_some_getLast hne, ← hcr] at hlast
        exact hlast rfl

theorem Partial.lineOf {buf : List Byte} (h : Partial buf) : NoLineEnd (lineOf buf) := by
  unfold Connection.lineOf
  split
  · intro b hb
    have htext := h.text b ((List.dropLast_sublist _).subset hb)
    exact ⟨htext.1, htext.2, fun hcr => h.crLast (hcr ▸ hb)⟩
  · next hlast =>
    intro b hb
    have htext := h.text b hb
    refine ⟨htext.1, htext.2, ?_⟩
    rintro rfl
    have hne : buf ≠ [] := List.ne_nil_of_mem hb
    rw [← List.dropLast_concat_getLast hne] at hb
    rcases List.mem_append.mp hb with hb | hb
    · exact h.crLast hb
    · rw [List.getLast?_eq_some_getLast hne, ← List.mem_singleton.mp hb] at hlast
      exact hlast rfl

/-- The lines handed over since `old` hold no line end, nor will the next one. -/
structure Cut (old : List (List Byte)) (s : Recv) : Prop where
  buf : Partial s.buf
  lines : ∃ new, s.lines = old ++ new ∧ ∀ line ∈ new, NoLineEnd line

theorem Cut.feed {h : Handlers} {old : List (List Byte)} {s : Recv} (hcut : Cut old s) {b : Byte}
    (hnul : b ≠ 0) : Cut old (s.feed h b) := by
  obtain ⟨new, hlines, hnew⟩ := hcut.lines
  unfold Recv.feed
  split
  · exact hcut
  split
  · exact ⟨by rw [takeData_buf]; exact hcut.buf, new, by rw [takeData_lines, hlines], hnew⟩
  split
  · unfold Recv.feedLf
    split
    · exact hcut
    · refine ⟨by rw [endLine_buf]; exact ⟨by simp, by simp⟩, new ++ [lineOf s.buf], ?_, ?_⟩
      · rw [endLine_lines, hlines, List.append_assoc]
      · intro line hmem
        rcases List.mem_append.mp hmem with hmem | hmem
        · exact hnew line hmem
        · rw [List.mem_singleton.mp hmem]
          exact hcut.buf.lineOf
  · next hlf => exact ⟨hcut.buf.keep hnul hlf, new, hlines, hnew⟩

theorem Cut.run {h : Handlers} {old : List (List Byte)} {bytes : List Byte}
    (hnul : ∀ b ∈ bytes, b ≠ 0) {s : Recv} (hcut : Cut old s) : Cut old (run (Recv.feed h) s bytes) := by
  induction bytes generalizing s with
  | nil => exact hcut
  | cons b bytes ih =>
    exact ih (fun c hc => hnul c (List.mem_cons_of_mem _ hc))
      (hcut.feed (hnul b List.mem_cons_self))

theorem handed_noLineEnd {h : Handlers} (s : Waiting) {bytes : List Byte}
    (hnul : ∀ b ∈ bytes, b ≠ 0) : ∀ line ∈ s.val.handed h bytes, NoLineEnd line := by
  obtain ⟨s, hidle, -⟩ := s
  have hstart : Cut s.lines s :=
    ⟨by rw [hidle.buf]; exact ⟨by simp, by simp⟩, [], by simp, by simp⟩
  obtain ⟨new, hlines, hnew⟩ := (hstart.run (h := h) hnul).lines
  intro line hmem
  refine hnew line ?_
  have hdrop : s.handed h bytes = new := by
    unfold Recv.handed
    rw [hlines, List.drop_left]
  exact hdrop ▸ hmem

end Rts2.Connection

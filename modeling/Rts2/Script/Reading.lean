import Rts2.Script.WellFormed

/-! # What the parser reads

The parser reads the elements `Reads` gives without `strict`, and no others. A
well-formed text is among them. -/
namespace Rts2.Script.Parse
open Rts2.Connection

section Reading
variable {R : Type} (lib : CLib R) (env : Env)

/-! ## One element -/

theorem parseBuf_none {pb : List Byte → Except ParsingError (List (Element R) × List Byte)}
    {s rest : List Byte} (h : parseHead lib env s = .ok (none, rest)) :
    parseBuf lib env pb s = .ok (none, rest) := by
  simp [parseBuf, h]

theorem parseBuf_element {pb : List Byte → Except ParsingError (List (Element R) × List Byte)}
    {s rest : List Byte} {el : Element R} (h : parseHead lib env s = .ok (some (.element el), rest)) :
    parseBuf lib env pb s = .ok (some el, rest) := by
  simp [parseBuf, h]

theorem parseBuf_noBlock {pb : List Byte → Except ParsingError (List (Element R) × List Byte)}
    {s t rest : List Byte} {opening : Opening R}
    (h : parseHead lib env s = .ok (some (.opens opening), t)) (hopen : openBlock t = (false, rest)) :
    parseBuf lib env pb s = .ok (none, rest) := by
  simp [parseBuf, h, hopen]

theorem parseBuf_opens {pb : List Byte → Except ParsingError (List (Element R) × List Byte)}
    {strict : Bool} {s t u : List Byte} {opening : Opening R} {inner : List (Element R)}
    (h : Opens lib env strict s opening t) (hinner : pb t = .ok (inner, u)) :
    parseBuf lib env pb s = opening.close lib env pb inner u := by
  obtain ⟨v, hhead, hopen, -⟩ := h
  simp [parseBuf, hhead, hopen, hinner]

theorem opens_rest {strict : Bool} {s t : List Byte} {opening : Opening R}
    (h : Opens lib env strict s opening t) : t.length < s.length := by
  obtain ⟨v, hhead, hopen, -⟩ := h
  have hlt := (parseHead_rest lib env hhead).2 nofun
  have hle := openBlock_rest v
  rw [hopen] at hle
  dsimp only at hle
  omega

theorem isElse_rest {strict : Bool} {s rest : List Byte} (h : IsElse strict s rest) :
    rest.length ≤ s.length := by
  obtain ⟨t, hnext, hopen, -⟩ := h
  have h1 := isNext_rest elseText s
  have h2 := openBlock_rest t
  rw [hnext] at h1
  rw [hopen] at h2
  exact Nat.le_trans h2 h1

theorem isWhile_rest {strict : Bool} {s rest : List Byte} {condition : Option (Operand R)}
    (h : IsWhile lib env strict s condition rest) : rest.length ≤ s.length := by
  obtain ⟨t, hnext, hcond, -⟩ := h
  have h1 := (nextElement_rest s).1
  have h2 := parseCondition_rest lib env hcond
  rw [hnext] at h1
  exact Nat.le_trans h2 h1

theorem close_acquiredElse {pb : List Byte → Except ParsingError (List (Element R) × List Byte)}
    {strict : Bool} {tarId : Int} {inner inner' : List (Element R)} {u v w : List Byte}
    (helse : IsElse strict u v) (hinner : pb v = .ok (inner', w)) :
    (Opening.acquired tarId).close lib env pb inner u =
      .ok (some (.acquired tarId inner inner'), w) := by
  obtain ⟨t, hnext, hopen, -⟩ := helse
  simp [Opening.close, hnext, hopen, hinner]

theorem close_doLoop {pb : List Byte → Except ParsingError (List (Element R) × List Byte)}
    {strict : Bool} {max : Int} {inner : List (Element R)} {u v : List Byte}
    {condition : Option (Operand R)} (hwhile : IsWhile lib env strict u condition v) :
    (Opening.doLoop max).close lib env pb inner u = .ok (some (.doLoop max inner condition), v) := by
  obtain ⟨t, hnext, hcond, -⟩ := hwhile
  simp [Opening.close, hnext, hcond]

/-! ## A loop over elements -/

/-- The check of the loop that reads a block, or the script. -/
def checkOf (inBlock : Bool) (el : Element R) : Option ParsingError :=
  if inBlock then none else el.checkParameters lib

theorem checkOf_eq_none {inBlock : Bool} {el : Element R} :
    checkOf lib inBlock el = none ↔ Checked lib false inBlock el := by
  cases inBlock <;> simp [checkOf, Checked]

/-- The loop that reads a block, or the script, over blocks of that nesting. -/
def parseLoop (inBlock : Bool) (nesting fuel : Nat) (s : List Byte) :
    Except ParsingError (List (Element R) × List Byte) :=
  parseElements (checkOf lib inBlock) (parseBuf lib env (parseBlock lib env nesting)) fuel s

theorem parseBlock_succ (nesting : Nat) (s : List Byte) :
    parseBlock lib env (nesting + 1) s = parseLoop lib env true nesting (s.length + 1) s := rfl

theorem parseLoop_none {inBlock : Bool} {nesting fuel : Nat} {s rest : List Byte}
    (h : parseBuf lib env (parseBlock lib env nesting) s = .ok (none, rest)) (hfuel : 0 < fuel) :
    parseLoop lib env inBlock nesting fuel s = .ok ([], rest) := by
  obtain ⟨f, rfl⟩ : ∃ f, fuel = f + 1 := ⟨fuel - 1, by omega⟩
  simp [parseLoop, parseElements, h]

theorem parseLoop_some {inBlock : Bool} {nesting fuel : Nat} {s t rest : List Byte} {el : Element R}
    {els : List (Element R)}
    (h : parseBuf lib env (parseBlock lib env nesting) s = .ok (some el, t))
    (hcheck : Checked lib false inBlock el) (hlt : t.length < s.length) (hfuel : s.length < fuel)
    (hrest : ∀ f, t.length < f → parseLoop lib env inBlock nesting f t = .ok (els, rest)) :
    parseLoop lib env inBlock nesting fuel s = .ok (el :: els, rest) := by
  obtain ⟨f, rfl⟩ : ∃ f, fuel = f + 1 := ⟨fuel - 1, by omega⟩
  have hrest := hrest f (by omega)
  unfold parseLoop at hrest ⊢
  simp [parseElements, h, (checkOf_eq_none lib).mpr hcheck, hrest]

theorem parseBlock_of_loop {t u : List Byte} {inner : List (Element R)} {nesting : Nat}
    (hloop : ∀ nesting fuel, t.length ≤ nesting → t.length < fuel →
      parseLoop lib env true nesting fuel t = .ok (inner, u))
    (hlt : t.length < nesting) : parseBlock lib env nesting t = .ok (inner, u) := by
  obtain ⟨n, rfl⟩ : ∃ n, nesting = n + 1 := ⟨nesting - 1, by omega⟩
  rw [parseBlock_succ]
  exact hloop n _ (by omega) (by omega)

/-- A block that the loop reads, and what follows it. -/
theorem parseBuf_of_loop {s t u : List Byte} {opening : Opening R} {inner : List (Element R)}
    {nesting : Nat} {answer : Except ParsingError (Option (Element R) × List Byte)}
    (hopens : Opens lib env false s opening t)
    (hloop : ∀ nesting fuel, t.length ≤ nesting → t.length < fuel →
      parseLoop lib env true nesting fuel t = .ok (inner, u))
    (hn : s.length ≤ nesting)
    (hclose : opening.close lib env (parseBlock lib env nesting) inner u = answer) :
    parseBuf lib env (parseBlock lib env nesting) s = answer := by
  have hlt := opens_rest lib env hopens
  rw [parseBuf_opens lib env hopens (parseBlock_of_loop lib env hloop (by omega)), hclose]

/-- The loop finds the elements of the text: a byte less to read is a byte less of
fuel, and a block is shorter than the text it stands in. -/
theorem parseLoop_of_reads {inBlock : Bool} {s rest : List Byte} {els : List (Element R)}
    (h : Reads lib env false inBlock s els rest) :
    rest.length ≤ s.length ∧ ∀ nesting fuel, s.length ≤ nesting → s.length < fuel →
      parseLoop lib env inBlock nesting fuel s = .ok (els, rest) := by
  induction h with
  | @ends inBlock s rest hends =>
    have hnone : ∀ pb, parseBuf lib env pb s = .ok (none, rest) ∧ rest.length ≤ s.length := by
      intro pb
      rcases hends with hnull | ⟨opening, t, hhead, hopen⟩
      · exact ⟨parseBuf_none lib env hnull, (parseHead_rest lib env hnull).1⟩
      · have h1 := (parseHead_rest lib env hhead).1
        have h2 := openBlock_rest t
        rw [hopen] at h2
        exact ⟨parseBuf_noBlock lib env hhead hopen, Nat.le_trans h2 h1⟩
    refine ⟨(hnone fun _ => .ok ([], [])).2, fun nesting fuel _ hfuel => ?_⟩
    exact parseLoop_none lib env (hnone _).1 (by omega)
  | @element inBlock s el t els rest hel hcheck _ ih =>
    have hlt := (parseHead_rest lib env hel.1).2 nofun
    refine ⟨by omega, fun nesting fuel hn hfuel => ?_⟩
    exact parseLoop_some lib env (parseBuf_element lib env hel.1) hcheck
      (by omega) hfuel
      fun f hf => ih.2 nesting f (by omega) hf
  | @block inBlock s kind t inner u els rest hopens _ _ ihInner ih =>
    have hlt := opens_rest lib env hopens
    have hle := ihInner.1
    refine ⟨by omega, fun nesting fuel hn hfuel => ?_⟩
    exact parseLoop_some lib env (parseBuf_of_loop lib env hopens ihInner.2 hn rfl) (fun _ => rfl)
      (by omega) hfuel
      fun f hf => ih.2 nesting f (by omega) hf
  | @acquired inBlock s tarId t inner u v els rest hopens _ helse _ ihInner ih =>
    have hlt := opens_rest lib env hopens
    have hle := ihInner.1
    have hnext := isNext_rest elseText u
    rw [helse] at hnext
    dsimp only at hnext
    refine ⟨by omega, fun nesting fuel hn hfuel => ?_⟩
    have hclose : (Opening.acquired tarId).close lib env (parseBlock lib env nesting) inner u =
        .ok (some (.acquired tarId inner []), v) := by
      simp [Opening.close, helse]
    exact parseLoop_some lib env (parseBuf_of_loop lib env hopens ihInner.2 hn hclose)
      (fun _ => rfl) (by omega) hfuel
      fun f hf => ih.2 nesting f (by omega) hf
  | @acquiredElse inBlock s tarId t inner u v inner' w els rest hopens _ helse _ _ ihInner
      ihInner' ih =>
    have hlt := opens_rest lib env hopens
    have hle := ihInner.1
    have hle' := ihInner'.1
    have helse' := isElse_rest helse
    refine ⟨by omega, fun nesting fuel hn hfuel => ?_⟩
    have hinner' := parseBlock_of_loop lib env ihInner'.2 (show v.length < nesting by omega)
    have hclose : (Opening.acquired tarId).close lib env (parseBlock lib env nesting) inner u =
        .ok (some (.acquired tarId inner inner'), w) :=
      close_acquiredElse lib env helse hinner'
    exact parseLoop_some lib env (parseBuf_of_loop lib env hopens ihInner.2 hn hclose)
      (fun _ => rfl) (by omega) hfuel
      fun f hf => ih.2 nesting f (by omega) hf
  | @doLoop inBlock s max t inner u condition v els rest hopens _ hwhile _ ihInner ih =>
    have hlt := opens_rest lib env hopens
    have hle := ihInner.1
    have hwhile' := isWhile_rest lib env hwhile
    refine ⟨by omega, fun nesting fuel hn hfuel => ?_⟩
    have hclose : (Opening.doLoop max).close lib env (parseBlock lib env nesting) inner u =
        .ok (some (.doLoop max inner condition), v) :=
      close_doLoop lib env hwhile
    exact parseLoop_some lib env (parseBuf_of_loop lib env hopens ihInner.2 hn hclose)
      (fun _ => rfl) (by omega) hfuel
      fun f hf => ih.2 nesting f (by omega) hf
  | @noElse inBlock s tarId t inner u v rest _ hopens _ helse hopen ihInner =>
    have hlt := opens_rest lib env hopens
    have hle := ihInner.1
    have hnext := isNext_rest elseText u
    have hrest := openBlock_rest v
    rw [helse] at hnext
    rw [hopen] at hrest
    dsimp only at hnext hrest
    refine ⟨by omega, fun nesting fuel hn hfuel => ?_⟩
    have hclose : (Opening.acquired tarId).close lib env (parseBlock lib env nesting) inner u =
        .ok (none, rest) := by
      simp [Opening.close, helse, hopen]
    exact parseLoop_none lib env (parseBuf_of_loop lib env hopens ihInner.2 hn hclose) (by omega)
  | @noWhile inBlock s max t inner u rest _ hopens _ hwhile hrest ihInner =>
    have hlt := opens_rest lib env hopens
    have hle := ihInner.1
    have hnext := (nextElement_rest u).1
    rw [hrest] at hnext
    refine ⟨by omega, fun nesting fuel hn hfuel => ?_⟩
    have hclose : (Opening.doLoop max).close lib env (parseBlock lib env nesting) inner u =
        .ok (none, rest) := by
      simp [Opening.close, hwhile, hrest]
    exact parseLoop_none lib env (parseBuf_of_loop lib env hopens ihInner.2 hn hclose) (by omega)

/-! ## Nothing else is read -/

/-- What one answer of `parseBuf` adds to the elements that follow. -/
def ReadsOn (s : List Byte) : Option (Element R) → List Byte → Prop
  | none, rest => ∀ inBlock, Reads lib env false inBlock s [] rest
  | some el, t => t.length < s.length ∧ ∀ inBlock els rest, Checked lib false inBlock el →
      Reads lib env false inBlock t els rest → Reads lib env false inBlock s (el :: els) rest

theorem readsOn_of_close {pb : List Byte → Except ParsingError (List (Element R) × List Byte)}
    {s t u rest : List Byte} {opening : Opening R} {inner : List (Element R)} {o : Option (Element R)}
    (hblock : ∀ v inner u, v.length < s.length → pb v = .ok (inner, u) →
      Reads lib env false true v inner u)
    (hopens : Opens lib env false s opening t) (hinner : Reads lib env false true t inner u)
    (h : opening.close lib env pb inner u = .ok (o, rest)) : ReadsOn lib env s o rest := by
  have hlt := opens_rest lib env hopens
  have hle := (parseLoop_of_reads lib env hinner).1
  cases opening with
  | block kind =>
    cases h
    exact ⟨by omega, fun inBlock els rest _ hrest => .block hopens hinner hrest⟩
  | acquired tarId =>
    have hnext := isNext_rest elseText u
    simp only [Opening.close] at h
    split at h <;> next v helse =>
      rw [helse] at hnext
      dsimp only at hnext
      first
      | cases h
        exact ⟨by omega, fun inBlock els rest _ hrest => .acquired hopens hinner helse hrest⟩
      | split at h
        · next hopen =>
          cases h
          exact fun inBlock => .noElse rfl hopens hinner helse hopen
        · next w hopen =>
          have hw := openBlock_rest v
          rw [hopen] at hw
          dsimp only at hw
          split at h
          · cases h
          · next inner' x hinner' =>
            cases h
            have hreads := hblock w inner' _ (by omega) hinner'
            have hle' := (parseLoop_of_reads lib env hreads).1
            exact ⟨by omega, fun inBlock els rest _ hrest =>
              .acquiredElse hopens hinner ⟨v, helse, hopen, nofun⟩ hreads hrest⟩
  | doLoop max =>
    simp only [Opening.close] at h
    split at h
    · next hwhile =>
      cases h
      exact fun inBlock => .noWhile rfl hopens hinner hwhile rfl
    · next hwhile =>
      split at h
      · cases h
      · next condition v hcond =>
        cases h
        have hword : (nextElement u).1 = Keyword.blockWhile.text := Decidable.of_not_not hwhile
        have hw : IsWhile lib env false u condition rest :=
          ⟨(nextElement u).2, by rw [← hword], hcond, nofun⟩
        have hle' := isWhile_rest lib env hw
        exact ⟨by omega, fun inBlock els rest _ hrest => .doLoop hopens hinner hw hrest⟩

theorem readsOn_of_parseBuf {pb : List Byte → Except ParsingError (List (Element R) × List Byte)}
    {s rest : List Byte} {o : Option (Element R)}
    (hblock : ∀ v inner u, v.length < s.length → pb v = .ok (inner, u) →
      Reads lib env false true v inner u)
    (h : parseBuf lib env pb s = .ok (o, rest)) : ReadsOn lib env s o rest := by
  unfold parseBuf at h
  split at h
  · cases h
  · next hhead =>
    cases h
    exact fun inBlock => .ends (.inl hhead)
  · next el t hhead =>
    cases h
    exact ⟨(parseHead_rest lib env hhead).2 nofun,
      fun inBlock els rest hcheck hrest => .element ⟨hhead, nofun⟩ hcheck hrest⟩
  · next opening t hhead =>
    split at h
    · next hopen =>
      cases h
      exact fun inBlock => .ends (.inr ⟨opening, t, hhead, hopen⟩)
    · next v hopen =>
      have hopens : Opens lib env false s opening v := ⟨t, hhead, hopen, nofun⟩
      split at h
      · cases h
      · next inner u hinner =>
        exact readsOn_of_close lib env hblock hopens
          (hblock v inner u (opens_rest lib env hopens) hinner) h

/-- The elements the loop finds are those of the text. The induction is on the
nesting, and on the fuel inside. -/
theorem reads_of_parseLoop (nesting : Nat) : ∀ fuel inBlock s els rest, s.length ≤ nesting →
    s.length < fuel → parseLoop lib env inBlock nesting fuel s = .ok (els, rest) →
      Reads lib env false inBlock s els rest := by
  induction nesting using Nat.strong_induction_on with
  | _ nesting ihNesting =>
    have hblock : ∀ v inner u, v.length < nesting → parseBlock lib env nesting v = .ok (inner, u) →
        Reads lib env false true v inner u := by
      intro v inner u hlt h
      obtain ⟨n, rfl⟩ : ∃ n, nesting = n + 1 := ⟨nesting - 1, by omega⟩
      exact ihNesting n (by omega) _ _ v inner u (by omega) (by omega) h
    intro fuel
    induction fuel with
    | zero => exact fun inBlock s els rest _ hfuel _ => by omega
    | succ fuel ih =>
      intro inBlock s els rest hn hfuel h
      have hone : ∀ o t, parseBuf lib env (parseBlock lib env nesting) s = .ok (o, t) →
          ReadsOn lib env s o t := fun o t =>
        readsOn_of_parseBuf lib env fun v inner u hlt => hblock v inner u (by omega)
      unfold parseLoop parseElements at h
      split at h
      · cases h
      · next hnone =>
        cases h
        exact hone _ _ hnone inBlock
      · next el t hsome =>
        obtain ⟨hlt, hon⟩ := hone _ _ hsome
        split at h
        · cases h
        · next hcheck =>
          split at h
          · cases h
          · next els' rest' hrest =>
            cases h
            exact hon inBlock _ _ ((checkOf_eq_none lib).mp hcheck)
              (ih inBlock t _ _ (by omega) (by omega) hrest)

/-- The loop is the reading of the text: enough nesting and fuel change nothing. -/
theorem parseLoop_iff {inBlock : Bool} {nesting fuel : Nat} {s rest : List Byte}
    {els : List (Element R)} (hn : s.length ≤ nesting) (hfuel : s.length < fuel) :
    parseLoop lib env inBlock nesting fuel s = .ok (els, rest) ↔
      Reads lib env false inBlock s els rest :=
  ⟨reads_of_parseLoop lib env nesting fuel inBlock s els rest hn hfuel,
    fun h => (parseLoop_of_reads lib env h).2 nesting fuel hn hfuel⟩

/-! ## A well-formed text is read -/

theorem ends_of_strict {inBlock : Bool} {s rest : List Byte}
    (h : Ends lib env true inBlock s rest) : Ends lib env false inBlock s rest := by
  left
  rcases h with ⟨hs, rfl⟩ | ⟨-, hword, -⟩
  · simp [parseHead, nextElement_of_skipSpace_nil hs]
    rfl
  · simp [parseHead, hword]
    rfl

theorem reads_of_strict {inBlock : Bool} {s rest : List Byte} {els : List (Element R)}
    (h : Reads lib env true inBlock s els rest) : Reads lib env false inBlock s els rest := by
  have hopens : ∀ {s rest : List Byte} {opening : Opening R},
      Opens lib env true s opening rest → Opens lib env false s opening rest :=
    fun ⟨t, hhead, hopen, _⟩ => ⟨t, hhead, hopen, nofun⟩
  induction h with
  | ends h => exact .ends (ends_of_strict lib env h)
  | element h hcheck _ ih => exact .element ⟨h.1, nofun⟩ (fun _ => hcheck (.inl rfl)) ih
  | block h _ _ ihInner ih => exact .block (hopens h) ihInner ih
  | acquired h _ helse _ ihInner ih => exact .acquired (hopens h) ihInner helse ih
  | acquiredElse h _ helse _ _ ihInner ihInner' ih =>
    obtain ⟨t, hnext, hopen, -⟩ := helse
    exact .acquiredElse (hopens h) ihInner ⟨t, hnext, hopen, nofun⟩ ihInner' ih
  | doLoop h _ hwhile _ ihInner ih =>
    obtain ⟨t, hnext, hcond, -⟩ := hwhile
    exact .doLoop (hopens h) ihInner ⟨t, hnext, hcond, nofun⟩ ih
  | noElse hloose => cases hloose
  | noWhile hloose => cases hloose

theorem ends_of_reads_nil {inBlock : Bool} {s rest : List Byte}
    (h : Reads lib env true inBlock s [] rest) : Ends lib env true inBlock s rest := by
  cases h with
  | ends h => exact h
  | noElse hloose => cases hloose
  | noWhile hloose => cases hloose

/-! ## Scripts -/

/-- The elements of a script, read to its end, and its comment. -/
def Spells (strict : Bool) (commentNumber : Nat) (cmdBuf : List Byte) (els : List (Element R)) :
    Prop :=
  ∃ read, Reads lib env strict false (scriptText cmdBuf) read [] ∧
    els = read ++ scriptComment commentNumber cmdBuf

/-- `parseScript` throws, or `getFaultLocation` tells where it stopped. -/
def Reported (answer : Except ParsingError (List (Element R) × List Byte)) : Prop :=
  match answer with
  | .error _ => True
  | .ok (_, rest) => rest ≠ []

theorem parseScript_iff {commentNumber : Nat} {cmdBuf : List Byte} {els : List (Element R)} :
    parseScript lib env commentNumber cmdBuf = .ok (els, []) ↔
      Spells lib env false commentNumber cmdBuf els := by
  have hloop : ∀ {read rest}, parseLoop lib env false ((scriptText cmdBuf).length + 1)
      ((scriptText cmdBuf).length + 1) (scriptText cmdBuf) = .ok (read, rest) ↔
        Reads lib env false false (scriptText cmdBuf) read rest :=
    parseLoop_iff lib env (by omega) (by omega)
  unfold parseScript
  show (match parseLoop lib env false _ _ _ with | .error fault => _ | .ok (els, rest) => _) = _ ↔ _
  constructor
  · intro h
    split at h
    · cases h
    · next read rest hread =>
      obtain ⟨rfl, rfl⟩ := Prod.mk.inj (Except.ok.inj h)
      exact ⟨read, hloop.mp hread, rfl⟩
  · rintro ⟨read, hread, rfl⟩
    rw [hloop.mpr hread]

/-- A script is reported or has its tree, unless the parser reads it to its end and
it is not well formed. -/
theorem reported_or_spelled_iff (commentNumber : Nat) (cmdBuf : List Byte) :
    (Reported (parseScript lib env commentNumber cmdBuf) ∨
      ∃ els, parseScript lib env commentNumber cmdBuf = .ok (els, []) ∧
        Spells lib env true commentNumber cmdBuf els) ↔
      ((∃ els, Spells lib env false commentNumber cmdBuf els) →
        ∃ els, Spells lib env true commentNumber cmdBuf els) := by
  constructor
  · rintro (hreported | ⟨els, -, hels⟩) ⟨els', hread⟩
    · rw [(parseScript_iff lib env).mpr hread] at hreported
      exact absurd rfl hreported
    · exact ⟨els, hels⟩
  · intro h
    cases hparse : parseScript lib env commentNumber cmdBuf with
    | error fault => exact .inl trivial
    | ok answer =>
      obtain ⟨els, rest⟩ := answer
      by_cases hrest : rest = []
      · subst hrest
        obtain ⟨els', read, hread, rfl⟩ := h ⟨els, (parseScript_iff lib env).mp hparse⟩
        have hspells : Spells lib env false commentNumber cmdBuf
            (read ++ scriptComment commentNumber cmdBuf) :=
          ⟨read, reads_of_strict lib env hread, rfl⟩
        have hsame := (parseScript_iff lib env).mpr hspells
        rw [hsame] at hparse
        obtain ⟨rfl, -⟩ := Prod.mk.inj (Except.ok.inj hparse)
        exact .inr ⟨_, rfl, read, hread, rfl⟩
      · exact .inl hrest

end Reading

/-- Floating point restricted to whole numbers. -/
def wholeNumbers : CLib Int where
  atof s := (strtol s).1
  whole s := (strtol s).2.isEmpty
  toFloat := id
  print := decimal
  number s := (strtol s).1

/-- A script for camera `C0`, of a target that is not acquired yet. -/
def cameraEnv : Env := ⟨bytes "C0", ⟨1000, false⟩⟩

/-- `for 2 { XX E 10 }` -/
def badWordInFor : List Byte := bytes "for 2 \x7b XX E 10 \x7d"

/-- The element that cannot be read ends the loop, the exposure is taken once
behind it, and nothing is reported. -/
theorem badWordInFor_silent :
    ¬(Reported (parseScript wholeNumbers cameraEnv 1 badWordInFor) ∨
      ∃ els, parseScript wholeNumbers cameraEnv 1 badWordInFor = .ok (els, []) ∧
        Spells wholeNumbers cameraEnv true 1 badWordInFor els) := by
  have hparse : parseScript wholeNumbers cameraEnv 1 badWordInFor =
      .ok ([.block (.forLoop 2) [], .command .exposure none [.float 10]], []) := by rfl
  rw [hparse]
  rintro (hreported | ⟨els, hels, read, hread, rfl⟩)
  · exact hreported rfl
  · have hread' : read = [.block (.forLoop 2) [], .command .exposure none [.float 10]] := by
      rw [Except.ok.injEq, Prod.mk.injEq] at hels
      rw [hels.1, show scriptComment 1 badWordInFor = ([] : List (Element Int)) from rfl,
        List.append_nil]
    subst hread'
    cases hread with
    | element hel =>
      obtain ⟨hhead, -⟩ := hel
      cases hhead
    | block hopens hinner _ =>
      obtain ⟨t, hhead, hopen, -⟩ := hopens
      have hfor : parseHead wholeNumbers cameraEnv (scriptText badWordInFor) =
          .ok (some (.opens (.block (.forLoop 2))), bytes "\x7b XX E 10 \x7d") :=
        rfl
      obtain ⟨-, rfl⟩ := Prod.mk.inj (Except.ok.inj (hhead.symm.trans hfor))
      obtain ⟨-, rfl⟩ := Prod.mk.inj hopen
      rcases ends_of_reads_nil _ _ hinner with ⟨hend, -⟩ | ⟨-, hword, -⟩
      · exact absurd hend (by decide)
      · have hxx : (nextElement (bytes "XX E 10 \x7d")).1 = bytes "XX" := rfl
        have hne : bytes "XX" ≠ [closeBrace] := by decide
        exact hne (hxx.symm.trans (congrArg Prod.fst hword))

end Rts2.Script.Parse

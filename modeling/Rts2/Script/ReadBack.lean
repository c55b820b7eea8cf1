import Rts2.Script.PrintScript

/-! # A printed script is read back

Words are printed with one space between them; the parser drops the byte behind a
word and skips spaces before the next, so it reads the same from texts that differ
in their leading spaces. -/
namespace Rts2.Script.Parse
open Rts2.Connection

/-! ## Words -/

/-- A word ends here. -/
def Spaced (tail : List Byte) : Prop := ∀ b ∈ tail.head?, isspace b = true

theorem spaced_nil : Spaced [] := nofun

theorem spaced_space (s : List Byte) : Spaced (space :: s) := by
  intro b hb
  cases hb
  rfl

theorem skipSpace_space (s : List Byte) : skipSpace (space :: s) = skipSpace s := rfl

theorem skipSpace_drop {tail : List Byte} (h : Spaced tail) :
    skipSpace (tail.drop 1) = skipSpace tail := by
  cases tail with
  | nil => rfl
  | cons b tail => simp [skipSpace, h b rfl]

theorem skipSpace_plain {w : List Byte} (hw : plainWord w = true) (tail : List Byte) :
    skipSpace (w ++ tail) = w ++ tail := by
  cases w with
  | nil => cases hw
  | cons b w =>
    have hb : isspace b = false := by simp [plainWord] at hw; exact hw.2.1.1
    simp [skipSpace, hb]

theorem isspace_plain {w : List Byte} (hw : plainWord w = true) : ∀ b ∈ w, isspace b = false := by
  cases w with
  | nil => cases hw
  | cons b w =>
    intro c hc
    simp only [plainWord, Bool.and_eq_true, List.all_eq_true] at hw
    simpa using (hw.2 c hc).1

theorem hash_plain {w : List Byte} (hw : plainWord w = true) : hash ∉ w := by
  cases w with
  | nil => cases hw
  | cons b w =>
    intro hmem
    simp only [plainWord, Bool.and_eq_true, List.all_eq_true] at hw
    simpa using (hw.2 hash hmem).2

theorem nextElement_congr {s t : List Byte} (h : skipSpace s = skipSpace t) :
    nextElement s = nextElement t := by
  unfold nextElement
  rw [h]

/-- A plain word is read as it is, up to the byte behind it. -/
theorem nextElement_plain {w tail : List Byte} (hw : plainWord w = true) (htail : Spaced tail) :
    nextElement (w ++ tail) = (w, tail.drop 1) := by
  have hspace : ∀ b ∈ w, (!isspace b) = true := fun b hb => by rw [isspace_plain hw b hb]; rfl
  have htake : (w ++ tail).takeWhile (fun c => !isspace c) = w := by
    rw [List.takeWhile_append_of_pos hspace]
    cases tail with
    | nil => simp
    | cons c tail => simp [htail c rfl]
  have hdrop : (w ++ tail).dropWhile (fun c => !isspace c) = tail := by
    rw [List.dropWhile_append_of_pos hspace]
    cases tail with
    | nil => rfl
    | cons c tail => simp [htail c rfl]
  unfold nextElement
  rw [skipSpace_plain hw]
  cases w with
  | nil => cases hw
  | cons b w =>
    have hb : ¬(b = quote ∨ b = apostrophe) := by
      simp only [plainWord, Bool.and_eq_true, decide_eq_true_eq] at hw
      grind
    show (if b = quote ∨ b = apostrophe then _ else _) = _
    rw [if_neg hb]
    exact congrArg₂ Prod.mk htake (congrArg (List.drop 1) hdrop)

/-- The word, and a rest to read on from. -/
theorem nextElement_word {s w tail : List Byte} (hw : plainWord w = true) (htail : Spaced tail)
    (hs : skipSpace s = skipSpace (w ++ tail)) :
    nextElement s = (w, tail.drop 1) ∧ skipSpace (tail.drop 1) = skipSpace tail :=
  ⟨(nextElement_congr hs).trans (nextElement_plain hw htail), skipSpace_drop htail⟩

theorem plainWord_decimal (n : Int) : plainWord (decimal n) = true := by
  obtain ⟨hne, -, hall⟩ := decimal_word n
  have hbyte : ∀ b ∈ decimal n, b = 45 ∨ isdigit b = true := by
    intro b hb
    unfold decimal at hb
    split at hb
    · exact (List.mem_cons.mp hb).imp_right (isdigit_decimalNat _ b)
    · exact .inr (isdigit_decimalNat _ b hb)
  have hdigit : ∀ b : Byte, b = 45 ∨ isdigit b = true →
      b ≠ quote ∧ b ≠ apostrophe ∧ isspace b = false ∧ b ≠ hash := by
    rintro b (rfl | hb)
    · decide
    · refine ⟨?_, ?_, (not_isspace_of_isdigit hb).1, ?_⟩ <;>
        · rintro rfl
          cases hb
  cases hn : decimal n with
  | nil => exact absurd hn hne
  | cons b l =>
    rw [hn] at hbyte
    simp only [plainWord, Bool.and_eq_true, List.all_eq_true]
    obtain ⟨h1, h2, -, -⟩ := hdigit b (hbyte b List.mem_cons_self)
    refine ⟨⟨by simpa using h1, by simpa using h2⟩, fun c hc => ?_⟩
    obtain ⟨-, -, h3, h4⟩ := hdigit c (hbyte c hc)
    simp [h3, h4]

/-- What the words of the commands are like. -/
theorem keyword_text (kw : Keyword) :
    plainWord kw.text = true ∧ dot ∉ kw.text ∧ keyword kw.text = some kw := by
  cases kw <;> decide

/-! ## Heads -/

section Heads
variable {R : Type} (lib : CLib R) (env : Env)

theorem parseHead_congr {s t : List Byte} (h : skipSpace s = skipSpace t) :
    parseHead lib env s = parseHead lib env t := by
  unfold parseHead
  rw [nextElement_congr h]

theorem getNextParam_print {last : Bool} {kind : Kind} {param : Param R} {s tail : List Byte}
    (hparam : param.PrintsBack lib last kind) (htail : Spaced tail)
    (hlast : last = true → skipSpace tail = [])
    (hs : skipSpace s = skipSpace (param.print lib ++ tail)) :
    ∃ t, getNextParam lib kind s = (some param, t) ∧ skipSpace t = skipSpace tail := by
  have hword : plainWord (param.print lib) = true →
      kind.read lib (param.print lib) = param →
        ∃ t, getNextParam lib kind s = (some param, t) ∧ skipSpace t = skipSpace tail := by
    intro hplain hread
    obtain ⟨hnext, hskip⟩ := nextElement_word hplain htail hs
    have hne : param.print lib ≠ [] := by
      intro hnil
      rw [hnil] at hplain
      cases hplain
    refine ⟨tail.drop 1, ?_, hskip⟩
    simp [getNextParam, hnext, hne, hread]
  cases param with
  | string val =>
    cases kind with
    | string =>
      rcases hparam with hplain | ⟨hend, rfl⟩
      · exact hword hplain rfl
      · have hnil : skipSpace s = [] := hs.trans (hlast hend)
        refine ⟨[], ?_, (hlast hend).symm⟩
        simp [getNextParam, nextElement_of_skipSpace_nil hnil, Kind.read]
    | _ => cases hparam
  | integer val =>
    cases kind with
    | integer => exact hword (plainWord_decimal val) (congrArg Param.integer hparam)
    | _ => cases hparam
  | float val =>
    cases kind with
    | float => exact hword hparam.1 (congrArg Param.float hparam.2)
    | _ => cases hparam
  | double val =>
    cases kind with
    | double => exact hword hparam.1 (congrArg Param.double hparam.2)
    | _ => cases hparam

theorem spaced_params (params : List (Param R)) {tail : List Byte} (htail : Spaced tail) :
    Spaced (printParams lib params ++ tail) := by
  cases params with
  | nil => exact htail
  | cons param params => exact spaced_space _

theorem getNextParams_print {last : Bool} {kinds : List Kind} {params : List (Param R)}
    {s tail : List Byte} (hparams : ParamsPrintBack lib last kinds params) (htail : Spaced tail)
    (hlast : last = true → skipSpace tail = [])
    (hs : skipSpace s = skipSpace (printParams lib params ++ tail)) :
    ∃ t, getNextParams lib kinds s = (some params, t) ∧ skipSpace t = skipSpace tail := by
  induction kinds generalizing params s with
  | nil =>
    cases params with
    | nil => exact ⟨s, rfl, hs⟩
    | cons => cases hparams
  | cons kind kinds ih =>
    cases params with
    | nil => cases hparams
    | cons param params =>
      obtain ⟨hparam, hmore⟩ := hparams
      have hs' : skipSpace s = skipSpace (param.print lib ++ (printParams lib params ++ tail)) := by
        rw [hs, ← List.append_assoc]
        exact skipSpace_space _
      obtain ⟨t, hone, ht⟩ := getNextParam_print lib hparam (spaced_params lib params htail)
        (fun hend => by
          obtain ⟨hend, hnil⟩ := Bool.and_eq_true_iff.mp hend
          rw [List.isEmpty_iff.mp hnil]
          exact hlast hend) hs'
      obtain ⟨u, hrest, hu⟩ := ih hmore ht
      exact ⟨u, by simp [getNextParams, hone, hrest], hu⟩

/-- A command and its parameters, read on the default device. -/
theorem parseHead_command {last : Bool} {cmd : Keyword} {params : List (Param R)}
    {s tail : List Byte} (hcmd : cmd ≠ .blockWhile)
    (hparams : ParamsPrintBack lib last cmd.params params) (htail : Spaced tail)
    (hlast : last = true → skipSpace tail = [])
    (hs : skipSpace s = skipSpace (cmd.text ++ (printParams lib params ++ tail))) :
    ∃ t, parseHead lib env s = .ok (cmd.head env env.defaultDevice none params, t) ∧
      skipSpace t = skipSpace tail := by
  obtain ⟨hplain, hdot, hkeyword⟩ := keyword_text cmd
  obtain ⟨hnext, hskip⟩ := nextElement_word hplain (spaced_params lib params htail) hs
  generalize (printParams lib params ++ tail).drop 1 = u at hnext hskip
  obtain ⟨t, ht, hrest⟩ := getNextParams_print lib hparams htail hlast hskip
  have hsplit : splitDevice env.defaultDevice cmd.text = (env.defaultDevice, cmd.text) := by
    unfold splitDevice
    rw [if_neg fun hmem => hdot ((List.takeWhile_sublist _).subset hmem)]
  refine ⟨t, ?_, hrest⟩
  simp [parseHead, hnext, hsplit, hkeyword, hcmd, ht]

theorem keyword_eq_none {w : List Byte} (h : equals ∈ w) : keyword w = none := by
  apply List.find?_eq_none.mpr
  intro kw _ hw
  have hnot : ∀ kw : Keyword, equals ∉ kw.text := fun kw => by cases kw <;> decide
  exact hnot kw (of_decide_eq_true hw ▸ h)

theorem splitDevice_change {getDouble : Operand R → R} {device valName : List Byte} {op : Byte}
    {operands : List (Operand R)}
    (h : ChangePrintsBack lib env getDouble device valName op operands) :
    splitDevice env.defaultDevice (printChange lib getDouble device valName op operands) =
      (device, valName ++ op :: printOperands lib getDouble operands) := by
  have hop := h.assigns
  subst hop
  have hvalName : ∀ b ∈ valName, decide (b ≠ equals) = true := by
    intro b hb
    have hno := h.noOp b hb
    simp only [isOp, Bool.or_eq_false_iff, decide_eq_false_iff_not] at hno
    exact decide_eq_true hno.2
  unfold splitDevice printChange
  rcases h.hasDevice with ⟨rfl, hdefault, hdot⟩ | ⟨hne, hdot, hequals, hlen⟩
  · rw [if_pos rfl, List.nil_append, List.takeWhile_append_of_pos hvalName, hdefault]
    have hnot : dot ∉ valName ++
        (equals :: printOperands lib getDouble operands).takeWhile (· ≠ equals) := by
      simpa using hdot
    rw [if_neg hnot]
  · have hdevice : ∀ b ∈ device, decide (b ≠ dot) = true ∧ decide (b ≠ equals) = true :=
      fun b hb => ⟨decide_eq_true fun h => hdot (h ▸ hb), decide_eq_true fun h => hequals (h ▸ hb)⟩
    have hword : device ++ [dot] ++ valName ++ equals :: printOperands lib getDouble operands =
        device ++ dot :: (valName ++ equals :: printOperands lib getDouble operands) := by
      simp
    rw [if_neg hne, hword, List.takeWhile_append_of_pos fun b hb => (hdevice b hb).2,
      List.takeWhile_append_of_pos fun b hb => (hdevice b hb).1,
      List.dropWhile_append_of_pos fun b hb => (hdevice b hb).1]
    have hmem : dot ∈ device ++
        (dot :: (valName ++ equals :: printOperands lib getDouble operands)).takeWhile
          (· ≠ equals) := by
      simp [dot, equals]
    rw [if_pos hmem]
    simp [List.take_of_length_le hlen]

theorem parseHead_change {getDouble : Operand R → R} {device valName : List Byte} {op : Byte}
    {operands : List (Operand R)} {s tail : List Byte}
    (h : ChangePrintsBack lib env getDouble device valName op operands) (htail : Spaced tail)
    (hs : skipSpace s = skipSpace (printChange lib getDouble device valName op operands ++ tail)) :
    ∃ t, parseHead lib env s = .ok (some (.element (.changeValue device valName op operands)), t) ∧
      skipSpace t = skipSpace tail := by
  obtain ⟨hnext, hskip⟩ := nextElement_word h.word htail hs
  have hsplit := splitDevice_change lib env h
  have hop := h.assigns
  have hreads := h.reads
  subst hop
  have hmem : equals ∈ valName ++ equals :: printOperands lib getDouble operands := by simp
  have hnoOp : ∀ b ∈ valName, (!isOp b) = true := fun b hb => by rw [h.noOp b hb]; rfl
  have htake : (valName ++ equals :: printOperands lib getDouble operands).takeWhile
      (fun b => !isOp b) = valName := by
    rw [List.takeWhile_append_of_pos hnoOp]
    simp [isOp]
  have hdrop : (valName ++ equals :: printOperands lib getDouble operands).dropWhile
      (fun b => !isOp b) = equals :: printOperands lib getDouble operands := by
    rw [List.dropWhile_append_of_pos hnoOp]
    simp [isOp]
  have hchange : parseChange lib device
      (valName ++ equals :: printOperands lib getDouble operands) =
        .ok (.changeValue device valName equals operands) := by
    unfold parseChange
    rw [hdrop, htake]
    have hoperands : changeOperands equals (printOperands lib getDouble operands) =
        printOperands lib getDouble operands := rfl
    simp only [hoperands, hreads]
  refine ⟨tail.drop 1, ?_, hskip⟩
  unfold parseHead
  rw [hnext]
  dsimp only
  rw [hsplit]
  dsimp only
  rw [keyword_eq_none hmem]
  dsimp only
  rw [if_pos hmem, hchange]

theorem parseHead_call {last : Bool} {cmd s tail : List Byte}
    (hcmd : plainWord cmd = true ∨ last = true ∧ cmd = []) (hopen : openParen ∉ cmd)
    (hclose : closeParen ∉ cmd) (htail : Spaced tail) (hlast : last = true → skipSpace tail = [])
    (hs : skipSpace s = skipSpace (Keyword.command.text ++ space :: cmd ++ tail)) :
    ∃ t, parseHead lib env s = .ok (some (.element (.call env.defaultDevice cmd [])), t) ∧
      skipSpace t = skipSpace tail := by
  have hparams : ParamsPrintBack lib last Keyword.command.params [.string cmd] := by
    refine ⟨?_, trivial⟩
    simpa [Param.PrintsBack] using hcmd
  obtain ⟨t, ht, hskip⟩ := parseHead_command lib env (by decide) hparams htail hlast
    (by simpa [printParams, Param.print] using hs)
  refine ⟨t, ht.trans ?_, hskip⟩
  simp [Keyword.head, parseCall, hopen, hclose]

/-! ## Blocks -/

theorem plainWord_brace : plainWord [openBrace] = true ∧ plainWord [closeBrace] = true := by decide

theorem openBlock_print {s inner : List Byte}
    (hs : skipSpace s = skipSpace (space :: openBrace :: space :: inner)) :
    openBlock s = (true, inner) := by
  have hnext := (nextElement_word plainWord_brace.1 (spaced_space inner) hs).1
  simp [openBlock, hnext]

/-- The parser opens the block of a command that is printed before a `{`. -/
theorem opens_command {cmd : Keyword} {params : List (Param R)} {opening : Opening R}
    {s inner : List Byte} (hcmd : cmd ≠ .blockWhile)
    (hparams : ParamsPrintBack lib false cmd.params params)
    (hhead : cmd.head env env.defaultDevice none params = some (.opens opening))
    (hs : skipSpace s =
      skipSpace (cmd.text ++ (printParams lib params ++ space :: openBrace :: space :: inner))) :
    Opens lib env false s opening inner := by
  obtain ⟨t, ht, hskip⟩ := parseHead_command lib env hcmd hparams (spaced_space _) nofun hs
  exact ⟨t, by rw [ht, hhead], openBlock_print hskip, nofun⟩

theorem opens_block {kind : Block R} {s inner : List Byte} (h : kind.PrintsBack)
    (hs : skipSpace s = skipSpace (kind.print ++ space :: openBrace :: space :: inner)) :
    Opens lib env false s (.block kind) inner := by
  cases kind with
  | signalEnd sig =>
    have hparams : ParamsPrintBack lib false Keyword.blockWaitsig.params
        [(.integer sig : Param R)] := ⟨h, trivial⟩
    exact opens_command lib env (by decide) hparams rfl (by simpa [printParams, Param.print, Block.print] using hs)
  | forLoop max =>
    have hparams : ParamsPrintBack lib false Keyword.blockFor.params
        [(.integer max : Param R)] := ⟨h, trivial⟩
    exact opens_command lib env (by decide) hparams rfl (by simpa [printParams, Param.print, Block.print] using hs)
  | once =>
    have hparams : ParamsPrintBack lib false Keyword.blockOnce.params [] := trivial
    exact opens_command lib env (by decide) hparams rfl (by simpa [printParams, Param.print, Block.print] using hs)
  | whileSod endSod =>
    have hparams : ParamsPrintBack lib false Keyword.waitSod.params
        [(.integer endSod : Param R)] := ⟨h, trivial⟩
    exact opens_command lib env (by decide) hparams rfl (by simpa [printParams, Param.print, Block.print] using hs)
  | _ => cases h

theorem opens_acquired {s inner : List Byte}
    (hs : skipSpace s =
      skipSpace (Keyword.blockAcq.text ++ space :: openBrace :: space :: inner)) :
    Opens lib env false s (.acquired env.target.obsTargetId) inner := by
  have hparams : ParamsPrintBack lib false Keyword.blockAcq.params [] := trivial
  exact opens_command lib env (by decide) hparams rfl (by simpa [printParams] using hs)

theorem isElse_print {s inner : List Byte}
    (hs : skipSpace s =
      skipSpace (space :: elseText ++ space :: space :: openBrace :: space :: inner)) :
    IsElse false s inner := by
  refine ⟨space :: openBrace :: space :: inner, ?_, openBlock_print rfl, nofun⟩
  unfold isNext
  rw [hs]
  rfl

/-- The `}` that is printed behind a block. -/
theorem reads_close {tail : List Byte} (htail : Spaced tail) :
    Reads lib env false true (space :: closeBrace :: tail) [] (tail.drop 1) := by
  have hnext := (nextElement_word plainWord_brace.2 htail
    (show skipSpace (space :: closeBrace :: tail) = skipSpace ([closeBrace] ++ tail) from rfl)).1
  have hhead : parseHead lib env (space :: closeBrace :: tail) = .ok (none, tail.drop 1) := by
    unfold parseHead
    rw [hnext]
    rfl
  exact .ends (.inl hhead)

theorem reads_congr {inBlock : Bool} {s t rest : List Byte} {els : List (Element R)}
    (h : Reads lib env false inBlock s els rest) (hst : skipSpace s = skipSpace t) :
    Reads lib env false inBlock t els rest := by
  have hhead := parseHead_congr lib env hst
  have hopens : ∀ {opening : Opening R} {u : List Byte}, Opens lib env false s opening u →
      Opens lib env false t opening u :=
    fun ⟨v, hv, hopen, _⟩ => ⟨v, hhead ▸ hv, hopen, nofun⟩
  cases h with
  | ends h =>
    rcases h with hnull | ⟨opening, u, hnull, hopen⟩
    · exact .ends (.inl (hhead ▸ hnull))
    · exact .ends (.inr ⟨opening, u, hhead ▸ hnull, hopen⟩)
  | element h hcheck hrest => exact .element ⟨hhead ▸ h.1, nofun⟩ hcheck hrest
  | block h hinner hrest => exact .block (hopens h) hinner hrest
  | acquired h hinner helse hrest => exact .acquired (hopens h) hinner helse hrest
  | acquiredElse h hinner helse hinner' hrest =>
    exact .acquiredElse (hopens h) hinner helse hinner' hrest
  | doLoop h hinner hwhile hrest => exact .doLoop (hopens h) hinner hwhile hrest
  | noElse _ h hinner helse hblock => exact .noElse rfl (hopens h) hinner helse hblock
  | noWhile _ h hinner hwhile hrest => exact .noWhile rfl (hopens h) hinner hwhile hrest

/-- What follows a word makes it no longer `else`. -/
theorem isPrefixOf_append {w tail : List Byte} (htail : Spaced tail)
    (h : elseText.isPrefixOf w = false) : elseText.isPrefixOf (w ++ tail) = false := by
  have helse : ∀ b ∈ elseText, isspace b = false := forall_of_all (by decide)
  rw [Bool.eq_false_iff] at h ⊢
  intro hprefix
  apply h
  rw [List.isPrefixOf_iff_prefix] at hprefix ⊢
  rcases List.prefix_or_prefix_of_prefix hprefix (List.prefix_append w tail) with hw | ⟨more, hmore⟩
  · exact hw
  · -- the word ends inside `else`, and a space follows it
    cases more with
    | nil =>
      rw [List.append_nil] at hmore
      exact ⟨[], (List.append_nil _).trans hmore.symm⟩
    | cons b more =>
      rw [← hmore, List.prefix_append_right_inj] at hprefix
      obtain ⟨rest, rfl⟩ := hprefix
      have hspace := htail b rfl
      rw [helse b (by rw [← hmore]; simp)] at hspace
      cases hspace

/-! ## Trees -/

variable (getDouble : Operand R → R)

theorem printCommand_eq {cmd : Keyword} {params : List (Param R)} (hcenter : cmd ≠ .center)
    (hbox : cmd = .box → params.take 1 = (params.drop 1).take 1) :
    printCommand lib cmd params = cmd.text ++ printParams lib params := by
  unfold printCommand
  split
  · rw [← hbox rfl, List.take_append_drop]
  · exact absurd rfl hcenter
  · rfl

theorem spaced_elements (els : List (Element R)) {tail : List Byte} (htail : Spaced tail) :
    Spaced (printElements lib getDouble false els ++ tail) := by
  cases els with
  | nil => exact htail
  | cons el els => exact spaced_space _

theorem skipSpace_elements (els : List (Element R)) (first : Bool) (tail : List Byte) :
    skipSpace (printElements lib getDouble first els ++ tail) =
      skipSpace (printElements lib getDouble true els ++ tail) := by
  cases els with
  | nil => rfl
  | cons el els => cases first <;> rfl

/-- An element that is one head. -/
theorem reads_head {el : Element R} {inBlock : Bool} {s tail rest : List Byte} {els : List (Element R)}
    (hkeep : Checked lib false inBlock el)
    (h : ∃ t, parseHead lib env s = .ok (some (.element el), t) ∧ skipSpace t = skipSpace tail)
    (hrest : Reads lib env false inBlock tail els rest) :
    Reads lib env false inBlock s (el :: els) rest := by
  obtain ⟨t, ht, hskip⟩ := h
  exact .element ⟨ht, nofun⟩ hkeep (reads_congr lib env hrest hskip.symm)

theorem parseHead_printCommand {cmd : Keyword} {device : Option (List Byte)} {params : List (Param R)}
    {last : Bool} {tail : List Byte}
    (hel : (Element.command cmd device params).PrintsBack lib env getDouble last) (htail : Spaced tail)
    (hlast : last = true → skipSpace tail = []) :
    ∃ t, parseHead lib env ((Element.command cmd device params).printScript lib getDouble ++ tail) =
      .ok (some (.element (.command cmd device params)), t) ∧ skipSpace t = skipSpace tail := by
  obtain ⟨hcommand, hcenter, hbox, hparams⟩ := hel
  have hcmd : cmd ≠ .blockWhile := by
    rintro rfl
    simp only [Keyword.head, oneInteger] at hcommand
    split at hcommand <;> cases hcommand
  have htext : (Element.command cmd device params).printScript lib getDouble ++ tail =
      cmd.text ++ (printParams lib params ++ tail) := by
    rw [← List.append_assoc, ← printCommand_eq lib hcenter hbox]
    rfl
  rw [htext, ← hcommand]
  exact parseHead_command lib env hcmd hparams htail hlast rfl

theorem parseHead_printCall {device cmd : List Byte} {args : List (List Byte)} {last : Bool}
    {tail : List Byte} (hel : (Element.call device cmd args).PrintsBack lib env getDouble last)
    (htail : Spaced tail) (hlast : last = true → skipSpace tail = []) :
    ∃ t, parseHead lib env ((Element.call device cmd args).printScript lib getDouble ++ tail) =
      .ok (some (.element (.call device cmd args)), t) ∧ skipSpace t = skipSpace tail := by
  obtain ⟨rfl, rfl, hopen, hclose, hcmd⟩ := hel
  have htext : (Element.call env.defaultDevice cmd []).printScript lib getDouble ++ tail =
      Keyword.command.text ++ space :: cmd ++ tail :=
    congrArg (· ++ tail) (List.append_nil _)
  rw [htext]
  exact parseHead_call lib env hcmd hopen hclose htail hlast rfl

theorem printScript_block (kind : Block R) (inner : List (Element R)) (tail : List Byte) :
    (Element.block kind inner).printScript lib getDouble ++ tail =
      kind.print ++ space :: openBrace :: space ::
        (printElements lib getDouble true inner ++ space :: closeBrace :: tail) := by
  simp [Element.printScript]

/-- Behind the block, `else` and its block may stand. -/
theorem print_acquired (inner : List (Element R)) (more tail : List Byte) :
    Keyword.blockAcq.text ++ space :: openBrace :: space ::
        (printElements lib getDouble true inner ++ [space, closeBrace]) ++ more ++ tail =
      Keyword.blockAcq.text ++ space :: openBrace :: space ::
        (printElements lib getDouble true inner ++ space :: closeBrace :: (more ++ tail)) := by
  simp

theorem isElse_printElements (elseEls : List (Element R)) (tail : List Byte) :
    IsElse false (elseText ++ space :: space :: openBrace :: space ::
        (printElements lib getDouble true elseEls ++ [space, closeBrace]) ++ tail)
      (printElements lib getDouble true elseEls ++ space :: closeBrace :: tail) := by
  refine isElse_print ?_
  rw [List.append_assoc]
  simp only [List.cons_append, List.append_assoc]
  rfl

mutual

/-- What an element prints is read back, before the elements that follow. -/
theorem reads_printElement (el : Element R) {last inBlock : Bool} {tail rest : List Byte}
    {els : List (Element R)} (hel : el.PrintsBack lib env getDouble last) (htail : Spaced tail)
    (hlast : last = true → skipSpace tail = [])
    (hcheck : inBlock = false → el.checkParameters lib = none)
    (helse : el.noElse = true → elseText.isPrefixOf (skipSpace tail) = false)
    (hrest : Reads lib env false inBlock tail els rest) :
    Reads lib env false inBlock (el.printScript lib getDouble ++ tail) (el :: els) rest := by
  have hkeep : Checked lib false inBlock el := fun h => hcheck (h.resolve_left nofun)
  match el with
  | .command cmd device params =>
    exact reads_head lib env hkeep (parseHead_printCommand lib env getDouble hel htail hlast) hrest
  | .waitAcquire tarId =>
    obtain rfl : tarId = env.target.obsTargetId := hel
    have hparams : ParamsPrintBack lib false Keyword.waitAcquire.params [] := trivial
    exact reads_head lib env hkeep (parseHead_command lib env (by decide) hparams htail nofun rfl) hrest
  | .call device cmd args =>
    exact reads_head lib env hkeep (parseHead_printCall lib env getDouble hel htail hlast) hrest
  | .changeValue device valName op operands =>
    exact reads_head lib env hkeep (parseHead_change lib env hel htail rfl) hrest
  | .block kind inner =>
    obtain ⟨hkind, hinner⟩ := hel
    have hreads : Reads lib env false true
        (printElements lib getDouble true inner ++ space :: closeBrace :: tail) inner
        (tail.drop 1) :=
      reads_printElements inner hinner (spaced_space _) nofun (fun h => Bool.noConfusion h) rfl
        (reads_close lib env htail)
    rw [printScript_block]
    exact .block (opens_block lib env hkind rfl) hreads
      (reads_congr lib env hrest (skipSpace_drop htail).symm)
  | .acquired tarId inner elseEls =>
    obtain ⟨rfl, hinner, hinner'⟩ := hel
    have hreads : ∀ {tail : List Byte}, Spaced tail → Reads lib env false true
        (printElements lib getDouble true inner ++ space :: closeBrace :: tail) inner
        (tail.drop 1) := fun htail =>
      reads_printElements inner hinner (spaced_space _) nofun (fun h => Bool.noConfusion h) rfl
        (reads_close lib env htail)
    unfold Element.printScript
    rw [print_acquired]
    split
    · next hnil =>
      obtain rfl := List.isEmpty_iff.mp hnil
      have hnext : isNext elseText (tail.drop 1) = (false, skipSpace tail) := by
        unfold isNext
        rw [skipSpace_drop htail, helse rfl]
        rfl
      exact .acquired (opens_acquired lib env rfl) (hreads htail) hnext
        (reads_congr lib env hrest (skipSpace_skipSpace tail).symm)
    · have hreads' : Reads lib env false true
          (printElements lib getDouble true elseEls ++ space :: closeBrace :: tail) elseEls
          (tail.drop 1) :=
        reads_printElements elseEls hinner' (spaced_space _) nofun (fun h => Bool.noConfusion h)
          rfl (reads_close lib env htail)
      exact .acquiredElse (opens_acquired lib env rfl) (hreads (spaced_space _))
        (isElse_printElements lib getDouble elseEls tail) hreads'
        (reads_congr lib env hrest (skipSpace_drop htail).symm)

/-- What elements print is read back up to the end that follows them. -/
theorem reads_printElements (els : List (Element R)) {last first inBlock : Bool}
    {tail rest : List Byte} (hels : ElementsPrintBack lib env getDouble last els)
    (htail : Spaced tail) (hlast : last = true → skipSpace tail = [])
    (hcheck : inBlock = false → ∀ el ∈ els, el.checkParameters lib = none)
    (helse : elseText.isPrefixOf (skipSpace tail) = false)
    (hend : Reads lib env false inBlock tail [] rest) :
    Reads lib env false inBlock (printElements lib getDouble first els ++ tail) els rest := by
  match els with
  | [] => exact hend
  | el :: els =>
    obtain ⟨hel, hnoElse, hmore⟩ := hels
    have hrest : Reads lib env false inBlock (printElements lib getDouble false els ++ tail) els
        rest :=
      reads_printElements els hmore htail hlast
        (fun h el hel => hcheck h el (List.mem_cons_of_mem _ hel)) helse hend
    have hone : Reads lib env false inBlock
        (el.printScript lib getDouble ++ (printElements lib getDouble false els ++ tail))
        (el :: els) rest := by
      apply reads_printElement el hel (spaced_elements lib getDouble els htail) _
        (fun h => hcheck h el List.mem_cons_self) _ hrest
      · intro h
        obtain ⟨h, hnil⟩ := Bool.and_eq_true_iff.mp h
        rw [List.isEmpty_iff.mp hnil]
        exact hlast h
      · intro h
        rw [skipSpace_elements, skipSpace_append]
        split
        · exact helse
        · exact isPrefixOf_append htail (hnoElse h)
    apply reads_congr lib env hone
    rw [skipSpace_elements]
    simp [printElements]

end

/-! ## Scripts -/

theorem hash_params {last : Bool} {kinds : List Kind} {params : List (Param R)}
    (h : ParamsPrintBack lib last kinds params) : hash ∉ printParams lib params := by
  have hparam : ∀ {last kind} {param : Param R}, param.PrintsBack lib last kind →
      hash ∉ param.print lib := by
    intro last kind param hparam
    cases param with
    | string val =>
      cases kind with
      | string =>
        rcases hparam with hplain | ⟨-, rfl⟩
        · exact hash_plain hplain
        · nofun
      | _ => cases hparam
    | integer val => exact hash_plain (plainWord_decimal val)
    | float val =>
      cases kind with
      | float => exact hash_plain hparam.1
      | _ => cases hparam
    | double val =>
      cases kind with
      | double => exact hash_plain hparam.1
      | _ => cases hparam
  induction kinds generalizing params with
  | nil =>
    cases params with
    | nil => nofun
    | cons => cases h
  | cons kind kinds ih =>
    cases params with
    | nil => cases h
    | cons param params =>
      have hspace : hash ≠ space := by decide
      simpa [printParams, hspace, hparam h.1] using ih h.2

mutual

theorem hash_printElement (el : Element R) {last : Bool}
    (hel : el.PrintsBack lib env getDouble last) : hash ∉ el.printScript lib getDouble := by
  have hspace : hash ≠ space ∧ hash ≠ openBrace ∧ hash ≠ closeBrace := by decide
  match el with
  | .command cmd device params =>
    obtain ⟨-, hcenter, hbox, hparams⟩ := hel
    have htext : (Element.command cmd device params).printScript lib getDouble =
        cmd.text ++ printParams lib params := printCommand_eq lib hcenter hbox
    rw [htext]
    simp [hash_plain (keyword_text cmd).1, hash_params lib hparams]
  | .waitAcquire tarId => exact hash_plain (keyword_text .waitAcquire).1
  | .call device cmd args =>
    obtain ⟨rfl, rfl, -, -, hcmd⟩ := hel
    have hnot : hash ∉ cmd := by
      rcases hcmd with hplain | ⟨-, rfl⟩
      · exact hash_plain hplain
      · nofun
    simp [Element.printScript, hash_plain (keyword_text .command).1, hspace, hnot]
  | .changeValue device valName op operands =>
    have hword := ChangePrintsBack.word hel
    exact hash_plain hword
  | .block kind inner =>
    obtain ⟨hkind, hinner⟩ := hel
    have hnot : hash ∉ printElements lib getDouble true inner := hash_printElements inner hinner
    have hprint : hash ∉ kind.print := by
      cases kind with
      | signalEnd sig =>
        simp [Block.print, hash_plain (keyword_text _).1, hspace, hash_plain (plainWord_decimal sig)]
      | forLoop max =>
        simp [Block.print, hash_plain (keyword_text _).1, hspace, hash_plain (plainWord_decimal max)]
      | once => exact hash_plain (keyword_text .blockOnce).1
      | whileSod endSod =>
        simp [Block.print, hash_plain (keyword_text _).1, hspace,
          hash_plain (plainWord_decimal endSod)]
      | _ => cases hkind
    simp [Element.printScript, hprint, hspace, hnot]
  | .acquired tarId inner elseEls =>
    obtain ⟨-, hinner, hinner'⟩ := hel
    have hnot : hash ∉ printElements lib getDouble true inner := hash_printElements inner hinner
    have hnot' : hash ∉ printElements lib getDouble true elseEls :=
      hash_printElements elseEls hinner'
    have helse : hash ∉ elseText := by decide
    unfold Element.printScript
    split <;> simp [hash_plain (keyword_text .blockAcq).1, hspace, hnot, hnot', helse]

theorem hash_printElements (els : List (Element R)) {last first : Bool}
    (hels : ElementsPrintBack lib env getDouble last els) :
    hash ∉ printElements lib getDouble first els := by
  match els with
  | [] => nofun
  | el :: els =>
    have hone := hash_printElement el hels.1
    have hmore : hash ∉ printElements lib getDouble false els := hash_printElements els hels.2.2
    have hspace : hash ≠ space := by decide
    cases first <;> simp [printElements, hone, hmore, hspace]

end

theorem printElements_concat (els : List (Element R)) (el : Element R) (first : Bool) :
    printElements lib getDouble first (els ++ [el]) =
      printElements lib getDouble first els ++
        ((if first && els.isEmpty then [] else [space]) ++ el.printScript lib getDouble) := by
  induction els generalizing first with
  | nil => cases first <;> simp [printElements]
  | cons e els ih => simp [printElements, ih]

theorem reads_end (inBlock : Bool) {tail : List Byte} (htail : skipSpace tail = []) :
    Reads lib env false inBlock tail [] [] := by
  have hhead : parseHead lib env tail = .ok (none, []) := by
    unfold parseHead
    rw [nextElement_of_skipSpace_nil htail]
    rfl
  exact .ends (.inl hhead)

/-- A script is read back, with its comment, once each of its elements is. -/
theorem parseScript_printScript {commentNumber : Nat} {els : List (Element R)}
    (h : ScriptPrintsBack lib env getDouble commentNumber els) :
    parseScript lib env commentNumber (printScript lib getDouble els) = .ok (els, []) := by
  obtain ⟨elements, helements, hcheck, hcomment⟩ := h
  have hnot : hash ∉ printElements lib getDouble true elements :=
    hash_printElements lib env getDouble elements helements
  have hnotHash : ∀ b ∈ printElements lib getDouble true elements, decide (b ≠ hash) = true :=
    fun b hb => decide_eq_true fun heq => hnot (heq ▸ hb)
  have hreads : ∀ {tail}, Spaced tail → skipSpace tail = [] →
      Reads lib env false false (printElements lib getDouble true elements ++ tail) elements [] :=
    fun htail hblank => reads_printElements lib env getDouble elements helements htail
      (fun _ => hblank) (fun _ => hcheck) (by rw [hblank]; rfl) (reads_end lib env false hblank)
  rw [parseScript_iff]
  rcases hcomment with rfl | ⟨text, htext, rfl⟩
  · have hscript : scriptText (printScript lib getDouble els) =
        printElements lib getDouble true els ++ [] := by
      rw [List.append_nil]
      exact List.takeWhile_eq_self_iff.mpr hnotHash
    refine ⟨els, ?_, ?_⟩
    · rw [hscript]
      exact hreads spaced_nil rfl
    · unfold scriptComment printScript
      rw [if_neg hnot, List.append_nil]
  · obtain ⟨tail, hspaced, hblank, hnotTail, hprint⟩ : ∃ tail, Spaced tail ∧ skipSpace tail = [] ∧
        (∀ b ∈ tail, decide (b ≠ hash) = true) ∧
        printScript lib getDouble (elements ++ [.comment commentNumber text]) =
          printElements lib getDouble true elements ++ (tail ++ hash :: space :: text) := by
      refine ⟨if true && elements.isEmpty then [] else [space], ?_, ?_, ?_,
        printElements_concat lib getDouble elements _ true⟩
      · split
        · exact spaced_nil
        · exact spaced_space []
      · split <;> rfl
      · split <;> exact List.all_eq_true.mp (by decide)
    have hdrop : (printScript lib getDouble (elements ++ [.comment commentNumber text])).dropWhile
        (· ≠ hash) = hash :: space :: text := by
      rw [hprint, List.dropWhile_append_of_pos hnotHash, List.dropWhile_append_of_pos hnotTail]
      simp
    have htake : scriptText (printScript lib getDouble (elements ++ [.comment commentNumber text])) =
        printElements lib getDouble true elements ++ tail := by
      unfold scriptText
      rw [hprint, List.takeWhile_append_of_pos hnotHash, List.takeWhile_append_of_pos hnotTail]
      simp
    refine ⟨elements, ?_, ?_⟩
    · rw [htake]
      exact hreads hspaced hblank
    · unfold scriptComment
      rw [if_pos (by rw [hprint]; simp), hdrop]
      simp [skipSpace_space, htext]

end Heads
/-- The operands of a script that reads no values. -/
def noValues : Operand Int → Int := fun _ => 0

theorem parseScript_printScript_for :
    let els : List (Element Int) :=
      [.block (.forLoop 2) [.command .exposure none [.float 10]], .comment 1 (bytes "flats")]
    parseScript wholeNumbers cameraEnv 1 (printScript wholeNumbers noValues els) = .ok (els, []) := by
  have hexpose : ElementsPrintBack wholeNumbers cameraEnv noValues true
      [.block (.forLoop 2) [.command .exposure none [.float 10]]] :=
    ⟨⟨rfl, ⟨rfl, nofun, nofun, ⟨by decide, rfl⟩, trivial⟩, nofun, trivial⟩, nofun, trivial⟩
  have hcheck : ∀ el ∈ [Element.block (.forLoop 2) [.command .exposure none [.float 10]]],
      el.checkParameters wholeNumbers = none := by
    intro el hel
    rw [List.mem_singleton.mp hel]
    rfl
  exact parseScript_printScript wholeNumbers cameraEnv noValues
    ⟨_, hexpose, hcheck, .inr ⟨_, rfl, rfl⟩⟩

/-- `BOX 1 2 3 4` is printed as `BOX 2 2 3 4`. -/
theorem box_not_read_back :
    ∃ els, parseScript wholeNumbers cameraEnv 1 (bytes "BOX 1 2 3 4") = .ok (els, []) ∧
      parseScript wholeNumbers cameraEnv 1 (printScript wholeNumbers noValues els) ≠
        .ok (els, []) := by
  refine ⟨[.command .box none [.integer 1, .integer 2, .integer 3, .integer 4]], rfl, fun h => ?_⟩
  have hread : parseScript wholeNumbers cameraEnv 1 (bytes "BOX 2 2 3 4") =
      .ok ([.command .box none [.integer 2, .integer 2, .integer 3, .integer 4]], []) := rfl
  have hprint : printScript wholeNumbers noValues
      [.command .box none [.integer 1, .integer 2, .integer 3, .integer 4]] =
        bytes "BOX 2 2 3 4" := by decide
  rw [hprint, hread] at h
  cases h

end Rts2.Script.Parse

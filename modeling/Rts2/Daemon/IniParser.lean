import Mathlib.Data.List.TakeWhile
import Rts2.Lib.Strtod

/-! # Configuration files

`IniParser::parseConfigFile` goes over a line with one iterator, through the states of a name,
a suffix, a value and what follows it. A character stands for a byte. -/
namespace Rts2.Ini
open Rts2.Lib.Strtod (isspace)

structure IniValue where
  valueName : List Char
  valueSuffix : List Char
  value : List Char
  comment : List Char
  deriving DecidableEq

structure IniSection where
  sectName : List Char
  values : List IniValue
  deriving DecidableEq

/-- What `parseConfigFile` reports. -/
inductive ParseError where
  | sectionDelimiter
  | withoutSection
  | missingQuote
  | invalidLine
  deriving DecidableEq

/-- What a line adds. -/
inductive Line where
  | ignored
  | sect (name : List Char)
  | value (v : IniValue)
  deriving DecidableEq

/-! ## The scanner -/

/-- `NAME` and, after a dot, `SUFF`: the name and the suffix, and the text from where they end. -/
def nameState (suff : Bool) (valName seg : List Char) :
    List Char → Option (List Char × List Char × List Char)
  | [] => none
  | c :: es =>
    if c = '.' then nameState true (valName ++ (if suff then ['.'] else []) ++ seg) [] es
    else if c = '=' ∨ isspace c then
      some (if suff then valName else seg, if suff then seg else [], c :: es)
    else nameState suff valName (seg ++ [c]) es

/-- `VAL_END`: the comment. -/
def endState (text : List Char) : List Char :=
  match text.dropWhile fun c => c ≠ ';' && c ≠ '#' with
  | [] => []
  | _ :: es => es.dropWhile isspace

/-- `VAL` and `VAL_QUT`: the value and the comment. -/
def valState (parseFullLine : Bool) : List Char → Except ParseError (List Char × List Char)
  | [] => .ok ([], [])
  | c :: es =>
    if c = '"' then
      if '"' ∈ es then
        .ok (es.takeWhile (· ≠ '"'), endState ((es.dropWhile (· ≠ '"')).drop 1))
      else .error .missingQuote
    else
      match es.dropWhile (!isspace ·) with
      | [] => .ok (c :: es, [])
      | _ :: rest =>
        -- behind the last character is a NUL, so that no blank is taken off
        if parseFullLine then .ok (c :: es, [])
        else .ok (c :: es.takeWhile (!isspace ·), endState rest)

/-- A text up to the first NUL. -/
def cstr (s : List Char) : List Char := s.takeWhile (· ≠ '\x00')

/-- A line for a value. -/
def parseValue (parseFullLine : Bool) (top : List Char) : Option (Except ParseError Line) :=
  match nameState false [] [] top with
  | none => some (.error .invalidLine)
  | some (valName, valSuffix, es) =>
    match es.dropWhile (· ≠ '=') with
    | [] => none
    | _ :: es =>
      some ((valState parseFullLine (es.dropWhile isspace)).map fun r =>
        .value ⟨valName, valSuffix, r.1, r.2⟩)

/-- A turn of the loop of `parseConfigFile`; none if the iterator moves past the end. -/
def parseLine (parseFullLine : Bool) (line : List Char) : Option (Except ParseError Line) :=
  match line.dropWhile isspace with
  | [] => some (.ok .ignored)
  | c :: es =>
    if c = ';' ∨ c = '#' then some (.ok .ignored)
    else if c = '[' then
      if ']' ∈ line then
        let top := line.length - (c :: es).length
        some (.ok (.sect (cstr ((line.drop (top + 1)).take (line.idxOf ']' - 1)))))
      else some (.error .sectionDelimiter)
    else parseValue parseFullLine (c :: es)

/-- The line is for a value. -/
def isValueLine (line : List Char) : Bool :=
  match line.dropWhile isspace with
  | [] => false
  | c :: _ => c ≠ ';' && c ≠ '#' && c ≠ '['

/-- The loop of `parseConfigFile`, with the section that is not pushed back yet. -/
def parseLines (addDefaultSection parseFullLine : Bool) :
    Option IniSection → List (List Char) → Option (Except ParseError (List IniSection))
  | sect, [] => some (.ok sect.toList)
  | sect, line :: lines =>
    if isValueLine line ∧ sect = none ∧ addDefaultSection = false then
      some (.error .withoutSection)
    else
      match parseLine parseFullLine line with
      | none => none
      | some (.error e) => some (.error e)
      | some (.ok .ignored) => parseLines addDefaultSection parseFullLine sect lines
      | some (.ok (.sect name)) =>
        (parseLines addDefaultSection parseFullLine (some ⟨name, []⟩) lines).map
          fun r => r.map (sect.toList ++ ·)
      | some (.ok (.value v)) =>
        let s := sect.getD ⟨[], []⟩
        parseLines addDefaultSection parseFullLine (some { s with values := s.values ++ [v] }) lines

/-- The lines that `getline` gets. -/
def fileLines : List Char → List (List Char)
  | [] => []
  | c :: s =>
    if c = '\n' then [] :: fileLines s
    else match fileLines s with
      | [] => [[c]]
      | line :: lines => (c :: line) :: lines

/-- `IniParser::parseConfigFile` -/
def parseConfigFile (addDefaultSection parseFullLine : Bool) (file : List Char) :
    Option (Except ParseError (List IniSection)) :=
  parseLines addDefaultSection parseFullLine none (fileLines file)

/-- `operator <<` with the value between quotes. -/
def printed (v : IniValue) : List Char :=
  v.valueName ++ ((if v.valueSuffix = [] then [] else '.' :: v.valueSuffix) ++
    ([' ', '=', ' ', '"'] ++ (v.value ++ ['"'])))

end Rts2.Ini

import PageCalc.Text.CaseTable

/-!
# Upper and lower case

The full case mappings of Unicode on texts. A character may have a form of several characters,
and a capital sigma becomes a final one at the end of a word.
-/

namespace PageCalc.Text

/-- What the first run that holds a code point maps it to; the point itself when none does. -/
def mapPoint (runs : List CaseRun) (point : Nat) : Nat :=
  (runs.findSome? (·.map? point)).getD point

def upperForm (c : Char) : List Char :=
  if c.toNat < 0x80 then [c.toUpper]
  else match upperExpansions.lookup c.toNat with
    | some points => points.map Char.ofNat
    | none => [Char.ofNat (mapPoint upperRuns c.toNat)]

/-- The lower form of a character that does not depend on its neighbours. -/
def lowerForm (c : Char) : List Char :=
  if c.toNat < 0x80 then [c.toLower]
  else if c = 'İ' then ['i', '\u0307']
  else [Char.ofNat (mapPoint lowerRuns c.toNat)]

/-- Whether a search for a neighbouring letter skips the character. -/
def isCaseIgnorable (c : Char) : Bool :=
  caseIgnorableBlocks.any (·.contains c.toNat)

/-- Whether the character, one that is not skipped, is a letter with case. -/
def isCased (c : Char) : Bool :=
  casedBlocks.any (·.contains c.toNat)

/-- Whether the first character that is not skipped is a letter with case. -/
def meetsCased (cs : List Char) : Bool :=
  match cs.dropWhile isCaseIgnorable with
  | [] => false
  | c :: _ => isCased c

/-- The lower form of `cs`, which follows the reversed text `before`. A sigma is final when a
letter precedes it and none follows. -/
def lowerAfter (before : List Char) : (cs : List Char) → List Char
  | [] => []
  | c :: cs =>
    let form :=
      if c = 'Σ' then (if meetsCased before && !meetsCased cs then ['ς'] else ['σ'])
      else lowerForm c
    form ++ lowerAfter (c :: before) cs

def upper (text : String) : String :=
  String.ofList (text.toList.flatMap upperForm)

def lower (text : String) : String :=
  String.ofList (lowerAfter [] text.toList)

def upperAscii (text : String) : String :=
  String.ofList (text.toList.map Char.toUpper)

end PageCalc.Text

import BlockScript.Text.CaseTable

/-!
# Lower case

Each character becomes its lower-case form. Two characters need more: `İ` becomes two characters,
and a capital sigma becomes the final sigma at the end of a word, that is after a cased letter and
not before one, skipping marks and the like on both sides.
-/

namespace BlockScript.Text

def lowerChar (c : Char) : Char :=
  if c.toNat < 0x80 then c.toLower
  else
    match caseRuns.find? (·.contains c.toNat) with
    | some run => Char.ofNat (c.toNat + run.offset).toNat
    | none => c

/-- The nearest character that is not skipped has case. -/
def nextIsCased (text : List Char) : Bool :=
  match text.dropWhile (fun c => inRanges skippedRanges c.toNat) with
  | c :: _ => inRanges casedRanges c.toNat
  | [] => false

/-- The lower-case form of `c`, which stands after `before`, read backwards, and before `after`. -/
def lowerAt (before : List Char) (c : Char) (after : List Char) : List Char :=
  if c = 'Σ' then
    if nextIsCased before && !nextIsCased after then ['ς'] else ['σ']
  else if c = 'İ' then ['i', '\u0307']
  else [lowerChar c]

def lowerFrom (before : List Char) : List Char → List Char
  | [] => []
  | c :: after => lowerAt before c after ++ lowerFrom (c :: before) after

def lowercase (text : String) : String :=
  .ofList (lowerFrom [] text.toList)

end BlockScript.Text

/-!
# Blanks and breaks

Which characters count as blank, and the operations on texts that cut at them: dropping the
blanks at both ends, cutting a text at separators, and listing its words.
-/

namespace PageCalc.Text

/-- The characters with the Unicode property White_Space. -/
def isBlank (c : Char) : Bool :=
  let point := c.toNat
  (0x09 ≤ point && point ≤ 0x0D) || point == 0x20 || point == 0x85 || point == 0xA0 ||
    point == 0x1680 || (0x2000 ≤ point && point ≤ 0x200A) || point == 0x2028 ||
    point == 0x2029 || point == 0x202F || point == 0x205F || point == 0x3000

def trim (cs : List Char) : List Char :=
  ((cs.dropWhile isBlank).reverse.dropWhile isBlank).reverse

/-- The pieces between separators: the first one, and the ones after it. -/
def cut (isSeparator : Char → Bool) (cs : List Char) : List Char × List (List Char) :=
  cs.foldr
    (fun c pieces =>
      if isSeparator c then ([], pieces.1 :: pieces.2) else (c :: pieces.1, pieces.2))
    ([], [])

/-- All the pieces between separators; there is one more of them than there are separators. -/
def pieces (isSeparator : Char → Bool) (cs : List Char) : List (List Char) :=
  (cut isSeparator cs).1 :: (cut isSeparator cs).2

/-- The maximal runs of characters that are not blank, in order. -/
def words (cs : List Char) : List (List Char) :=
  (pieces isBlank cs).filter fun piece => !piece.isEmpty

/-- The text before the first occurrence of a character and the text after it. -/
def cutAt? (mark : Char) : List Char → Option (List Char × List Char)
  | [] => none
  | c :: rest =>
    if c = mark then some ([], rest)
    else (cutAt? mark rest).map fun (before, after) => (c :: before, after)

/-- What follows `start` in a text that begins with it. -/
def afterStart? : (start : List Char) → List Char → Option (List Char)
  | [], cs => some cs
  | _ :: _, [] => none
  | s :: start, c :: cs => if s = c then afterStart? start cs else none

/-! ## Pieces and their separators -/

theorem cut_cons (isSeparator : Char → Bool) (c : Char) (cs : List Char) :
    cut isSeparator (c :: cs) =
      if isSeparator c then ([], (cut isSeparator cs).1 :: (cut isSeparator cs).2)
      else (c :: (cut isSeparator cs).1, (cut isSeparator cs).2) := rfl

theorem afterStart?_append (start cs : List Char) :
    afterStart? start (start ++ cs) = some cs := by
  induction start with
  | nil => rfl
  | cons s start ih => simp [afterStart?, ih]

end PageCalc.Text

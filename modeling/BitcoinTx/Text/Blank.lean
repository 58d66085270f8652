/-! Words: the runs of characters between blanks, where a blank is any character that Unicode counts
as white space. -/

namespace BitcoinTx.Text

def isBlank (c : Char) : Bool :=
  let n := c.toNat
  (9 ≤ n && n ≤ 13) || n = 0x20 || n = 0x85 || n = 0xa0 || n = 0x1680 || (0x2000 ≤ n && n ≤ 0x200a)
    || n = 0x2028 || n = 0x2029 || n = 0x202f || n = 0x205f || n = 0x3000

/-- The words of the text; `word` holds, in reverse, the word being read. -/
def splitBlanks (word : List Char) : List Char → List (List Char)
  | [] => if word.isEmpty then [] else [word.reverse]
  | c :: cs =>
    if isBlank c then
      if word.isEmpty then splitBlanks [] cs else word.reverse :: splitBlanks [] cs
    else splitBlanks (c :: word) cs

def words (s : String) : List String := (splitBlanks [] s.toList).map String.ofList

end BitcoinTx.Text

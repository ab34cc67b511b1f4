/-! White space of every script, and trimming. -/
namespace LineScript.Text

def isSpace (c : Char) : Bool :=
  let code := c.toNat
  (9 ≤ code && code ≤ 13) || (28 ≤ code && code ≤ 32) || code == 0x85 || code == 0xa0 ||
  code == 0x1680 || (0x2000 ≤ code && code ≤ 0x200a) || code == 0x2028 || code == 0x2029 ||
  code == 0x202f || code == 0x205f || code == 0x3000

def trimStart (cs : List Char) : List Char := cs.dropWhile isSpace

def trimEnd (cs : List Char) : List Char := (cs.reverse.dropWhile isSpace).reverse

def trailingSpace (cs : List Char) : List Char := (cs.reverse.takeWhile isSpace).reverse

def trim (cs : List Char) : List Char := trimEnd (trimStart cs)

theorem trimEnd_append_trailingSpace (cs : List Char) : trimEnd cs ++ trailingSpace cs = cs := by
  rw [trimEnd, trailingSpace, ← List.reverse_append, List.takeWhile_append_dropWhile,
    List.reverse_reverse]

end LineScript.Text

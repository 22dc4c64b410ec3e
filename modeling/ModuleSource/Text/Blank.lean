/-! Blank characters, and the words they separate. -/

namespace ModuleSource.Text

/-- The characters with the Unicode property White_Space. The byte order mark is not one of them. -/
def isBlank (c : Char) : Bool :=
  let n := c.toNat
  (0x09 ≤ n && n ≤ 0x0D) || n == 0x20 || n == 0x85 || n == 0xA0 || n == 0x1680 ||
    (0x2000 ≤ n && n ≤ 0x200A) || n == 0x2028 || n == 0x2029 || n == 0x202F || n == 0x205F ||
    n == 0x3000

def isSolid (c : Char) : Bool := !isBlank c

/-- The first word of a text and what follows it; `none` if the text is blank. -/
def firstWord? (cs : List Char) : Option (List Char × List Char) :=
  match cs.dropWhile isBlank with
  | [] => none
  | c :: rest => some (c :: rest.takeWhile isSolid, rest.dropWhile isSolid)

/-- Taking a word makes a text shorter. -/
theorem length_lt_of_firstWord? {cs word rest : List Char}
    (h : firstWord? cs = some (word, rest)) : rest.length < cs.length := by
  unfold firstWord? at h
  split at h
  · simp at h
  · next c tail heq =>
    have hdrop := (List.dropWhile_suffix (l := cs) isBlank).length_le
    have htail := (List.dropWhile_suffix (l := tail) isSolid).length_le
    simp only [Option.some.injEq, Prod.mk.injEq] at h
    rw [heq, List.length_cons] at hdrop
    rw [← h.2]
    omega

/-- The words of a text, in order. -/
def words (cs : List Char) : List (List Char) :=
  match _h : firstWord? cs with
  | none => []
  | some (word, rest) => word :: words rest
termination_by cs.length
decreasing_by exact length_lt_of_firstWord? _h

/-- The text without the blanks at its two ends. -/
def trim (cs : List Char) : List Char :=
  ((cs.dropWhile isBlank).reverse.dropWhile isBlank).reverse

end ModuleSource.Text

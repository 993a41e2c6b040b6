import QueryScribe.Text.Ranges

/-!
# White space and trimming

`isBlank` is the Unicode property White_Space, which has 25 characters.  A text
is trimmed by dropping the blank characters at both of its ends; what is left
starts and ends with a character that is not blank, and trimming it again
changes nothing.
-/

namespace QueryScribe.Text

/-- The characters of the property White_Space. -/
def blanks : Ranges :=
  [(0x9, 0xd), (0x20, 0x20), (0x85, 0x85), (0xa0, 0xa0), (0x1680, 0x1680), (0x2000, 0x200a),
    (0x2028, 0x2029), (0x202f, 0x202f), (0x205f, 0x205f), (0x3000, 0x3000)]

def isBlank (c : Char) : Bool := blanks.has c

/-- A class of characters has no blank character when none of them belongs to it. -/
theorem isBlank_of_class {p : Char → Bool} (hp : blanks.chars.all (fun d => !p d) = true)
    {c : Char} (h : p c = true) : isBlank c = false := by
  cases hc : isBlank c with
  | false => rfl
  | true =>
    have := List.all_eq_true.1 hp c (Ranges.mem_chars hc)
    rw [h] at this
    exact absurd this (by decide)

def trimStart (s : List Char) : List Char := s.dropWhile isBlank

def trimEnd (s : List Char) : List Char := (s.reverse.dropWhile isBlank).reverse

def trim (s : List Char) : List Char := trimEnd (trimStart s)

@[simp] theorem trim_nil : trim [] = [] := rfl

theorem trimStart_cons_of_not_blank {c : Char} (s : List Char) (h : isBlank c = false) :
    trimStart (c :: s) = c :: s := by
  simp [trimStart, h]

theorem trimEnd_concat_of_not_blank {c : Char} (s : List Char) (h : isBlank c = false) :
    trimEnd (s ++ [c]) = s ++ [c] := by
  simp [trimEnd, h]

end QueryScribe.Text

/-!
# Ranges of code points

A property of characters that a standard lists is a list of closed ranges of
code points.  `Ranges.has` looks a character up in it, and `Ranges.chars` lists all that are in it.
-/

namespace QueryScribe.Text

/-- Closed ranges of code points, the lower end first. -/
abbrev Ranges := List (Nat × Nat)

namespace Ranges

def has (r : Ranges) (c : Char) : Bool :=
  r.any fun (low, high) => low ≤ c.toNat && c.toNat ≤ high

def chars (r : Ranges) : List Char :=
  r.flatMap fun (low, high) => (List.range' low (high + 1 - low)).map Char.ofNat

theorem mem_chars {r : Ranges} {c : Char} (h : r.has c = true) : c ∈ r.chars := by
  obtain ⟨⟨low, high⟩, hr, hc⟩ := List.any_eq_true.1 h
  simp only [Bool.and_eq_true, decide_eq_true_eq] at hc
  refine List.mem_flatMap.2 ⟨_, hr, List.mem_map.2 ⟨c.toNat, ?_, Char.ofNat_toNat c⟩⟩
  rw [List.mem_range'_1]
  omega

end Ranges

end QueryScribe.Text

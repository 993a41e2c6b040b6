import QueryScribe.Json.Reader
import QueryScribe.Json.Writer
import QueryScribe.Proofs.Text.Separation

/-!
# Trees and their writings

`Json.fold` puts a tree together with an assembly from the inside out, which is what
the reader does to a text while it reads.  `Json.depth` counts nested containers.  The two
writers of JSON text are one writer, `Json.spread`, with different gaps between the
parts of a container: `compact_eq_spread` and `pretty_eq_spread`.
-/

namespace QueryScribe.Json

open QueryScribe.Text

/-! ### What an assembly makes of a tree -/

section Fold

variable {α : Type}

mutual
/-- What an assembly makes of a tree, from the inside out. -/
def fold (asm : Assembly α) : Json → Option α
  | .null => some asm.null
  | .bool b => some (asm.bool b)
  | .number n => some (asm.number n)
  | .string s => some (asm.string s)
  | .array items => (foldItems asm items).map asm.array
  | .object members => (foldMembers asm members).bind asm.object
def foldItems (asm : Assembly α) : List Json → Option (List α)
  | [] => some []
  | j :: r => do return (← fold asm j) :: (← foldItems asm r)
def foldMembers (asm : Assembly α) : List (String × Json) → Option (List (String × α))
  | [] => some []
  | (k, j) :: r => do return (k, ← fold asm j) :: (← foldMembers asm r)
end

theorem foldItems_cons_eq_some {asm : Assembly α} {j : Json} {r : List Json} {vs : List α} :
    foldItems asm (j :: r) = some vs
      ↔ ∃ v, fold asm j = some v ∧ ∃ rest, foldItems asm r = some rest ∧ vs = v :: rest := by
  simp only [foldItems, Option.bind_eq_bind, Option.pure_def, Option.bind_eq_some_iff,
    Option.some.injEq, @eq_comm _ vs]

theorem foldMembers_cons_eq_some {asm : Assembly α} {k : String} {j : Json}
    {r : List (String × Json)} {vs : List (String × α)} :
    foldMembers asm ((k, j) :: r) = some vs
      ↔ ∃ v, fold asm j = some v ∧ ∃ rest, foldMembers asm r = some rest ∧ vs = (k, v) :: rest := by
  simp only [foldMembers, Option.bind_eq_bind, Option.pure_def, Option.bind_eq_some_iff,
    Option.some.injEq, @eq_comm _ vs]

end Fold

/-! ### Nesting -/

mutual
/-- The number of arrays and objects around the innermost value. -/
def depth : Json → Nat
  | .array items => depthItems items + 1
  | .object members => depthMembers members + 1
  | _ => 0
def depthItems : List Json → Nat
  | [] => 0
  | j :: r => max (depth j) (depthItems r)
def depthMembers : List (String × Json) → Nat
  | [] => 0
  | (_, j) :: r => max (depth j) (depthMembers r)
end

/-! ### Gaps -/

/-- Parts with gaps between brackets, or the bare brackets. -/
def between (gap : Nat → List Char) (depth : Nat) (left right : Char) :
    List (List Char) → List Char
  | [] => [left, right]
  | part :: parts =>
    left :: (gap (depth + 1) ++ (part ++ (parts.flatMap ((',' :: gap (depth + 1)) ++ ·)
      ++ (gap depth ++ [right]))))

mutual
/-- A tree with gaps between the parts of its containers and after its colons. -/
def spread (gap : Nat → List Char) (space : List Char) (depth : Nat) : Json → List Char
  | .null => "null".toList
  | .bool b => writeBool b
  | .number n => writeNumber n
  | .string s => writeString s
  | .array items => between gap depth '[' ']' (spreadItems gap space (depth + 1) items)
  | .object members =>
    between gap depth '\x7b' '\x7d' (spreadMembers gap space (depth + 1) members)
def spreadItems (gap : Nat → List Char) (space : List Char) (depth : Nat) :
    List Json → List (List Char)
  | [] => []
  | j :: r => spread gap space depth j :: spreadItems gap space depth r
def spreadMembers (gap : Nat → List Char) (space : List Char) (depth : Nat) :
    List (String × Json) → List (List Char)
  | [] => []
  | (k, j) :: r =>
    (writeString k ++ ':' :: (space ++ spread gap space depth j)) :: spreadMembers gap space depth r
end

theorem bare_eq_between (depth : Nat) (left right : Char) (parts : List (List Char)) :
    left :: [','].intercalate parts ++ [right] = between (fun _ => []) depth left right parts := by
  cases parts with
  | nil => rfl
  | cons part parts =>
    rw [between, intercalate_cons]
    simp

theorem enclose_eq_between (depth : Nat) (left right : Char) (parts : List (List Char)) :
    enclose depth left right parts = between newline depth left right parts := by
  cases parts with
  | nil => rfl
  | cons part parts =>
    rw [between, enclose, intercalate_cons]
    · simp
    · simp

mutual
theorem compact_eq_spread (depth : Nat) : ∀ j, compact j = spread (fun _ => []) [] depth j
  | .null => by rw [compact, spread]
  | .bool b => by rw [compact, spread]
  | .number n => by rw [compact, spread]
  | .string s => by rw [compact, spread]
  | .array items => by
    rw [compact, spread, bare_eq_between depth, compactItems_eq_spread (depth + 1) items]
  | .object members => by
    rw [compact, spread, bare_eq_between depth, compactMembers_eq_spread (depth + 1) members]
theorem compactItems_eq_spread (depth : Nat) :
    ∀ items, compactItems items = spreadItems (fun _ => []) [] depth items
  | [] => by rw [compactItems, spreadItems]
  | j :: r => by
    rw [compactItems, spreadItems, compact_eq_spread depth j, compactItems_eq_spread depth r]
theorem compactMembers_eq_spread (depth : Nat) :
    ∀ members, compactMembers members = spreadMembers (fun _ => []) [] depth members
  | [] => by rw [compactMembers, spreadMembers]
  | (k, j) :: r => by
    rw [compactMembers, spreadMembers, compact_eq_spread depth j,
      compactMembers_eq_spread depth r, List.nil_append]
end

mutual
/-- The text over several lines has a line break in each gap. -/
theorem prettyAt_eq_spread (depth : Nat) : ∀ j, prettyAt depth j = spread newline [' '] depth j
  | .null => by rw [prettyAt, spread]
  | .bool b => by rw [prettyAt, spread]
  | .number n => by rw [prettyAt, spread]
  | .string s => by rw [prettyAt, spread]
  | .array items => by
    rw [prettyAt, spread, enclose_eq_between, prettyItems_eq_spread (depth + 1) items]
  | .object members => by
    rw [prettyAt, spread, enclose_eq_between, prettyMembers_eq_spread (depth + 1) members]
theorem prettyItems_eq_spread (depth : Nat) :
    ∀ items, prettyItems depth items = spreadItems newline [' '] depth items
  | [] => by rw [prettyItems, spreadItems]
  | j :: r => by
    rw [prettyItems, spreadItems, prettyAt_eq_spread depth j, prettyItems_eq_spread depth r]
theorem prettyMembers_eq_spread (depth : Nat) :
    ∀ members, prettyMembers depth members = spreadMembers newline [' '] depth members
  | [] => by rw [prettyMembers, spreadMembers]
  | (k, j) :: r => by
    rw [prettyMembers, spreadMembers, prettyAt_eq_spread depth j,
      prettyMembers_eq_spread depth r, List.singleton_append]
end

end QueryScribe.Json

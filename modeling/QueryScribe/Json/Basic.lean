import QueryScribe.Double.Basic

/-!
# JSON trees

A JSON tree keeps the members of an object in order, repeated keys included.
Numbers are whole numbers or finite doubles; which of the two a numeral is
depends on how it is written.  `collapse` gives each repeated key the place of
its first member and the value of its last.
-/

namespace QueryScribe

inductive JsonNumber where
  | integer (i : Int)
  | double (negative : Bool) (magnitude : Magnitude)
  deriving DecidableEq

inductive Json where
  | null
  | bool (b : Bool)
  | number (n : JsonNumber)
  | string (s : String)
  | array (items : List Json)
  | object (members : List (String × Json))

namespace Json

/-- Gives a key a value: in place of the one it has, or at the end. -/
def put {α : Type} (key : String) (value : α) : List (String × α) → List (String × α)
  | [] => [(key, value)]
  | (k, v) :: r => if k = key then (k, value) :: r else (k, v) :: put key value r

/-- Members with each key once: at its first place and with its last value. -/
def distinct {α : Type} (members : List (String × α)) : List (String × α) :=
  members.foldl (fun done (k, v) => put k v done) []

mutual
/-- A tree in which no object repeats a key. -/
def collapse : Json → Json
  | .array items => .array (collapseItems items)
  | .object members => .object (distinct (collapseMembers members))
  | j => j
def collapseItems : List Json → List Json
  | [] => []
  | j :: r => collapse j :: collapseItems r
def collapseMembers : List (String × Json) → List (String × Json)
  | [] => []
  | (k, j) :: r => (k, collapse j) :: collapseMembers r
end

def member? (key : String) (members : List (String × Json)) : Option Json := members.lookup key

theorem put_keys {α : Type} (key : String) (value : α) (members : List (String × α)) :
    (put key value members).map (·.1)
      = if key ∈ members.map (·.1) then members.map (·.1) else members.map (·.1) ++ [key] := by
  induction members with
  | nil => simp [put]
  | cons m r ih =>
    obtain ⟨k, v⟩ := m
    by_cases h : k = key
    · simp [put, h]
    · have h' : key ≠ k := fun e => h e.symm
      by_cases hr : key ∈ r.map (·.1)
      · simp only [put, if_neg h, List.map_cons, ih, if_pos hr]
        rw [if_pos (List.mem_cons_of_mem _ hr)]
      · simp only [put, if_neg h, List.map_cons, ih, if_neg hr]
        rw [if_neg (by simp only [List.mem_cons, not_or]; exact ⟨h', hr⟩), List.cons_append]

end Json

end QueryScribe

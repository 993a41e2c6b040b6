import QueryScribe.Selector.Basic
import QueryScribe.Selector.Token

/-!
# Reading selectors

A selector is written as stages parted by bars, each of them alternatives parted by
commas, each of them a term: a dot, a field, a word, a constant, an array in
brackets or an object in braces, and steps behind it.  The tokens are read from
left to right by a machine whose stack holds the open arrays and objects.
-/

namespace QueryScribe.Selector

/-- A term with its steps, the last one first. -/
structure Term where
  base : Selector
  steps : List Step

namespace Term

def selector (t : Term) : Selector :=
  if t.steps.isEmpty then t.base else .path t.base t.steps.reverse

def push (t : Term) (choices : List Choice) : Term :=
  { t with steps := ⟨choices, false⟩ :: t.steps }

/-- The term after a question mark, which belongs to its last step if it has one. -/
def optional (t : Term) : Term :=
  match t.steps with
  | [] => { t with base := .attempt t.base }
  | s :: r => { t with steps := { s with optional := true } :: r }

end Term

/-- What stands before a term in the pipe that it belongs to: the stages, and the alternatives of
its own stage, the last one first. -/
structure Level where
  stages : List Selector
  alternatives : List Selector

namespace Level

def empty : Level := ⟨[], []⟩

def stage (l : Level) (last : Selector) : Selector :=
  l.alternatives.foldl (fun later earlier => .both earlier later) last

def close (l : Level) (last : Selector) : Selector :=
  l.stages.foldl (fun later earlier => .pipe earlier later) (l.stage last)

end Level

/-- An open array or object, with the pipe that it stands in. -/
inductive Frame where
  | collect (outer : Level)
  /-- An object with the entries so far, the last one first, and the key whose value is read. -/
  | record (outer : Level) (done : List (String × Selector)) (key : String)

inductive Mode where
  /-- A term must start. -/
  | term
  /-- After an opening bracket: a term must start, or the array is empty. -/
  | element
  /-- After a dot that starts a term, whose name may follow in quotes. -/
  | dot
  /-- After a dot behind a term: a name in quotes or a bracket must follow. -/
  | member (t : Term)
  /-- After a term. -/
  | after (t : Term)
  /-- After the opening bracket of a step. -/
  | access (t : Term)
  /-- After a comma between the choices of a step, the last one first. -/
  | choice (t : Term) (done : List Choice)
  /-- After a choice of a step. -/
  | chosen (t : Term) (done : List Choice)
  /-- After an opening brace. -/
  | firstName
  /-- After a comma between entries. -/
  | name (done : List (String × Selector))
  /-- After the name of an entry. -/
  | colon (done : List (String × Selector)) (key : String)

/-- The open arrays and objects, what stands before the term, and what is being read. -/
structure State where
  stack : List Frame
  level : Level
  mode : Mode

namespace State

def start : State := ⟨[], .empty, .term⟩

def after (s : State) (base : Selector) : State := { s with mode := .after ⟨base, []⟩ }

def named? : String → Option Selector
  | "empty" => some .nothing
  | "length" => some .length
  | "null" => some (.constant .null)
  | "true" => some (.constant (.bool true))
  | "false" => some (.constant (.bool false))
  | _ => none

def stepTerm? (s : State) : Token → Option State
  | .dot => some { s with mode := .dot }
  | .field key => some { s with mode := .after (Term.push ⟨.here, []⟩ [.name key]) }
  | .word name => (named? name).map s.after
  | .integer i => some (s.after (.constant (.number (.integer i))))
  | .string text => some (s.after (.constant (.string text)))
  | .mark c =>
    if c = '[' then some ⟨.collect s.level :: s.stack, .empty, .element⟩
    else if c = '\x7b' then some { s with mode := .firstName }
    else none

def stepAfter? (s : State) (t : Term) : Token → Option State
  | .dot => some { s with mode := .member t }
  | .field key => some { s with mode := .after (t.push [.name key]) }
  | .mark c =>
    if c = '[' then some { s with mode := .access t }
    else if c = '?' then some { s with mode := .after t.optional }
    else if c = '|' then
      some { s with level := ⟨s.level.stage t.selector :: s.level.stages, []⟩, mode := .term }
    else match s.stack with
      | [] =>
        if c = ',' then
          some { s with
            level := { s.level with alternatives := t.selector :: s.level.alternatives }
            mode := .term }
        else none
      | .collect outer :: stack =>
        if c = ',' then
          some { s with
            level := { s.level with alternatives := t.selector :: s.level.alternatives }
            mode := .term }
        else if c = ']' then
          some ⟨stack, outer, .after ⟨.collect (s.level.close t.selector), []⟩⟩
        else none
      | .record outer done key :: stack =>
        let done := (key, s.level.close t.selector) :: done
        if c = ',' then some ⟨stack, outer, .name done⟩
        else if c = '\x7d' then some ⟨stack, outer, .after ⟨.record done.reverse, []⟩⟩
        else none
  | _ => none

def choice? : Token → Option Choice
  | .string key => some (.name key)
  | .integer i => some (.index i)
  | _ => none

def stepName? (s : State) (done : List (String × Selector)) : Token → Option State
  | .word key | .string key => some { s with mode := .colon done key }
  | _ => none

/-- The entry whose value is the value of its own name. -/
def shorthand (key : String) : String × Selector := (key, .path .here [⟨[.name key], false⟩])

def step? (s : State) (token : Token) : Option State :=
  match s.mode with
  | .term => s.stepTerm? token
  | .element =>
    if token = .mark ']' then
      match s.stack with
      | .collect outer :: stack => some ⟨stack, outer, .after ⟨.collect .nothing, []⟩⟩
      | _ => none
    else s.stepTerm? token
  | .dot =>
    match token with
    | .string key => some { s with mode := .after (Term.push ⟨.here, []⟩ [.name key]) }
    | _ => s.stepAfter? ⟨.here, []⟩ token
  | .member t =>
    match token with
    | .string key => some { s with mode := .after (t.push [.name key]) }
    | _ => if token = .mark '[' then some { s with mode := .access t } else none
  | .after t => s.stepAfter? t token
  | .access t =>
    if token = .mark ']' then some { s with mode := .after (t.push [.every]) }
    else (choice? token).map fun c => { s with mode := .chosen t [c] }
  | .choice t done => (choice? token).map fun c => { s with mode := .chosen t (c :: done) }
  | .chosen t done =>
    if token = .mark ',' then some { s with mode := .choice t done }
    else if token = .mark ']' then some { s with mode := .after (t.push done.reverse) }
    else none
  | .firstName =>
    if token = .mark '\x7d' then some (s.after (.record [])) else s.stepName? [] token
  | .name done => s.stepName? done token
  | .colon done key =>
    if token = .mark ':' then some ⟨.record s.level done key :: s.stack, .empty, .term⟩
    else if token = .mark ',' then some { s with mode := .name (shorthand key :: done) }
    else if token = .mark '\x7d' then
      some (s.after (.record (shorthand key :: done).reverse))
    else none

def finish? (s : State) : Option Selector :=
  match s.stack, s.mode with
  | [], .after t => some (s.level.close t.selector)
  | [], .dot => some (s.level.close .here)
  | _, _ => none

end State

def read? (text : String) : Option Selector :=
  (Token.read? text.toList).bind fun tokens => (tokens.foldlM State.step? .start).bind State.finish?

def apply (text : String) (tree : Json) : Outcome (List Json) :=
  match read? text with
  | some s => s.select tree
  | none => .error .unreadable

end QueryScribe.Selector

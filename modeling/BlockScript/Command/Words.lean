/-!
The words of a command line.

Every option takes a value: its own, as in `--name=x`, or else the next word, which must not look
like an option itself. Options and other words may come in any order, and after `--` there are no
more options.
-/

namespace BlockScript.Command

/-- Splits at the first equals sign. -/
def splitAssignment (cs : List Char) : List Char × Option (List Char) :=
  match cs.dropWhile (· ≠ '=') with
  | [] => (cs, none)
  | _ :: value => (cs.takeWhile (· ≠ '='), some value)

inductive Word where
  /-- What is not an option. A lone dash is not. -/
  | plain
  | option (name : String) (value : Option String)
  | endOfOptions
  deriving DecidableEq, Repr

namespace Word

/-- The option a single letter stands for. Letters that stand for none keep their dash, so that
they are no option's name. -/
def ofLetter (c : Char) : String :=
  if c = 'p' then "preset" else String.ofList ['-', c]

/-- A letter's value may follow it at once, with or without an equals sign. -/
def letterValue : List Char → Option String
  | [] => none
  | '=' :: cs => some (String.ofList cs)
  | cs => some (String.ofList cs)

def ofString (s : String) : Word :=
  match s.toList with
  | ['-', '-'] => .endOfOptions
  | '-' :: '-' :: cs =>
    let (name, value) := splitAssignment cs
    .option (String.ofList name) (value.map String.ofList)
  | '-' :: c :: cs => .option (ofLetter c) (letterValue cs)
  | _ => .plain

end Word

/-- The words of a command line, sorted. -/
structure Words where
  options : List (String × String) := []
  plain : List String := []
  deriving DecidableEq, Repr

namespace Words

def addOption (name value : String) (w : Words) : Words :=
  { w with options := (name, value) :: w.options }

/-- Sorts words, where there are no options but the known ones. -/
def ofList? (known : List String) : List String → Option Words
  | [] => some {}
  | word :: words =>
    match Word.ofString word with
    | .endOfOptions => some { plain := words }
    | .plain => (ofList? known words).map fun w => { w with plain := word :: w.plain }
    | .option name (some value) =>
      if name ∈ known then (ofList? known words).map (addOption name value) else none
    | .option name none =>
      match words with
      | value :: words =>
        if name ∈ known ∧ Word.ofString value = .plain then
          (ofList? known words).map (addOption name value)
        else none
      | [] => none

/-- All values of an option in order. -/
def values (w : Words) (name : String) : List String :=
  (w.options.filter (·.1 = name)).map Prod.snd

/-- The value of an option that may be given once. -/
def single? (w : Words) (name : String) : Option (Option String) :=
  match w.values name with
  | [] => some none
  | [value] => some (some value)
  | _ => none

end Words

end BlockScript.Command

import LineTags.Text.Digit

/-!
# Arguments

A program takes one file and options. An option is one dash and a letter or two dashes and a word. A word may be cut short as long as only one option starts with it; letters may be put together; a value stands behind an equals sign or is the next argument, which must not look like an option. Two dashes alone end the options.
-/

namespace LineTags

open Text

inductive CommandOption
  | help
  | dryRun
  | repair
  | strict
  | language
  | verbose
  deriving DecidableEq

namespace CommandOption

def takesValue (o : CommandOption) : Bool := o == language

end CommandOption

/-- The options of a program by their spellings, and whether it needs a file. -/
structure ArgumentRules where
  options : List (Text × CommandOption)
  needsFile : Bool

/-- What the arguments of a program came to. -/
structure Arguments where
  file : Option Text := none
  options : List CommandOption := []
  language : Option Text := none
  deriving DecidableEq

/-- Why a program does not start: its arguments are wrong, or it was asked for help. -/
inductive ArgumentStop
  | wrong
  | helped
  deriving DecidableEq

/-- What one argument can be: a plain one, an option with the value written behind it, if any, or an option that there is not. -/
inductive ArgumentForm
  | plain
  | option (spelling : Text) (o : CommandOption) (value : Option Text)
  | unknownOption
  deriving DecidableEq

namespace ArgumentRules

/-- Numbers with a minus sign are no options. -/
def isNegativeNumber (t : Text) : Bool :=
  match t with
  | '-' :: r =>
    let fraction := (r.dropWhile isDecimalDigit)
    (!r.isEmpty && fraction.isEmpty)
      || (match fraction with
        | '.' :: digits => !digits.isEmpty && digits.all isDecimalDigit
        | _ => false)
  | _ => false

/-- Cuts an argument at its first equals sign. -/
def cutAtEquals (t : Text) : Text × Option Text :=
  match t.dropWhile (· != '=') with
  | [] => (t, none)
  | _ :: value => (t.takeWhile (· != '='), some value)

/-- The options that an argument may be short for. One dash and a letter may have more letters behind them. -/
def candidatesFor (rules : ArgumentRules) (t : Text) : List (Text × CommandOption × Option Text) :=
  match t with
  | '-' :: '-' :: _ =>
    let (word, value) := cutAtEquals t
    (rules.options.filter fun o => startsWith word o.1).map fun (spelling, o) => (spelling, o, value)
  | _ =>
    rules.options.filterMap fun (spelling, o) =>
      if spelling = t.take 2 then some (spelling, o, some (t.drop 2))
      else if startsWith t spelling then some (spelling, o, none)
      else none

def formOf (rules : ArgumentRules) (t : Text) : Except ArgumentStop ArgumentForm :=
  if t.head? ≠ some '-' then .ok .plain
  else
    match rules.options.lookup t with
    | some o => .ok (.option t o none)
    | none =>
      if t.length = 1 then .ok .plain
      else
        let (word, value) := cutAtEquals t
        match value.isSome, rules.options.lookup word with
        | true, some o => .ok (.option word o value)
        | _, _ =>
          match rules.candidatesFor t with
          | [(spelling, o, value)] => .ok (.option spelling o value)
          | _ :: _ :: _ => .error .wrong
          | [] => .ok (if isNegativeNumber t || decide (' ' ∈ t) then .plain else .unknownOption)

def separator : Text := ['-', '-']

/-- The forms of all arguments. Behind the separator everything is plain; the separator itself has no form. -/
def formsOf (rules : ArgumentRules) : List Text → Except ArgumentStop (List (Text × Option ArgumentForm))
  | [] => .ok []
  | t :: r =>
    if t = separator then .ok ((t, none) :: r.map fun u => (u, some .plain))
    else do return (t, some (← rules.formOf t)) :: (← rules.formsOf r)

/-- Reads the letters that stand behind an option and are put together with it. All must be options without a value, but for the last, which takes the rest. -/
def readCluster (rules : ArgumentRules) (spelling : Text) (o : CommandOption) :
    Text → Except ArgumentStop (List (CommandOption × Option Text))
  | [] => if o.takesValue then .ok [(o, some [])] else .error .wrong
  | c :: r =>
    if o.takesValue then .ok [(o, some (c :: r))]
    else if spelling.length ≠ 2 ∨ startsWith separator spelling then .error .wrong
    else
      match rules.options.lookup ['-', c] with
      | none => .error .wrong
      | some next =>
        if r.isEmpty then
          if next.takesValue then .error .wrong else .ok [(o, none), (next, none)]
        else do return (o, none) :: (← readCluster rules ['-', c] next r)

end ArgumentRules

namespace Arguments

def take (a : Arguments) (o : CommandOption) (value : Option Text) : Arguments :=
  if o.takesValue then { a with language := value } else { a with options := a.options ++ [o] }

/-- Takes the options that one argument gave. A question for help stops the reading. -/
def takeAll (a : Arguments) : List (CommandOption × Option Text) → Except ArgumentStop Arguments
  | [] => .ok a
  | (o, value) :: r => if o = .help then .error .helped else takeAll (a.take o value) r

/-- Reads arguments with their forms. `fileIsLast` tells whether the argument before was the file, `fits` whether nothing was out of place so far. -/
def readForms (rules : ArgumentRules) (a : Arguments) (fileIsLast fits : Bool) :
    List (Text × Option ArgumentForm) → Except ArgumentStop Arguments
  | [] => if fits && (a.file.isSome || !rules.needsFile) then .ok a else .error .wrong
  | (_, none) :: r => readForms rules a fileIsLast (fits && (a.file.isNone || fileIsLast)) r
  | (t, some .plain) :: r =>
    if a.file.isNone then readForms rules { a with file := some t } true fits r else readForms rules a false false r
  | (_, some .unknownOption) :: r => readForms rules a false false r
  | (_, some (.option spelling o (some value))) :: r =>
    match rules.readCluster spelling o value with
    | .error e => .error e
    | .ok taken =>
      match a.takeAll taken with
      | .error e => .error e
      | .ok a => readForms rules a false fits r
  | (_, some (.option _ o none)) :: r =>
    if o.takesValue then
      match r with
      | (value, some .plain) :: r => readForms rules (a.take o (some value)) false fits r
      | _ => .error .wrong
    else
      match a.takeAll [(o, none)] with
      | .error e => .error e
      | .ok a => readForms rules a false fits r

def read (rules : ArgumentRules) (arguments : List Text) : Except ArgumentStop Arguments := do
  readForms rules {} false true (← rules.formsOf arguments)

def has (a : Arguments) (o : CommandOption) : Bool := a.options.contains o

end Arguments

end LineTags

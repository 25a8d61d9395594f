import OnAir.Publisher

set_option autoImplicit false

namespace OnAir.Command

inductive Task where
  | resolve (input : String) (start : Option String) (runToEnd : Bool) (output : Option String)
  | replay (input edits : String) (output : Option String)
  | inspect (input : String)
  deriving DecidableEq, Repr

inductive Stop where
  | usage | version | help
  deriving DecidableEq, Repr

structure Valued where
  name : String
  letter : Option Char
  accepts : String → Bool

/-- What may be given in one place: before the command's name, or behind it. -/
structure Level where
  valued : List Valued
  flags : List String
  paths : Nat
  commands : List String
  versioned : Bool

structure Given where
  values : List (String × String)
  flags : List String
  paths : List String

def Given.nothing : Given := ⟨[], [], []⟩

def Given.value? (given : Given) (name : String) : Option String := given.values.lookup name

def Given.has (given : Given) (flag : String) : Bool := given.flags.contains flag

/-- A count in decimal digits, with or without a plus sign, in 64 bits. -/
def count? (s : String) : Option Nat :=
  let digits := match s.toList with
    | '+' :: rest => rest
    | l => l
  if digits.isEmpty || !digits.all Char.isDigit then none
  else
    let n := digits.foldl (fun n c => 10 * n + (c.toNat - 48)) 0
    if n < UInt64.size then some n else none

def pollOption : Valued := ⟨"cancel-check-interval", none, fun s => (count? s).isSome⟩

def orphansFlag : String := "keep-orphans"

def startOption : Valued := ⟨"from", none, fun _ => true⟩

def runToEndFlag : String := "run-to-end"

def outputOption : Valued := ⟨"output", some 'o', fun s => !s.isEmpty⟩

namespace Level

def top : Level := ⟨[pollOption], [orphansFlag], 0, ["resolve", "replay", "inspect", "help"], true⟩

def behind (valued : List Valued) (flags : List String) (paths : Nat) : Level :=
  ⟨pollOption :: valued, orphansFlag :: flags, paths, [], false⟩

def resolve : Level := behind [startOption, outputOption] [runToEndFlag] 1

def replay : Level := behind [outputOption] [] 2

def inspect : Level := behind [] [] 1

def setValue (given : Given) (option : Valued) (value : String) : Except Stop Given :=
  if (given.value? option.name).isSome || !option.accepts value then .error .usage
  else .ok { given with values := (option.name, value) :: given.values }

def setFlag (given : Given) (flag : String) : Except Stop Given :=
  if given.has flag then .error .usage else .ok { given with flags := flag :: given.flags }

def addPath (level : Level) (given : Given) (path : String) : Except Stop Given :=
  if path.isEmpty || level.paths ≤ given.paths.length then .error .usage
  else .ok { given with paths := path :: given.paths }

def splitLong (l : List Char) : String × Option String :=
  (String.ofList (l.takeWhile (· ≠ '=')),
    match l.dropWhile (· ≠ '=') with
    | [] => none
    | _ :: value => some (String.ofList value))

def long (level : Level) (given : Given) (l : List Char) :
    Except Stop (Given × Option Valued) :=
  match splitLong l with
  | (name, value) =>
    match level.valued.find? (·.name = name), value with
    | some option, some value => (setValue given option value).map (·, none)
    | some option, none => .ok (given, some option)
    | none, some _ => .error .usage
    | none, none =>
      if level.flags.contains name then (setFlag given name).map (·, none)
      else if name = "help" then .error .help
      else if name = "version" && level.versioned then .error .version
      else .error .usage

def short (level : Level) (given : Given) (letter : Char) (rest : List Char) :
    Except Stop (Given × Option Valued) :=
  match level.valued.find? (·.letter = some letter), rest with
  | some option, [] => .ok (given, some option)
  | some option, '=' :: value => (setValue given option (String.ofList value)).map (·, none)
  | some option, value => (setValue given option (String.ofList value)).map (·, none)
  | none, _ =>
    if letter = 'h' then .error .help
    else if letter = 'V' && level.versioned then .error .version
    else .error .usage

/-- Takes the arguments of a level, in which each option is given at most once. The answer has what
was given, and, where a command's name ends the level, that name and what stands behind it. -/
def scan (level : Level) (given : Given) (awaiting : Option Valued) (ended : Bool) :
    List String → Except Stop (Given × Option (String × List String))
  | [] => if awaiting.isSome then .error .usage else .ok (given, none)
  | arg :: rest =>
    if ended then do
      scan level (← level.addPath given arg) none true rest
    else if awaiting.isNone && level.commands.contains arg then .ok (given, some (arg, rest))
    else
      match arg.toList, awaiting with
      | '-' :: _ :: _, some _ => .error .usage
      | ['-', '-'], none => scan level given none true rest
      | '-' :: '-' :: l, none => do
        let (given, awaiting) ← level.long given l
        scan level given awaiting false rest
      | '-' :: letter :: l, none => do
        let (given, awaiting) ← level.short given letter l
        scan level given awaiting false rest
      | _, some option => do
        scan level (← setValue given option arg) none false rest
      | _, none => do
        scan level (← level.addPath given arg) none false rest

def read (level : Level) (args : List String) : Except Stop (Given × List String) := do
  let (given, _) ← level.scan .nothing none false args
  return (given, given.paths.reverse)

end Level

/-- What was given behind the command's name counts more than what was given before it. -/
def settings (outer inner : Given) : Settings where
  pollEvery := ((inner.value? pollOption.name <|> outer.value? pollOption.name).bind count?).getD
    Settings.standard.pollEvery
  dropsOrphans := !(inner.has orphansFlag || outer.has orphansFlag)

def task : String → List String → Except Stop (Given × Task)
  | "resolve", args => do
    match ← Level.resolve.read args with
    | (given, [input]) =>
      return (given, .resolve input (given.value? startOption.name) (given.has runToEndFlag)
        (given.value? outputOption.name))
    | _ => throw .usage
  | "replay", args => do
    match ← Level.replay.read args with
    | (given, [input, edits]) =>
      return (given, .replay input edits (given.value? outputOption.name))
    | _ => throw .usage
  | "inspect", args => do
    match ← Level.inspect.read args with
    | (given, [input]) => return (given, .inspect input)
    | _ => throw .usage
  | "help", [] => throw .help
  | "help", [name] => if Level.top.commands.contains name then throw .help else throw .usage
  | _, _ => throw .usage

def ofArguments (args : List String) : Except Stop (Settings × Task) := do
  match ← Level.top.scan .nothing none false args with
  | (_, none) => throw .usage
  | (outer, some (name, rest)) =>
    let (inner, task) ← task name rest
    return (settings outer inner, task)

end OnAir.Command

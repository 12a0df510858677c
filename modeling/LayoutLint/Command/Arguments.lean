/-! # Arguments

What can stand on the command line. An option is read at the level of its command; verbosity and
the configuration file may be given before the command as well as after it.
-/

namespace LayoutLint.Command

inductive Format where
  | text
  | json
  | compact
  | pretty
  deriving DecidableEq, Repr

namespace Format

def name : Format → String
  | text => "text"
  | json => "json"
  | compact => "compact"
  | pretty => "pretty"

def all : List Format := [text, json, compact, pretty]

def ofName? (s : String) : Option Format := all.find? (·.name == s)

end Format

structure CheckOptions where
  /-- The file or directory to check. -/
  path : Option String := none
  format : Format := .text
  /-- Names or codes of rules between commas, in place of the preset. -/
  rules : Option String := none
  exclude : List String := []
  strictParse : Bool := false
  deriving DecidableEq, Repr

inductive Action where
  | check (options : CheckOptions)
  | listRules
  | init (force : Bool)
  deriving DecidableEq, Repr

structure Invocation where
  action : Action
  /-- The configuration file that is asked for. -/
  config : Option String := none
  verbose : Bool := false
  deriving DecidableEq, Repr

inductive Request where
  | run (invocation : Invocation)
  | version
  | help
  deriving DecidableEq, Repr

/-! ## Options and levels -/

inductive Flag where
  | verbose
  | config
  | help
  | version
  | format
  | rules
  | exclude
  | strictParse
  | force
  deriving DecidableEq, Repr

namespace Flag

def long : Flag → String
  | verbose => "verbose"
  | config => "config"
  | help => "help"
  | version => "version"
  | format => "format"
  | rules => "rules"
  | exclude => "exclude"
  | strictParse => "strict-parse"
  | force => "force"

def short? : Flag → Option Char
  | verbose => some 'v'
  | config => some 'c'
  | help => some 'h'
  | version => some 'V'
  | format => some 'f'
  | exclude => some 'e'
  | _ => none

def takesValue : Flag → Bool
  | config | format | rules | exclude => true
  | _ => false

/-- The flag may be given more than once. -/
def repeats : Flag → Bool
  | exclude => true
  | _ => false

end Flag

/-- The part of the command line before a command, or that of a command. -/
inductive Level where
  | top
  | check
  | listRules
  | init
  | help
  deriving DecidableEq, Repr

namespace Level

def flags : Level → List Flag
  | top => [.verbose, .config, .help, .version]
  | check => [.verbose, .config, .help, .format, .rules, .exclude, .strictParse]
  | listRules => [.verbose, .config, .help]
  | init => [.verbose, .config, .help, .force]
  | help => []

def ofName? : String → Option Level
  | "check" => some check
  | "list-rules" => some listRules
  | "init" => some init
  | "help" => some help
  | _ => none

def long? (l : Level) (name : String) : Option Flag := l.flags.find? (·.long == name)

def short? (l : Level) (c : Char) : Option Flag := l.flags.find? (·.short? == some c)

end Level

/-! ## Reading -/

/-- What the arguments hold, one by one. -/
inductive Item where
  | command (level : Level)
  | flag (f : Flag)
  | value (f : Flag) (text : String)
  | operand (text : String)
  /-- Nothing that belongs here; the reading ends. -/
  | wrong
  deriving DecidableEq, Repr

/-- Starts with a dash and is more than one. -/
def isOption (arg : String) : Bool :=
  match arg.toList with
  | '-' :: _ :: _ => true
  | _ => false

/-- A long option without its dashes: its name, and its value if it is written with `=`. -/
def splitLong (body : List Char) : String × Option String :=
  let name := body.takeWhile (· ≠ '=')
  match body.drop name.length with
  | [] => (String.ofList name, none)
  | _ :: value => (String.ofList name, some (String.ofList value))

/-- Short options behind one dash. The second part is an option that still needs a value. -/
def readShort (l : Level) : List Char → List Item × Option Flag
  | [] => ([], none)
  | c :: rest =>
    match l.short? c with
    | none => ([.wrong], none)
    | some f =>
      if f.takesValue then
        match rest with
        | [] => ([], some f)
        | '=' :: value => ([.value f (String.ofList value)], none)
        | value => ([.value f (String.ofList value)], none)
      else
        let (items, open?) := readShort l rest
        (.flag f :: items, open?)

/-- A long option, and whether it still needs a value. -/
def readLong (l : Level) (body : List Char) : List Item × Option Flag :=
  let (name, value?) := splitLong body
  match l.long? name, value? with
  | none, _ => ([.wrong], none)
  | some f, some value => if f.takesValue then ([.value f value], none) else ([.wrong], none)
  | some f, none => if f.takesValue then ([], some f) else ([.flag f], none)

/-- Read arguments at a level. `open?` is an option before them that needs a value. After `--`
there are operands only. -/
def readFrom (l : Level) (open? : Option Flag) : List String → List Item
  | [] => if open?.isSome then [.wrong] else []
  | arg :: rest =>
    match open? with
    | some f =>
      if isOption arg then [.wrong] else .value f arg :: readFrom l none rest
    | none =>
      if arg = "--" then rest.map .operand
      else
        match arg.toList with
        | '-' :: '-' :: body =>
          let (items, open?) := readLong l body
          items ++ readFrom l open? rest
        | '-' :: c :: body =>
          let (items, open?) := readShort l (c :: body)
          items ++ readFrom l open? rest
        | _ =>
          if l = .top then
            match Level.ofName? arg with
            | some inner => .command inner :: readFrom inner none rest
            | none => [.wrong]
          else .operand arg :: readFrom l none rest

/-! ## Meaning -/

/-- What has been understood so far. -/
structure Settings where
  level : Level := .top
  /-- The flags given at this level. -/
  given : List Flag := []
  config : Option String := none
  /-- The number of levels at which a configuration file is named. -/
  configLevels : Nat := 0
  verbose : Bool := false
  force : Bool := false
  check : CheckOptions := {}

/-- The value goes to its option; some options refuse an empty or an unknown one. -/
def Settings.setValue? (s : Settings) (f : Flag) (text : String) : Option Settings :=
  match f with
  | .config =>
    if text = "" then none
    else some { s with config := some text, configLevels := s.configLevels + 1 }
  | .format => (Format.ofName? text).map fun format =>
    { s with check := { s.check with format } }
  | .rules => some { s with check := { s.check with rules := some text } }
  | .exclude => some { s with check := { s.check with exclude := s.check.exclude ++ [text] } }
  | _ => none

def Settings.setFlag (s : Settings) (f : Flag) : Settings :=
  match f with
  | .verbose => { s with verbose := true }
  | .strictParse => { s with check := { s.check with strictParse := true } }
  | .force => { s with force := true }
  | _ => s

/-- Note that a flag is given, which most flags are only once a level. -/
def Settings.note? (s : Settings) (f : Flag) : Option Settings :=
  if s.given.contains f && !f.repeats then none
  else some { s with given := f :: s.given }

/-- The only operand is the path of a check. -/
def Settings.addOperand? (s : Settings) (text : String) : Option Settings :=
  if s.level = .check && s.check.path.isNone && text ≠ "" then
    some { s with check := { s.check with path := some text } }
  else none

/-- The action of a level with the settings. -/
def Settings.request? (s : Settings) (fallback : Option String) : Option Request := do
  let action ← match s.level with
    | .check => some (Action.check s.check)
    | .listRules => some .listRules
    | .init => some (.init s.force)
    | _ => none
  if fallback = some "" && s.configLevels < 2 then none
  else some (.run { action, config := s.config.or fallback, verbose := s.verbose })

/-- Follow the items in order; the first that is wrong or asks for information decides. The
fallback is the configuration file if no argument names one. -/
def interpret (fallback : Option String) (s : Settings) : List Item → Option Request
  | [] => if s.level = .help then some .help else s.request? fallback
  | .wrong :: _ => none
  | .command level :: items => interpret fallback { s with level, given := [] } items
  | .flag .help :: _ => some .help
  | .flag .version :: _ => some .version
  | .flag f :: items => do interpret fallback ((← s.note? f).setFlag f) items
  | .value f text :: items => do
    interpret fallback (← (← s.note? f).setValue? f text) items
  | .operand text :: items =>
    if s.level = .help then
      if (Level.ofName? text).isSome then interpret fallback s items else none
    else do interpret fallback (← s.addOperand? text) items

/-- The request of a command line; `none` if it is not well formed. -/
def parse? (fallback : Option String) (args : List String) : Option Request :=
  interpret fallback {} (readFrom .top none args)

end LayoutLint.Command

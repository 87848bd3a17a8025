/-!
# Arguments

The words of the command line name the scene and set options, in any order. An option is written
with its letter or its name, and its value stands in the same word or in the next one.
-/

namespace ScenePrune.CommandLine

def programName : String := "scenegc"

def defaultConfig : String := programName ++ ".toml"

inductive Setting where
  | output
  | flags
  | config
  | animations
  | bindings
deriving DecidableEq, Repr

namespace Setting

def all : List Setting := [output, flags, config, animations, bindings]

def name : Setting → String
  | output => "output"
  | flags => "flags"
  | config => "config"
  | animations => "animations"
  | bindings => "bindings"

def letter : Setting → Char
  | output => 'o'
  | flags => 'f'
  | config => 'c'
  | animations => 'a'
  | bindings => 'b'

def ofName? (name : String) : Option Setting := all.find? (·.name = name)

def ofLetter? (letter : Char) : Option Setting := all.find? (·.letter = letter)

def isPath (s : Setting) : Bool := s ≠ flags

end Setting

inductive Word where
  | value
  | setting (s : Setting) (attached? : Option String)
  | help
  | version
  /-- All words that follow are values. -/
  | separator
  /-- Looks like an option, and there is none of this form. -/
  | unknown
deriving DecidableEq, Repr

namespace Word

def long (body : List Char) : Word :=
  let name := String.ofList (body.takeWhile (· ≠ '='))
  let attached? := (body.dropWhile (· ≠ '=')).tail?.map String.ofList
  match Setting.ofName? name with
  | some s => setting s attached?
  | none =>
    if attached?.isSome then unknown
    else if name = "help" then help
    else if name = "version" then version
    else unknown

def short (letter : Char) (attached : List Char) : Word :=
  match Setting.ofLetter? letter with
  | some s =>
    match attached with
    | [] => setting s none
    | '=' :: text => setting s (some (String.ofList text))
    | text => setting s (some (String.ofList text))
  | none =>
    if letter = 'h' then help
    else if letter = 'V' then version
    else unknown

def of (text : String) : Word :=
  match text.toList with
  | ['-', '-'] => separator
  | '-' :: '-' :: body => long body
  | '-' :: letter :: attached => short letter attached
  | _ => value

end Word

/-- Whether a word can be the value of the option before it. Flags begin with dashes themselves. -/
def Setting.accepts (s : Setting) (text : String) : Bool :=
  s = .flags || Word.of text = .value

structure Arguments where
  scene : String
  output? : Option String
  flags? : Option String
  config : String
  animations? : Option String
  bindings? : Option String
deriving DecidableEq, Repr

inductive Request where
  | prune (arguments : Arguments)
  | help
  | version
deriving DecidableEq, Repr

inductive ArgumentError where
  | unknown (word : String)
  | missingValue (s : Setting)
  | repeated (s : Setting)
  | emptyPath
  | noScene
  /-- A value is left over once the scene is named. -/
  | surplus (value : String)
deriving DecidableEq, Repr

def ArgumentError.message : ArgumentError → String
  | unknown word => s!"unexpected argument {word}"
  | missingValue s => s!"a value is required for --{s.name}"
  | repeated s => s!"--{s.name} cannot be used multiple times"
  | emptyPath => "a path cannot be empty"
  | noScene => "the scene is missing"
  | surplus value => s!"unexpected argument {value}"

structure Given where
  scene? : Option String := none
  settings : List (Setting × String) := []

namespace Given

def value? (g : Given) (s : Setting) : Option String := g.settings.lookup s

def addScene (g : Given) (path : String) : Except ArgumentError Given :=
  if g.scene?.isSome then .error (.surplus path)
  else if path = "" then .error .emptyPath
  else .ok { g with scene? := some path }

def set (g : Given) (s : Setting) (value : String) : Except ArgumentError Given :=
  if (g.value? s).isSome then .error (.repeated s)
  else if s.isPath && value = "" then .error .emptyPath
  else .ok { g with settings := g.settings ++ [(s, value)] }

def finish (g : Given) : Except ArgumentError Request :=
  match g.scene? with
  | none => .error .noScene
  | some scene => .ok <| .prune {
      scene
      output? := g.value? .output
      flags? := g.value? .flags
      config := (g.value? .config).getD defaultConfig
      animations? := g.value? .animations
      bindings? := g.value? .bindings }

/-- Reads words in turn. Asking for help or the version ends the reading at once. -/
def read (g : Given) : List String → Except ArgumentError Request
  | [] => g.finish
  | word :: rest =>
    match Word.of word with
    | .value => do read (← g.addScene word) rest
    | .setting s (some value) => do read (← g.set s value) rest
    | .setting s none =>
      match rest with
      | [] => .error (.missingValue s)
      | value :: rest =>
        if s.accepts value then do read (← g.set s value) rest
        else .error (.missingValue s)
    | .separator => do (← rest.foldlM addScene g).finish
    | .help => .ok .help
    | .version => .ok .version
    | .unknown => .error (.unknown word)

end Given

def Request.parse (words : List String) : Except ArgumentError Request := ({} : Given).read words

end ScenePrune.CommandLine

import ClassScope.Settings

/-!
The words of a command line. Options may stand anywhere before the words that follow `--`; one that takes a
value is only judged when the next option or operand comes, or at the end.
-/
namespace ClassScope.Command

structure ModuleArgs where
  name : String := "main"
  classpath : List Path := []
  boot : List Path := []
  outputs : List Path := []
  deriving Repr, DecidableEq

/-- Boot entries make the module a platform module. -/
def ModuleArgs.settings (m : ModuleArgs) : Settings where
  kind := if m.boot.isEmpty then .plain else .platform
  compile := m.classpath
  boot := m.boot
  outputs := m.outputs

inductive Action where
  /-- Lists the classes that the module sees, those whose simple name starts so if a start is given. -/
  | types (module : ModuleArgs) (start : Option String)
  /-- Tells whether a class is among the dependency and boot classes. -/
  | check (module : ModuleArgs) (name : String)
  | config
  deriving Repr, DecidableEq

structure Invocation where
  config : Option Path
  action : Action
  deriving Repr, DecidableEq

inductive UsageError where
  | missingArgument
  | unknownArgument
  | repeated
  | invalidValue
  | tooManyValues
  | missingCommand
  | unknownCommand
  | help
  /-- There are no words at all. -/
  | helpInstead
  deriving Repr, DecidableEq

/-! ## Options -/

/-- What takes a value. -/
inductive Slot where
  | config
  | name
  | classpath
  | boot
  | output
  | start
  | operand
  deriving Repr, DecidableEq

def Slot.long? : Slot → Option String
  | config => some "config"
  | name => some "name"
  | classpath => some "classpath"
  | boot => some "boot"
  | output => some "output"
  | start => some "prefix"
  | operand => none

/-- Where words are read: before the command or after it. -/
inductive Place where
  | top
  | types
  | check
  | config
  deriving Repr, DecidableEq

def Place.slots : Place → List Slot
  | top | config => [.config]
  | types => [.config, .name, .classpath, .boot, .output, .start]
  | check => [.config, .name, .classpath, .boot, .output, .operand]

def Place.ofWord? : String → Option Place
  | "types" => some types
  | "check" => some check
  | "config" => some config
  | _ => none

structure Values where
  config : Option Path := none
  name : Option String := none
  classpath : List Path := []
  boot : List Path := []
  outputs : List Path := []
  start : Option String := none
  operand : Option String := none
  deriving Repr, DecidableEq

namespace Values

def once {α : Type} (before : Option α) (value : α) : Except UsageError (Option α) :=
  if before.isSome then .error .repeated else .ok (some value)

/-- Paths are not empty. -/
def path (value : String) : Except UsageError Path :=
  if value.isEmpty then .error .invalidValue else .ok (Path.ofString value)

/-- Takes a value; an option without one is in error. -/
def set (v : Values) (slot : Slot) (value : Option String) : Except UsageError Values :=
  match value with
  | none => .error .invalidValue
  | some value =>
      match slot with
      | .config => do
          if v.config.isSome then throw .repeated
          return { v with config := some (← path value) }
      | .name => do return { v with name := ← once v.name value }
      | .classpath => do return { v with classpath := v.classpath ++ [← path value] }
      | .boot => do return { v with boot := v.boot ++ [← path value] }
      | .output => do return { v with outputs := v.outputs ++ [← path value] }
      | .start => do return { v with start := ← once v.start value }
      | .operand => do return { v with operand := ← once v.operand value }

def module (v : Values) : ModuleArgs :=
  { name := v.name.getD "main", classpath := v.classpath, boot := v.boot, outputs := v.outputs }

end Values

/-! ## Reading words -/

structure Reading where
  values : Values := {}
  /-- What was named last, and its value once it has come. -/
  pending : Option (Slot × Option String) := none
  operand : Bool := false
  /-- Whether only operands may follow. -/
  closed : Bool := false
  deriving Repr, DecidableEq

namespace Reading

/-- Judges what was named last. -/
def resolve (r : Reading) : Except UsageError Reading :=
  match r.pending with
  | none => .ok r
  | some (slot, value) => do return { r with values := ← r.values.set slot value, pending := none }

/-- Names an option, with its value if that is attached. -/
def give (r : Reading) (slot : Slot) (value : Option String) : Except UsageError Reading := do
  let r ← r.resolve
  match value with
  | some _ => return { r with values := ← r.values.set slot value }
  | none => return { r with pending := some (slot, none) }

def askHelp (r : Reading) : Except UsageError Reading := do
  let _ ← r.resolve
  throw .help

/-- Text before and after the first equals sign. -/
def splitValue (cs : List Char) : String × Option String :=
  match cs.dropWhile (· ≠ '=') with
  | _ :: value => (String.ofList (cs.takeWhile (· ≠ '=')), some (String.ofList value))
  | [] => (String.ofList cs, none)

def long (place : Place) (cs : List Char) (r : Reading) : Except UsageError Reading :=
  let (name, value) := splitValue cs
  if name = "help" then
    if value.isSome then .error .tooManyValues else r.askHelp
  else
    match place.slots.find? fun s => s.long? = some name with
    | some slot => r.give slot value
    | none => .error .unknownArgument

def short (place : Place) (cs : List Char) (r : Reading) : Except UsageError Reading :=
  match cs with
  | 'h' :: _ => r.askHelp
  | 'c' :: rest =>
      if .classpath ∈ place.slots then
        match rest with
        | [] => r.give .classpath none
        | '=' :: value => r.give .classpath (some (String.ofList value))
        | value => r.give .classpath (some (String.ofList value))
      else .error .unknownArgument
  | _ => .error .unknownArgument

def takeOperand (place : Place) (word : String) (r : Reading) : Except UsageError Reading :=
  if .operand ∈ place.slots ∧ ¬ r.operand then do
    let r ← r.resolve
    return { r with pending := some (.operand, some word), operand := true }
  else .error .unknownArgument

/-- A word that is no option, after the command. -/
def plain (place : Place) (word : String) (r : Reading) : Except UsageError Reading :=
  match r.pending, r.closed with
  | some (slot, none), false => .ok { r with pending := some (slot, some word) }
  | _, _ => r.takeOperand place word

end Reading

inductive Look where
  | close
  | long (cs : List Char)
  | short (cs : List Char)
  | plain
  deriving Repr, DecidableEq

def Look.of (word : String) : Look :=
  match word.toList with
  | ['-', '-'] => close
  | '-' :: '-' :: cs => long cs
  | ['-'] => plain
  | '-' :: cs => short cs
  | _ => plain

def readWords (place : Place) (r : Reading) : List String → Except UsageError Values
  | [] => do return (← r.resolve).values
  | word :: rest => do
      if r.closed then readWords place (← r.plain place word) rest
      else
        match Look.of word with
        | .close => readWords place { r with closed := true } rest
        | .long cs => readWords place (← r.long place cs) rest
        | .short cs => readWords place (← r.short place cs) rest
        | .plain => readWords place (← r.plain place word) rest

/-- Words after `help` name a command, or help itself. -/
def readHelp : List String → UsageError
  | [] => .help
  | [word] => if word = "help" ∨ (Place.ofWord? word).isSome then .help else .unknownCommand
  | _ => .unknownCommand

/-- What the values after a command make it do. -/
def actionOf (place : Place) (v : Values) : Except UsageError Action :=
  match place with
  | .types => .ok (.types v.module v.start)
  | .check =>
      match v.operand with
      | some name => .ok (.check v.module name)
      | none => .error .missingArgument
  | .config => .ok .config
  | .top => .error .missingCommand

/-- The words up to the command and all after it. What is wrong after the command is told first. -/
def readTop (r : Reading) : List String → Except UsageError Invocation
  | [] => do
      let r ← r.resolve
      throw (if r.values.config.isSome then .missingCommand else .helpInstead)
  | word :: rest =>
      if r.closed then
        .error (if word = "help" ∨ (Place.ofWord? word).isSome then .unknownArgument else .unknownCommand)
      else
        match Look.of word with
        | .close => readTop { r with closed := true } rest
        | .long cs => do readTop (← r.long .top cs) rest
        | .short cs => do readTop (← r.short .top cs) rest
        | .plain =>
            match r.pending with
            | some (slot, none) => readTop { r with pending := some (slot, some word) } rest
            | _ =>
                if word = "help" then .error (readHelp rest)
                else
                  match Place.ofWord? word with
                  | none => .error .unknownCommand
                  | some place => do
                      let v ← readWords place {} rest
                      let action ← actionOf place v
                      let r ← r.resolve
                      return ⟨v.config.orElse fun _ => r.values.config, action⟩

def Invocation.ofWords (words : List String) : Except UsageError Invocation :=
  readTop {} words

end ClassScope.Command

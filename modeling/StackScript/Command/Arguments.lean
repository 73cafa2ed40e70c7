import StackScript.Text.Numeral
import StackScript.Text.Quoted

/-!
# Arguments of a command

A form says what a command takes: switches, which start with a dash, and one argument without a
dash. A long switch may be cut short as long as it stays clear which one is meant; short switches
may share a dash; a value may follow its switch as the next argument, after `=`, or directly after
a short switch. After `--` nothing is a switch.

Arguments that fit nowhere are kept, since another form may know them.
-/

namespace StackScript.Arguments

/-- What a switch does. -/
inductive SwitchKind where
  | help
  | flag
  | value
  deriving DecidableEq, Repr

/-- A switch with the texts that stand for it; the last of them names it. -/
structure Switch where
  flags : List String
  kind : SwitchKind
  help : String
  deriving DecidableEq, Repr

def Switch.name (s : Switch) : String :=
  String.ofList ((s.flags.getLastD "").toList.dropWhile (· == '-'))

/-- How often the argument without a dash is given. -/
inductive Arity where
  | one
  | atMostOne
  /-- One, and all that comes after it. -/
  | rest
  deriving DecidableEq, Repr

/-- What a command takes. -/
structure Form where
  program : String
  description : String := ""
  switches : List Switch := []
  argument : String
  argumentHelp : String
  arity : Arity := .one
  /-- The words that the argument may be, each with its help; none if it may be any text. -/
  choices : List (String × String) := []

def helpSwitch : Switch := ⟨["-h", "--help"], .help, "show this help message and exit"⟩

def Form.allSwitches (form : Form) : List Switch := helpSwitch :: form.switches

/-- Why arguments are not taken. -/
inductive Refusal where
  | ambiguous (argument : String) (flags : List String)
  | noValue (s : Switch)
  | unusedValue (s : Switch) (value : String)
  | required (argument : String)
  | unknown (arguments : List String)
  | notChoice (argument word : String) (choices : List String)

def Refusal.message : Refusal → String
  | ambiguous argument flags =>
    "ambiguous option: " ++ argument ++ " could match " ++ ", ".intercalate flags
  | noValue s => "argument " ++ "/".intercalate s.flags ++ ": expected one argument"
  | unusedValue s value =>
    "argument " ++ "/".intercalate s.flags ++ ": ignored explicit argument " ++ Text.quoted value
  | required argument => "the following arguments are required: " ++ argument
  | unknown arguments => "unrecognized arguments: " ++ " ".intercalate arguments
  | notChoice argument word choices =>
    "argument " ++ argument ++ ": invalid choice: " ++ Text.quoted word ++ " (choose from " ++
      ", ".intercalate (choices.map Text.quoted) ++ ")"

/-- Why a command does not start: it only shows help, or its arguments are refused. -/
inductive Stop where
  | help (form : Form)
  | refused (form : Form) (cause : Refusal)

/-! ## Sorting arguments -/

/-- A value that is attached to a switch, and whether `=` stands between them. -/
structure Attached where
  afterEquals : Bool
  text : String

/-- What an argument is. -/
inductive Mark where
  | plain
  | dashes
  | switch (found : Option (Switch × String)) (attached : Option Attached)

def Form.switchOf? (form : Form) (flag : String) : Option (Switch × String) :=
  (form.allSwitches.find? (·.flags.contains flag)).map (·, flag)

def Form.flags (form : Form) : List (Switch × String) :=
  form.allSwitches.flatMap fun s => s.flags.map (s, ·)

def cutAtEquals (argument : String) : String × Option Attached :=
  let cs := argument.toList
  let front := cs.takeWhile (· ≠ '=')
  match cs.drop front.length with
  | [] => (argument, none)
  | _ :: value => (String.ofList front, some ⟨true, String.ofList value⟩)

/-- The switches that a text may stand for when it is cut short or has a value attached. -/
def Form.candidates (form : Form) (argument : String) :
    List ((Switch × String) × Option Attached) :=
  match argument.toList with
  | '-' :: '-' :: _ =>
    let (front, attached) := cutAtEquals argument
    (form.flags.filter fun f => front.toList.isPrefixOf f.2.toList).map (·, attached)
  | cs =>
    let short := String.ofList (cs.take 2)
    form.flags.filterMap fun f =>
      if f.2 == short then some (f, some ⟨false, String.ofList (cs.drop 2)⟩)
      else if cs.isPrefixOf f.2.toList then some (f, none)
      else none

def allDigits (cs : List Char) : Bool := cs.all fun c => (Text.decimalValue? c).isSome

def isNegativeNumber (argument : String) : Bool :=
  match argument.toList with
  | '-' :: cs =>
    let whole := cs.takeWhile (· ≠ '.')
    match cs.drop whole.length with
    | [] => !whole.isEmpty && allDigits whole
    | _ :: places => allDigits whole && !places.isEmpty && allDigits places
  | _ => false

def Form.mark (form : Form) (argument : String) : Except Stop Mark :=
  if argument.toList.head? ≠ some '-' then .ok .plain
  else match form.switchOf? argument with
    | some found => .ok (.switch (some found) none)
    | none =>
      if argument.length = 1 then .ok .plain
      else
        let (front, attached) := cutAtEquals argument
        match attached.bind fun _ => form.switchOf? front with
        | some found => .ok (.switch (some found) attached)
        | none =>
          match form.candidates argument with
          | [(found, attached)] => .ok (.switch (some found) attached)
          | [] =>
            if isNegativeNumber argument || argument.toList.contains ' ' then .ok .plain
            else .ok (.switch none none)
          | several => .error (.refused form (.ambiguous argument (several.map (·.1.2))))

def Form.marks (form : Form) : List String → Except Stop (List (String × Mark))
  | [] => .ok []
  | "--" :: rest => .ok (("--", .dashes) :: rest.map (·, .plain))
  | argument :: rest => do
    let mark ← form.mark argument
    return (argument, mark) :: (← form.marks rest)

/-! ## Taking arguments -/

/-- What has been taken from the arguments. -/
structure Taken where
  /-- The switches that were given, by name, each with its value, in order. -/
  settings : List (String × String) := []
  /-- The argument without a dash, with what follows it, once it has been taken. -/
  argument : Option (List String) := none
  /-- What fits nowhere. -/
  extras : List String := []

def Taken.value? (t : Taken) (name : String) : Option String :=
  (t.settings.reverse.find? (·.1 == name)).map (·.2)

def Taken.has (t : Taken) (name : String) : Bool := (t.value? name).isSome

def Taken.argument? (t : Taken) : Option String := t.argument.bind List.head?

def isSwitch (argument : String × Mark) : Bool :=
  match argument.2 with
  | .switch .. => true
  | _ => false

def isDashes (argument : String × Mark) : Bool :=
  match argument.2 with
  | .dashes => true
  | _ => false

/-- How many arguments the one without a dash takes at the start of a list. -/
def Arity.count? (arity : Arity) (arguments : List (String × Mark)) : Option Nat :=
  let before := (arguments.takeWhile isDashes).length
  let after := arguments.drop before
  let trailing (l : List (String × Mark)) : Nat := (l.takeWhile isDashes).length
  match arity, after with
  | .one, (_, .plain) :: more => some (before + 1 + trailing more)
  | .one, _ => none
  | .atMostOne, (_, .plain) :: more => some (before + 1 + trailing more)
  | .atMostOne, _ => some before
  | .rest, (_, .plain) :: _ => some arguments.length
  | .rest, _ => none

def Form.takeArgument (form : Form) (t : Taken) (arguments : List (String × Mark)) :
    Taken × List (String × Mark) :=
  match t.argument, form.arity.count? arguments with
  | none, some count =>
    let texts := (arguments.take count).map (·.1)
    let texts := if form.arity = .rest then texts else texts.erase "--"
    ({ t with argument := some texts }, arguments.drop count)
  | _, _ => (t, arguments)

def Form.enter (form : Form) (t : Taken) (s : Switch) (value : String) : Except Stop Taken :=
  match s.kind with
  | .help => .error (.help form)
  | _ => .ok { t with settings := t.settings ++ [(s.name, value)] }

def Form.enterAll (form : Form) (t : Taken) : List Switch → Except Stop Taken
  | [] => .ok t
  | s :: rest => do form.enterAll (← form.enter t s "") rest

/-- Takes the last switch behind a dash, to which nothing is attached: its value is the next
argument. `before` are the switches that came first, behind the same dash. -/
def Form.takeLast (form : Form) (t : Taken) (before : List Switch) (s : Switch)
    (following : List (String × Mark)) : Except Stop (Taken × List (String × Mark)) :=
  if s.kind = .value then
    match following with
    | (value, .plain) :: following => do
      return (← form.enter (← form.enterAll t before) s value, following)
    | _ => .error (.refused form (.noValue s))
  else do return (← form.enterAll t (before ++ [s]), following)

/-- Takes a switch to which a text is attached. The text is its value, or else it holds more short
switches. -/
def Form.takeAttached (form : Form) (t : Taken) (before : List Switch) (s : Switch)
    (flag : String) (afterEquals : Bool) (text : List Char) (following : List (String × Mark)) :
    Except Stop (Taken × List (String × Mark)) :=
  if s.kind = .value then do
    return (← form.enter (← form.enterAll t before) s (String.ofList text), following)
  else
    let unused : Except Stop (Taken × List (String × Mark)) :=
      .error (.refused form (.unusedValue s (String.ofList text)))
    match text with
    | [] => unused
    | c :: rest =>
      if afterEquals || c = '-' || flag.toList[1]? = some '-' then unused
      else
        let before := before ++ [s]
        let next := String.ofList ['-', c]
        match form.switchOf? next with
        | none => do
          let t ← form.enterAll t before
          return ({ t with extras := t.extras ++ [String.ofList ('-' :: text)] }, following)
        | some (s, _) =>
          match rest with
          | '=' :: value => form.takeAttached t before s next true value following
          | c :: rest => form.takeAttached t before s next false (c :: rest) following
          | [] => form.takeLast t before s following
termination_by text.length

def Form.takeSwitch (form : Form) (t : Taken) (argument : String)
    (found : Option (Switch × String)) (attached : Option Attached)
    (following : List (String × Mark)) : Except Stop (Taken × List (String × Mark)) :=
  match found, attached with
  | none, _ => .ok ({ t with extras := t.extras ++ [argument] }, following)
  | some (s, flag), some a => form.takeAttached t [] s flag a.afterEquals a.text.toList following
  | some (s, _), none => form.takeLast t [] s following

/-- Takes arguments as long as there are switches among them, then the rest; each round takes at
least one. -/
def Form.takeAll (form : Form) : Nat → Taken → List (String × Mark) → Except Stop Taken
  | 0, t, _ => .ok t
  | fuel + 1, t, arguments =>
    if arguments.any isSwitch then
      match arguments with
      | (argument, .switch found attached) :: rest => do
        let (t, rest) ← form.takeSwitch t argument found attached rest
        form.takeAll fuel t rest
      | _ =>
        let (t, rest) := form.takeArgument t arguments
        if rest.length < arguments.length then form.takeAll fuel t rest
        else
          let front := rest.takeWhile fun a => !isSwitch a
          form.takeAll fuel { t with extras := t.extras ++ front.map (·.1) }
            (rest.drop front.length)
    else
      let (t, rest) := form.takeArgument t arguments
      .ok { t with extras := t.extras ++ rest.map (·.1) }

/-- Takes the arguments of a form; what it does not know is kept. -/
def Form.takeKnown (form : Form) (arguments : List String) : Except Stop Taken := do
  let t ← form.takeAll (arguments.length + 1) {} (← form.marks arguments)
  if t.argument.isNone && form.arity = .one then throw (.refused form (.required form.argument))
  return t

def Form.finish (form : Form) (t : Taken) : Except Stop Taken :=
  if t.extras.isEmpty then .ok t else .error (.refused form (.unknown t.extras))

def Form.take (form : Form) (arguments : List String) : Except Stop Taken := do
  form.finish (← form.takeKnown arguments)

/-- Takes the arguments of a command that has commands of its own, each with its form. -/
def Form.takeCommand (form : Form) (forms : List (String × Form)) (arguments : List String) :
    Except Stop (Option String × Taken) := do
  let t ← form.takeKnown arguments
  match t.argument with
  | some (word :: rest) =>
    match forms.lookup word with
    | none => throw (.refused form (.notChoice form.argument word (forms.map (·.1))))
    | some inner =>
      let found ← inner.takeKnown rest
      return (some word, ← form.finish { found with extras := t.extras ++ found.extras })
  | _ => return (none, ← form.finish t)

end StackScript.Arguments

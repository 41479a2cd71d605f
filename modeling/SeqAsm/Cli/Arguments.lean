import SeqAsm.Text.Numeral

/-!
Command lines. A grammar has options and slots for operands. A word that starts with a dash is an
option unless it is a negative number; the word `--` makes operands of all words after it. A long
option may be cut short while one option alone is meant, and its value may follow `=`. Short
options that take no value may be put together, and a value may follow its short option at once.

Words are read from left to right, and the first one that ends the reading does so, even if a
later one does not fit the grammar. A word that could mean several options never fits.
-/

namespace SeqAsm.Cli

inductive Ending where
  /-- It does not fit the grammar. -/
  | misuse
  /-- It asks for a text about the program. -/
  | shown (text : String)
  deriving DecidableEq, Repr

/-- What a word does to the settings read so far. -/
abbrev Act (σ : Type) := σ → Except Ending σ

inductive Effect (σ : Type) where
  | flag (act : Act σ)
  | valued (act : String → Act σ)

structure Opt (σ : Type) where
  names : List String
  effect : Effect σ

/-- What operands a command wants in a place. -/
inductive Slot (σ : Type) where
  /-- One operand; `none` when a second `--` stands in its place. -/
  | one (act : Option String → Act σ)
  /-- One or more operands in a row. -/
  | some (act : String → Act σ)
  /-- More operands in the row of those before. -/
  | more (act : String → Act σ)
  /-- An operand and all words after it; there need not be any. -/
  | rest (act : List String → Act σ)

structure Grammar (σ : Type) where
  options : List (Opt σ)
  slots : List (Slot σ)

/-- What a word means in front of `--`. -/
inductive Word (σ : Type) where
  | operand
  /-- Options that are complete; `stray` when an unknown one is among them. -/
  | acts (acts : List (Act σ)) (stray : Bool)
  /-- Options of which the last takes the next word as its value. -/
  | awaiting (acts : List (Act σ)) (act : String → Act σ)
  /-- An option that is not used as it must be. -/
  | unfit
  /-- A cut option that could be several. -/
  | ambiguous

/-- Whether a word is a negative number in digits, perhaps with a fraction. A line feed may
follow it. -/
def isNegativeNumber (word : List Char) : Bool :=
  match word with
  | '-' :: cs =>
    let body := if cs.getLast? = some '\n' then cs.dropLast else cs
    match body.dropWhile Text.isDigit with
    | [] => !body.isEmpty
    | '.' :: fraction => !fraction.isEmpty && fraction.all Text.isDigit
    | _ => false
  | _ => false

def splitValue (word : List Char) : List Char × Option (List Char) :=
  match word.dropWhile (· != '=') with
  | [] => (word, none)
  | _ :: value => (word.takeWhile (· != '='), some value)

def runActs (acts : List (Act σ)) (s : σ) : Except Ending σ := acts.foldlM (fun s act => act s) s

namespace Grammar

def find? (g : Grammar σ) (name : String) : Option (Opt σ) :=
  g.options.find? fun o => o.names.contains name

/-- Reads the letters put together after short options that take no value. -/
def cluster (g : Grammar σ) (acts : List (Act σ)) : List Char → Word σ
  | [] => .unfit
  | c :: cs =>
    if c = '-' then .unfit
    else
      match g.find? (String.ofList ['-', c]) with
      | none => .acts acts true
      | some o =>
        match o.effect, cs with
        | .flag act, [] => .acts (acts ++ [act]) false
        | .flag _, '=' :: _ => .unfit
        | .flag act, cs => g.cluster (acts ++ [act]) cs
        | .valued act, [] => .awaiting acts act
        | .valued act, '=' :: value => .acts (acts ++ [act (String.ofList value)]) false
        | .valued act, value => .acts (acts ++ [act (String.ofList value)]) false

def plain (o : Opt σ) : Word σ :=
  match o.effect with
  | .flag act => .acts [act] false
  | .valued act => .awaiting [] act

/-- An option with a value after `=`. -/
def assigned (o : Opt σ) (value : List Char) : Word σ :=
  match o.effect with
  | .flag _ => .unfit
  | .valued act => .acts [act (String.ofList value)] false

/-- A short option with more characters after it. -/
def extended (g : Grammar σ) (o : Opt σ) (more : List Char) : Word σ :=
  match o.effect with
  | .flag act => g.cluster [act] more
  | .valued act => .acts [act (String.ofList more)] false

/-- What a word may mean that is no option as it stands. -/
def readings (g : Grammar σ) (word : List Char) : List (Word σ) :=
  match word with
  | '-' :: '-' :: _ =>
    let (name, value) := splitValue word
    g.options.flatMap fun o =>
      (o.names.filter fun n => name.isPrefixOf n.toList).map fun _ =>
        value.elim (plain o) (assigned o)
  | '-' :: c :: more =>
    (g.options.filter fun o => o.names.contains (String.ofList ['-', c])).map (g.extended · more)
  | _ => []

def meaning (g : Grammar σ) (text : String) : Word σ :=
  let word := text.toList
  match word with
  | '-' :: _ :: _ =>
    match g.find? text with
    | some o => plain o
    | none =>
      let (name, value) := splitValue word
      match g.find? (String.ofList name), value with
      | some o, some value => assigned o value
      | _, _ =>
        match g.readings word with
        | [] => if isNegativeNumber word || word.contains ' ' then .operand else .acts [] true
        | [reading] => reading
        | _ => .ambiguous
  | _ => .operand

def isAmbiguous (g : Grammar σ) (text : String) : Bool :=
  match g.meaning text with
  | .ambiguous => true
  | _ => false

def isValue (g : Grammar σ) (text : String) : Bool :=
  match g.meaning text with
  | .operand => true
  | _ => false

def endRow : List (Slot σ) → List (Slot σ)
  | .more _ :: slots => slots
  | slots => slots

def isOptional : Slot σ → Bool
  | .one _ | .some _ => false
  | .more _ | .rest _ => true

/-- The settings at the end of a line; `stray` when it had a word that fits nowhere. -/
def finish (slots : List (Slot σ)) (stray : Bool) (s : σ) : Except Ending σ :=
  if stray || !slots.all isOptional then .error .misuse else .ok s

def readOperands (slots : List (Slot σ)) (stray : Bool) (s : σ) : List String → Except Ending σ
  | [] => finish slots stray s
  | w :: ws =>
    match slots with
    | [] => readOperands [] true s ws
    | .one act :: slots => do
      readOperands slots stray (← act (if w = "--" then none else some w) s) ws
    | .some act :: slots | .more act :: slots => do
      readOperands (.more act :: slots) stray (← act w s) ws
    | .rest act :: slots => do finish slots stray (← act (w :: ws) s)

/-- Reads `--` and the words after it. It belongs to the operand that follows it. -/
def readSeparator (slots : List (Slot σ)) (stray : Bool) (s : σ) (ws : List String) :
    Except Ending σ :=
  match slots, ws with
  | .one act :: slots, w :: ws => do readOperands slots stray (← act (some w) s) ws
  | .rest act :: slots, _ :: _ => do finish slots stray (← act ("--" :: ws) s)
  | .some _ :: _, _ :: _ | .more _ :: _, _ => readOperands slots stray s ws
  | _, _ => readOperands slots true s ws

def readWords (g : Grammar σ) (slots : List (Slot σ)) (stray : Bool) (s : σ) :
    List String → Except Ending σ
  | [] => finish slots stray s
  | "--" :: ws => readSeparator slots stray s ws
  | w :: ws =>
    match g.meaning w with
    | .unfit | .ambiguous => .error .misuse
    | .acts acts unknown => do
      g.readWords (endRow slots) (stray || unknown) (← runActs acts s) ws
    | .awaiting acts act =>
      match ws with
      | [] => .error .misuse
      | v :: ws =>
        if v != "--" && g.isValue v then do
          g.readWords (endRow slots) stray (← act v (← runActs acts s)) ws
        else .error .misuse
    | .operand =>
      match slots, ws with
      | [], ws => g.readWords [] true s ws
      | .one act :: slots, "--" :: ws => do readOperands slots stray (← act (some w) s) ws
      | .one act :: slots, ws => do g.readWords slots stray (← act (some w) s) ws
      | .some act :: slots, ws | .more act :: slots, ws => do
        g.readWords (.more act :: slots) stray (← act w s) ws
      | .rest act :: slots, ws => do finish slots stray (← act (w :: ws) s)

def read (g : Grammar σ) (s : σ) (words : List String) : Except Ending σ :=
  if (words.takeWhile (· != "--")).any g.isAmbiguous then .error .misuse
  else g.readWords g.slots false s words

end Grammar

end SeqAsm.Cli

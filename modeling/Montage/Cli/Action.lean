import Montage.Cli.Arguments
import Montage.Disk.Path

/-!
Contract: the commands of the command line.

Owns: the commands with their values, their grammars, and the reading of a whole command line.

Does **not** own: what a command does (`Montage.Cli.Run`).
-/

set_option autoImplicit false

namespace Montage.Cli

/-- An edit of one element, named by a text that identifies it, or the adding of a text. -/
inductive EditRequest where
  | addText (text : String)
  | split (id : String) (position : Float)
  | trimStart (id : String) (sourceIn : Float)
  | trimEnd (id : String) (sourceOut : Float)
  | move (id : String) (start : Float)
  | resize (id : String) (stop : Float)
  | duplicate (id : String)
  | delete (id : String)

/-- What the user asks for. -/
inductive Action where
  | init (name : String) (directory : Option Path)
  | importMedia (root file : Path)
  | edit (root : Path) (request : EditRequest)
  | drag (root : Path) (id handle : String) (offsets : List Float)
  | info (root : Path)
  | validate (root : Path)
  | compile (root : Path) (json allowEmpty : Bool)
  | render (root : Path) (output : Option Path) (quality speed : Option String) (allowEmpty : Bool)
  | check

/-- A command line that was understood. -/
structure Invocation where
  verbose : Bool
  action : Action

/-! ## Grammars -/

def helpFlag : Flag := { long := "help", letter := some 'h' }

def versionFlag : Flag := { long := "version", letter := some 'V' }

def verboseFlag : Flag := { long := "verbose", letter := some 'v' }

def outputFlag : Flag := { long := "output", letter := some 'o', shape := some .path }

def grammar (shapes : List Shape) (flags : List Flag) : Grammar :=
  { operands := shapes.map fun shape => { shape }, flags := flags ++ [verboseFlag, helpFlag] }

/-- What may stand in front of a command. -/
def leadingGrammar : Grammar :=
  { operands := [], flags := [verboseFlag, helpFlag, versionFlag] }

/-- The grammar of dragging: offsets may be negative. -/
def dragGrammar : Grammar :=
  let g := grammar [.path, .text] [{ long := "handle", shape := some .text }]
  { g with
    operands := g.operands ++ [{ shape := .number, repeats := true, mayBeNegative := true }] }

def numberOf (text : String) : Float := (Layout.read? text).getD 0

/-- A command: its grammar and the action it stands for, given what was found. -/
structure CommandForm where
  grammar : Grammar
  action : Found → Option Action

def elementForm (request : String → EditRequest) : CommandForm :=
  { grammar := grammar [.path, .text] []
    action := fun found =>
      match found.operands with
      | [root, id] => some (.edit ⟨root⟩ (request id))
      | _ => none }

def valueForm (request : String → Float → EditRequest) : CommandForm :=
  { grammar := grammar [.path, .text, .number] []
    action := fun found =>
      match found.operands with
      | [root, id, value] => some (.edit ⟨root⟩ (request id (numberOf value)))
      | _ => none }

def projectForm (flags : List Flag) (action : Path → Found → Action) : CommandForm :=
  { grammar := grammar [.path] flags
    action := fun found =>
      match found.operands with
      | [root] => some (action ⟨root⟩ found)
      | _ => none }

def initForm : CommandForm :=
  { grammar := grammar [.text] [outputFlag]
    action := fun found =>
      match found.operands with
      | [name] => some (.init name ((found.flag? "output").map Path.mk))
      | _ => none }

def importForm : CommandForm :=
  { grammar := grammar [.path, .path] []
    action := fun found =>
      match found.operands with
      | [root, file] => some (.importMedia ⟨root⟩ ⟨file⟩)
      | _ => none }

def dragForm : CommandForm :=
  { grammar := dragGrammar
    action := fun found =>
      match found.operands with
      | root :: id :: offsets =>
        some (.drag ⟨root⟩ id ((found.flag? "handle").getD "body") (offsets.map numberOf))
      | _ => none }

def allowEmptyFlag : Flag := { long := "allow-empty" }

def compileForm : CommandForm :=
  projectForm [{ long := "json" }, allowEmptyFlag] fun root found =>
    .compile root (found.has "json") (found.has "allow-empty")

def exportForm : CommandForm :=
  projectForm
    [outputFlag, { long := "quality", shape := some .text }, { long := "speed", shape := some .text },
     allowEmptyFlag]
    fun root found =>
      .render root ((found.flag? "output").map Path.mk) (found.flag? "quality")
        (found.flag? "speed") (found.has "allow-empty")

def checkForm : CommandForm :=
  { grammar := grammar [] [], action := fun _ => some .check }

def commands : List (String × CommandForm) :=
  [("init", initForm), ("import", importForm), ("add-text", elementForm fun text => .addText text),
   ("split", valueForm .split), ("trim-start", valueForm .trimStart),
   ("trim-end", valueForm .trimEnd), ("move", valueForm .move), ("resize", valueForm .resize),
   ("drag", dragForm), ("duplicate", elementForm .duplicate), ("delete", elementForm .delete),
   ("info", projectForm [] fun root _ => .info root),
   ("validate", projectForm [] fun root _ => .validate root), ("compile", compileForm),
   ("export", exportForm), ("check", checkForm)]

def readCommand (leading : Found) (form : CommandForm) (list : List String) : Reading Invocation :=
  (form.grammar.read list).andThen fun found =>
    match form.action found with
    | some action => .read { verbose := leading.has "verbose" || found.has "verbose", action }
    | none => .misuse

def readHelp (list : List String) : Reading Invocation :=
  match list with
  | [] => .help
  | [name] => if name == "help" || (commands.lookup name).isSome then .help else .misuse
  | _ => .misuse

def readCommandLine (list : List String) : Reading Invocation :=
  (leadingFlags leadingGrammar ⟨[], []⟩ list).andThen fun (leading, name, rest) =>
    if name == "help" then readHelp rest
    else
      match commands.lookup name with
      | some form => readCommand leading form rest
      | none => .misuse

end Montage.Cli

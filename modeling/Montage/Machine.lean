import Montage.Host

/-!
Contract: a system given as a value.

Owns: the state of such a system and the answers it gives to the requests of `Montage.Host`.

A program is a function of its arguments and of the disk. The time of day stands still, and the moments that
pass by while the system runs are given beforehand.
-/

set_option autoImplicit false

namespace Montage

/-- A program: from its arguments and the disk to how it ends and what it leaves on the disk. -/
abbrev Program := List String → Disk → Finished × Disk

/-- A program that always ends in the same way and changes nothing. -/
def Program.answering (finished : Finished) : Program := fun _ disk => (finished, disk)

/-- A program that notes its arguments in a file, one a line, and goes on as another one. -/
def Program.noting (notes : Place) (program : Program) : Program := fun arguments disk =>
  let lines := String.join (arguments.map fun argument => argument ++ "\n")
  program arguments (disk.put notes (.file lines.toUTF8))

/-- The state of a system. -/
structure Machine where
  disk : Disk
  /-- The program in the file at a place, if the file is one. -/
  programs : Place → Option Program
  /-- The command interpreter: from a text and the disk to how it ends and what it leaves on the disk. -/
  interpreter : String → Disk → Finished × Disk
  /-- The directories in which programs are looked for. -/
  searchPath : List Path
  environment : String → Option String
  temporary : Path
  supply : IdSupply
  clock : Timestamp
  /-- The moments at which the time is going to be asked for; zero once they are used up. -/
  moments : List Nat := []
  output : String
  complaints : String

namespace Machine

/-- The program at a path, or why it cannot be run. -/
def programAt (machine : Machine) (p : Path) : Except DiskError Program :=
  match machine.disk.resolve p with
  | .error e => .error e
  | .ok place =>
    match machine.disk.node? place, machine.programs place with
    | none, _ => .error .notFound
    | some _, some program => .ok program
    | some _, none => .error .accessDenied

/-- The first program of a name in some directories. A file that is no program is only blamed if there
is no program; a name that cannot be one ends the search. -/
def programIn (machine : Machine) (name : String) (blame : DiskError) :
    List Path → Except DiskError Program
  | [] => .error blame
  | directory :: rest =>
    match machine.programAt (directory.join name) with
    | .ok program => .ok program
    | .error .accessDenied => programIn machine name .accessDenied rest
    | .error .nameTooLong => .error .nameTooLong
    | .error _ => programIn machine name blame rest

/-- The program that a name means: a path if it holds a slash, else a name to be looked for. -/
def program (machine : Machine) (name : String) : Except DiskError Program :=
  if name.isEmpty then .error .notFound
  else if name.toList.contains '/' then machine.programAt ⟨name⟩
  else machine.programIn name .notFound machine.searchPath

def runProgram (machine : Machine) (name : String) (arguments : List String) :
    Except DiskError Finished × Machine :=
  if (name :: arguments).any fun argument => argument.toList.contains '\x00' then
    (.error .zeroInArgument, machine)
  else
    match machine.program name with
    | .error e => (.error e, machine)
    | .ok program =>
      let (finished, disk) := program arguments machine.disk
      (.ok finished, { machine with disk })

def interpret (machine : Machine) (text : String) : Except DiskError ExitStatus × Machine :=
  if text.toList.contains '\x00' then (.error .zeroInArgument, machine)
  else
    let (finished, disk) := machine.interpreter text machine.disk
    (.ok finished.status,
      { machine with
        disk
        output := machine.output ++ Text.Utf8.shown finished.output
        complaints := machine.complaints ++ Text.Utf8.shown finished.errors })

/-- Makes a change to the disk, unless it is refused. -/
def change (machine : Machine) (made : Except DiskError Disk) : Except DiskError Unit × Machine :=
  match made with
  | .ok disk => (.ok (), { machine with disk })
  | .error e => (.error e, machine)

/-- An environment variable of a machine; two of them follow from the rest of its state. -/
def setting? (machine : Machine) (name : String) : Option String :=
  match name with
  | "PATH" => some (":".intercalate (machine.searchPath.map (·.text)))
  | "PWD" => some ("/" ++ "/".intercalate machine.disk.working)
  | _ => machine.environment name

/-- Takes away what a path leads to. -/
def remove (machine : Machine) (p : Path) : Except DiskError Unit × Machine :=
  machine.change (machine.disk.remove p)

/-- The moment at which the time is asked for. -/
def tick (machine : Machine) : Nat × Machine :=
  match machine.moments with
  | [] => (0, machine)
  | now :: moments => (now, { machine with moments })

def withIds {β : Type} (machine : Machine) (use : IdSupply → β × IdSupply) : β × Machine :=
  let (value, supply) := use machine.supply
  (value, { machine with supply })

instance : Host (StateM Machine) where
  kind? p := fun machine => (machine.disk.kind? p, machine)
  readFile p := fun machine => (machine.disk.read p, machine)
  writeFile p content := fun machine => machine.change (machine.disk.write p content)
  openToAppend p := fun machine => machine.change (machine.disk.openToAppend p)
  makeDirectory p := fun machine => machine.change (machine.disk.makeDirectory p)
  removeDirectory p := fun machine => machine.change (machine.disk.removeDirectory p)
  run name arguments := fun machine => machine.runProgram name arguments
  interpret text := fun machine => machine.interpret text
  environment? name := fun machine => (machine.setting? name, machine)
  withIds use := fun machine => machine.withIds use
  now := fun machine => (machine.clock, machine)
  ticks := fun machine => machine.tick
  temporary := fun machine => (machine.temporary, machine)
  print text := fun machine => ((), { machine with output := machine.output ++ text })
  complain text := fun machine => ((), { machine with complaints := machine.complaints ++ text })

end Machine

end Montage

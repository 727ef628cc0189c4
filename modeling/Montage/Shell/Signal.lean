/-!
Contract: signals.

Owns: their names, what they are called when they end a program, and those that end none.
-/

set_option autoImplicit false

namespace Montage.Shell.Signal

/-- The names of all signals; the one at the beginning stands for the end of the interpreter. -/
def names : List String :=
  ["EXIT", "HUP", "INT", "QUIT", "ILL", "TRAP", "ABRT", "BUS", "FPE", "KILL", "USR1", "SEGV", "USR2",
   "PIPE", "ALRM", "TERM", "16", "CHLD", "CONT", "STOP", "TSTP", "TTIN", "TTOU", "URG", "XCPU", "XFSZ",
   "VTALRM", "PROF", "WINCH", "IO", "PWR", "SYS", "32", "33", "RTMIN"]
    ++ (List.range 15).map (fun n => "RTMIN+" ++ toString (n + 1))
    ++ (List.range 14).map (fun n => "RTMAX-" ++ toString (14 - n)) ++ ["RTMAX"]

def exit : Nat := 0

def beyondBounds : Nat := 8

def noReader : Nat := 13

def terminate : Nat := 15

def name (signal : Nat) : String := names.getD signal ""

def digits? (text : String) : Option Nat :=
  if text.isEmpty || !text.toList.all Char.isDigit then none else text.toNat?

def ofNumber? (text : String) : Option Nat := (digits? text).filter (· < names.length)

/-- The signal of a number or, in any letter case, a name; the first ones may be left out. -/
def ofText? (least : Nat) (text : String) : Option Nat :=
  match ofNumber? text with
  | some n => some n
  | none =>
    (List.range names.length).find? fun n => least ≤ n && (name n).toLower == text.toLower

/-- The signals that end nothing unless something is to be done about them. -/
def isHarmless (signal : Nat) : Bool := [0, 17, 18, 19, 20, 21, 22, 23, 28].contains signal

def isFinal (signal : Nat) : Bool := signal == 9 || signal == 19

def text (signal : Nat) : String :=
  let known : List (Nat × String) :=
    [(1, "Hangup"), (2, "Interrupt"), (3, "Quit"), (4, "Illegal instruction"),
     (5, "Trace/breakpoint trap"), (6, "Aborted"), (7, "Bus error"), (8, "Floating point exception"),
     (9, "Killed"), (10, "User defined signal 1"), (11, "Segmentation fault"),
     (12, "User defined signal 2"), (13, "Broken pipe"), (14, "Alarm clock"), (15, "Terminated"),
     (16, "Stack fault"), (19, "Stopped (signal)"), (24, "CPU time limit exceeded"),
     (25, "File size limit exceeded"), (26, "Virtual timer expired"), (27, "Profiling timer expired"),
     (29, "I/O possible"), (30, "Power failure"), (31, "Bad system call")]
  if 34 ≤ signal then "Real-time signal " ++ toString (signal - 34)
  else (known.lookup signal).getD ("Unknown signal " ++ toString signal)

/-- Whether nothing is said of a program that a signal has ended. -/
def isQuiet (signal : Nat) : Bool := signal == 2 || signal == 13

end Montage.Shell.Signal

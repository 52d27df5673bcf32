/-!
# Signals

The signals by number, name and the text that a shell prints when one has ended a program.
-/
namespace Shellwright.Shell.Signal

/-- Signals are counted from one; there are 64. -/
def count : Nat := 64

/-- The names of the signals that the system has a use for. One of them has none but its number. -/
def systemNames : List String :=
  ["HUP", "INT", "QUIT", "ILL", "TRAP", "ABRT", "BUS", "FPE", "KILL", "USR1", "SEGV", "USR2",
   "PIPE", "ALRM", "TERM", "16", "CHLD", "CONT", "STOP", "TSTP", "TTIN", "TTOU", "URG",
   "XCPU", "XFSZ", "VTALRM", "PROF", "WINCH", "IO", "PWR", "SYS"]

/-- The name of a signal. The upper half is counted from both ends. -/
def name (signal : Nat) : String :=
  match systemNames[signal - 1]? with
  | some name => name
  | none =>
    if signal < 34 then toString signal
    else if signal = 34 then "RTMIN"
    else if signal < 50 then "RTMIN+" ++ toString (signal - 34)
    else if signal < 64 then "RTMAX-" ++ toString (64 - signal)
    else "RTMAX"

/-- What is said of a program that a signal has ended. -/
def systemTexts : List String :=
  ["Hangup", "Interrupt", "Quit", "Illegal instruction", "Trace/breakpoint trap", "Aborted",
   "Bus error", "Floating point exception", "Killed", "User defined signal 1",
   "Segmentation fault", "User defined signal 2", "Broken pipe", "Alarm clock", "Terminated",
   "Stack fault", "Child exited", "Continued", "Stopped (signal)", "Stopped",
   "Stopped (tty input)", "Stopped (tty output)", "Urgent I/O condition",
   "CPU time limit exceeded", "File size limit exceeded", "Virtual timer expired",
   "Profiling timer expired", "Window changed", "I/O possible", "Power failure",
   "Bad system call"]

def text (signal : Nat) : String :=
  match systemTexts[signal - 1]? with
  | some text => text
  | none =>
    if signal < 34 then "Unknown signal " ++ toString signal
    else "Real-time signal " ++ toString (signal - 34)

def interrupt : Nat := 2

def brokenPipe : Nat := 13

def terminate : Nat := 15

/-- The signals that a shell says nothing about. -/
def isSilent (signal : Nat) : Bool := signal = interrupt || signal = brokenPipe

/-- The signals that a program lives through; number zero only asks whether it is there. Those that
would stop it for others to start again are among them. -/
def isHarmless (signal : Nat) : Bool := [0, 17, 18, 19, 20, 21, 22, 23, 28].contains signal

/-- The signal with a given number or name, in either case of letters. -/
def ofText? (text : String) : Option Nat :=
  if text ≠ "" ∧ text.all Char.isDigit then text.toNat?.filter (· ≤ count)
  else (List.range count).findSome? fun i =>
    if name (i + 1) = text.map Char.toUpper then some (i + 1) else none

end Shellwright.Shell.Signal

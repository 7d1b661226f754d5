import Montage.Machine.Job
import Montage.Text.Utf8

/-! How programs end, in words, and what they printed. -/

namespace Montage

def signalNames : List String :=
  ["SIGHUP", "SIGINT", "SIGQUIT", "SIGILL", "SIGTRAP", "SIGABRT", "SIGBUS", "SIGFPE", "SIGKILL",
    "SIGUSR1", "SIGSEGV", "SIGUSR2", "SIGPIPE", "SIGALRM", "SIGTERM", "SIGSTKFLT", "SIGCHLD",
    "SIGCONT", "SIGSTOP", "SIGTSTP", "SIGTTIN", "SIGTTOU", "SIGURG", "SIGXCPU", "SIGXFSZ",
    "SIGVTALRM", "SIGPROF", "SIGWINCH", "SIGIO", "SIGPWR", "SIGSYS"]

namespace Ending

/-- The exit code of a program that ended by itself. -/
def code : Ending → Option Int
  | exited code => some code
  | signalled _ | timedOut => none

def describe : Ending → String
  | exited code => "exit status: " ++ toString code
  | signalled signal =>
    "signal: " ++ toString signal ++
      match (signal, signalNames[signal - 1]?) with
      | (0, _) | (_, none) => ""
      | (_, some name) => " (" ++ name ++ ")"
  | timedOut => "timeout"

end Ending

/-- What came of running the engine, with its output as text. -/
inductive Outcome where
  | completed (code : Option Int) (stdout stderr : String)
  | timedOut (stdout stderr : String)
  deriving DecidableEq

namespace Outcome

def ofFinished (finished : Finished) : Outcome :=
  let stdout := Text.lossy finished.stdout
  let stderr := Text.lossy finished.stderr
  match finished.ending with
  | .timedOut => .timedOut stdout stderr
  | ending => .completed ending.code stdout stderr

def stdout : Outcome → String
  | completed _ stdout _ | timedOut stdout _ => stdout

def stderr : Outcome → String
  | completed _ _ stderr | timedOut _ stderr => stderr

def isSuccess : Outcome → Bool
  | completed (some 0) _ _ => true
  | _ => false

end Outcome

end Montage

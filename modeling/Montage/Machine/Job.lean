import Montage.Instant.Basic
import Montage.Machine.Disk
import Montage.Machine.Identifier

/-! Work that asks a machine for something step by step. A job is a tree of such steps, so that it
can be run on a machine, run beside others, or run on a machine that fails. -/

namespace Montage

inductive Ending where
  | exited (code : Int)
  | signalled (signal : Nat)
  /-- It did not end in time and was stopped. -/
  | timedOut
  deriving DecidableEq, Repr

/-- What is left of a program that ran. -/
structure Finished where
  ending : Ending
  stdout : ByteArray := .empty
  stderr : ByteArray := .empty

inductive Action where
  /-- Whether there is a program of that name. -/
  | findProgram (name : String)
  /-- Makes a new directory below another one and tells its path. -/
  | makeWorkspace (parent : String)
  | makeDirectories (path : String)
  | write (path : String) (content : ByteArray)
  | createNew (path : String)
  | append (path : String) (content : ByteArray)
  | read (path : String)
  | isThere (path : String)
  | size (path : String)
  | remove (path : String)
  | removeTree (path : String)
  | now
  /-- Runs a program and waits for its end, or until the limit in milliseconds is over. -/
  | runProgram (program : String) (arguments : List String) (limit : Option Nat)
  /-- A text that was never given out before. -/
  | freshId

/-- What a step is answered with. -/
@[reducible] def Action.Reply : Action → Type
  | findProgram _ | isThere _ => Bool
  | makeWorkspace _ => Except DiskFault String
  | makeDirectories _ | write _ _ | createNew _ | append _ _ | remove _ => Except DiskFault Unit
  | read _ => Except DiskFault ByteArray
  | size _ => Option Nat
  | removeTree _ => Unit
  | now => Instant
  | runProgram _ _ _ => Except DiskFault Finished
  | freshId => String

/-- Work that ends in a value. -/
inductive Job (α : Type) where
  | done (value : α)
  | act (action : Action) (next : action.Reply → Job α)

namespace Job

def bind : Job α → (α → Job β) → Job β
  | done value, next => next value
  | act action rest, next => act action fun reply => (rest reply).bind next

instance : Monad Job where
  pure := done
  bind := bind

def ask (action : Action) : Job action.Reply :=
  act action done

theorem bind_done (job : Job α) : job.bind done = job := by
  induction job with
  | done => rfl
  | act action next ih => simp only [bind, ih]

theorem bind_assoc (job : Job α) (first : α → Job β) (second : β → Job γ) :
    (job.bind first).bind second = job.bind fun value => (first value).bind second := by
  induction job with
  | done => rfl
  | act action next ih => simp only [bind, ih]

instance : LawfulMonad Job :=
  LawfulMonad.mk' Job
    (fun job => bind_done job)
    (fun _ _ => rfl)
    (fun job first second => bind_assoc job first second)

end Job

/-- What a program does when it is started: what it prints, what it writes to the file that its last
argument names, and how it ends. -/
structure Behaviour where
  stdout : ByteArray := .empty
  stderr : ByteArray := .empty
  writes : Option ByteArray := none
  ending : Ending := .exited 0

/-- A program on a machine. One that is there may still fail to start. -/
structure Program where
  startable : Bool := true
  behave : Disk → List String → Behaviour

/-- A program that was started, with its arguments and the disk it found. -/
structure Launch where
  program : String
  arguments : List String
  disk : Disk

/-- The machine that jobs run on. -/
structure Machine where
  disk : Disk := {}
  programs : List (String × Program) := []
  clock : Instant := ⟨0, 0⟩
  /-- The programs started so far, in order. -/
  launches : List Launch := []
  /-- How many identifiers were given out. -/
  identifiers : Nat := 0

namespace Machine

/-- The machine after a change to its disk, or as it was if that failed. -/
def change (machine : Machine) : Except DiskFault Disk → Except DiskFault Unit × Machine
  | .ok disk => (.ok (), { machine with disk })
  | .error fault => (.error fault, machine)

/-- The first of the names `render-0`, `render-1`, … that is free below a directory. The number of
entries on the disk bounds how many can be taken. -/
def freeWorkspace (disk : Disk) (parent : String) : Nat → Nat → String
  | 0, number => Path.join parent ("render-" ++ toString number)
  | left + 1, number =>
    let path := Path.join parent ("render-" ++ toString number)
    if disk.exists? path then freeWorkspace disk parent left (number + 1) else path

def makeWorkspace (machine : Machine) (parent : String) : Except DiskFault String × Machine :=
  let path := freeWorkspace machine.disk parent machine.disk.entries.length 0
  match machine.disk.locate path with
  | .error fault => (.error fault, machine)
  | .ok place => (.ok path, { machine with disk := machine.disk.put place .directory })

def runProgram (machine : Machine) (name : String) (arguments : List String) :
    Except DiskFault Finished × Machine :=
  if (name :: arguments).any (·.toList.contains '\x00') then (.error .unusableArgument, machine)
  else match machine.programs.lookup name with
    | none => (.error .notFound, machine)
    | some program =>
      if !program.startable then (.error .notFound, machine)
      else
        let behaviour := program.behave machine.disk arguments
        let disk := match behaviour.writes, arguments.getLast? with
          | some content, some path =>
            match machine.disk.write path content with
            | .ok disk => disk
            | .error _ => machine.disk
          | _, _ => machine.disk
        (.ok ⟨behaviour.ending, behaviour.stdout, behaviour.stderr⟩,
          { machine with
            disk
            launches := machine.launches ++ [⟨name, arguments, machine.disk⟩] })

def perform (machine : Machine) : (action : Action) → action.Reply × Machine
  | .findProgram name => ((machine.programs.lookup name).isSome, machine)
  | .makeWorkspace parent => machine.makeWorkspace parent
  | .makeDirectories path =>
    match machine.disk.makeDirectories path with
    | (disk, none) => (.ok (), { machine with disk })
    | (disk, some fault) => (.error fault, { machine with disk })
  | .write path content => machine.change (machine.disk.write path content)
  | .createNew path => machine.change (machine.disk.createNew path)
  | .append path content => machine.change (machine.disk.append path content)
  | .read path => (machine.disk.read path, machine)
  | .isThere path => (machine.disk.exists? path, machine)
  | .size path => (machine.disk.size? path, machine)
  | .remove path => machine.change (machine.disk.remove path)
  | .removeTree path => ((), { machine with disk := machine.disk.removeTree path })
  | .now => (machine.clock, machine)
  | .runProgram program arguments _ => machine.runProgram program arguments
  | .freshId =>
    (identifierText machine.identifiers, { machine with identifiers := machine.identifiers + 1 })

end Machine

/-- Runs work on a machine, one step after the other. -/
def Job.run : Job α → Machine → α × Machine
  | done value, machine => (value, machine)
  | act action next, machine =>
    let (reply, after) := machine.perform action
    (next reply).run after

end Montage

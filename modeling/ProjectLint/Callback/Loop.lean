import ProjectLint.Lint

/-!
Linting with callbacks. A call is started as a task of an event loop and returns at once; the
outcome is handed to the callback of the call later, once, whether the task succeeds or fails. The
loop is one queue, first in, first out. A task that ends queues its callback, and then the main code
if that is waiting for the task. While files are looked for a task pauses, and the rest of it comes
to its turn after the search has gone through the queue; a pause that comes after the end of the
main code is the end of the task.
-/

namespace ProjectLint.Callback

/-- The work of a task: something that is done in one go when a number of turns have passed, or a
first part that gives such work for later. -/
inductive Work where
  | after (turns : Nat) (run : Action Report)
  | paused (first : Action (Action Report))

/-- A task: its work, and the callback that is told how it ends. -/
structure Task where
  callback : Callback
  work : Work

/-- What can stand before the callback of a call: nothing, options, or the callback itself. -/
inductive Argument where
  | nothing
  | options (options : LintOptions)
  | callback (callback : Callback)

/-- The options and the callback of a call. The callback may stand in the place of the options if
none follows. -/
def splitArguments : Argument → Option Callback → Except Failure (LintOptions × Callback)
  | .callback callback, none => .ok ({}, callback)
  | _, none => .error .callbackRequired
  | .callback _, some _ => .error .optionsExpected
  | .nothing, some callback => .ok ({}, callback)
  | .options options, some callback => .ok (options, callback)

/-- Starts a call: the arguments are checked first, and then whether a loop runs. -/
def start (running : Bool) (first : Argument) (second : Option Callback)
    (work : LintOptions → Work) : Except Failure Task :=
  match splitArguments first second with
  | .error failure => .error failure
  | .ok (options, callback) =>
      if running then .ok ⟨callback, work options⟩ else .error .noEventLoop

def textWork (linter : Linter) (text : Text) (options : LintOptions) : Work :=
  .after 0 (linter.lintText text options)

/-- How many turns a search for files takes: one to look, and one to hand over what was found. -/
def searchTurns : Nat := 2

/-- The work of linting files. It pauses while the files are looked for. -/
def filesWork (linter : Linter) (patterns : Patterns) (options : LintOptions) : Work :=
  .paused do
    let resolved ← linter.resolve options
    let requests ← Action.lift patterns.toList
    return linter.lintFound requests resolved

/-- An entry of the queue. -/
inductive Entry where
  | task (index : Nat) (task : Task)
  | callback (callback : Callback) (outcome : Except Failure Report)
  | main

/-- What the main code is doing: nothing any more, waiting for a task with tasks up to a number
left to be waited for, or waiting for the next turn of the loop. -/
inductive Main where
  | gone
  | awaiting (index count : Nat)
  | yielding

/-- The state of a loop: its queue, the tasks that have ended, and the main code. -/
structure Loop where
  queue : List Entry
  ended : List Nat
  main : Main

/-- The outcome of an action, its failure included. -/
def observe {α : Type} (action : Action α) : Action (Except Failure α) :=
  tryCatch (do return .ok (← action)) fun failure => return .error failure

/-- The loop after a task has ended. -/
def finish (loop : Loop) (index : Nat) (callback : Callback) (outcome : Except Failure Report) :
    Loop :=
  let wakes := match loop.main with
    | .awaiting awaited _ => awaited == index
    | _ => false
  { loop with
    queue := loop.queue ++ .callback callback outcome :: (if wakes then [.main] else [])
    ended := index :: loop.ended }

/-- Goes on with the main code: it waits for the tasks in order, and at last for the next turn. -/
def awaitTasks (loop : Loop) : (count index : Nat) → Action Loop
  | 0, _ => return { loop with queue := loop.queue ++ [.main], main := .yielding }
  | count + 1, index =>
      if loop.ended.contains index then do
        Action.event .taskDone
        awaitTasks loop count (index + 1)
      else return { loop with main := .awaiting index count }

/-- The loop after a task has paused. When the main code has ended the task is given up. -/
def pause (loop : Loop) (index : Nat) (callback : Callback) (rest : Action Report) : Loop :=
  match loop.main with
  | .gone => loop
  | _ => { loop with queue := loop.queue ++ [.task index ⟨callback, .after searchTurns rest⟩] }

def runEntry (loop : Loop) : Entry → Action Loop
  | .task index ⟨callback, .after 0 run⟩ => do
      return finish loop index callback (← observe run)
  | .task index ⟨callback, .after (turns + 1) run⟩ =>
      return { loop with queue := loop.queue ++ [.task index ⟨callback, .after turns run⟩] }
  | .task index ⟨callback, .paused first⟩ => do
      match ← observe first with
      | .ok rest => return pause loop index callback rest
      | .error failure => return finish loop index callback (.error failure)
  | .callback callback outcome => do
      Action.event (.callback callback outcome)
      return loop
  | .main =>
      match loop.main with
      | .gone => return loop
      | .awaiting index count => do
          Action.event .taskDone
          awaitTasks loop count (index + 1)
      | .yielding => do
          Action.event .nextTick
          return { loop with main := .gone }

/-- Runs at most `fuel` entries of the queue. -/
def drain : (fuel : Nat) → Loop → Action Unit
  | 0, _ => return ()
  | fuel + 1, loop =>
      match loop.queue with
      | [] => return ()
      | entry :: queue => do
          let loop ← runEntry { loop with queue } entry
          drain fuel loop

/-- How many entries a number of tasks can put into a queue: the turns, a callback and a turn of the
main code for each, and one more turn of it. -/
def fuelFor (tasks : Nat) : Nat :=
  (searchTurns + 4) * tasks + 1

/-- The queue of tasks that have been started. -/
def taskQueue : (index : Nat) → List Task → List Entry
  | _, [] => []
  | index, task :: tasks => .task index task :: taskQueue (index + 1) tasks

/-- Starts calls in order and stops at the first that fails. -/
def startAll : List (Except Failure Task) → Action (List Task × Option Failure)
  | [] => return ([], none)
  | .error failure :: _ => return ([], some failure)
  | .ok task :: calls => do
      Action.event .returned
      let (tasks, failure) ← startAll calls
      return (task :: tasks, failure)

/-- Starts calls together, waits for their tasks in order, and then for the next turn of the loop.
If a call cannot be started the main code ends there, and the tasks started before still run as far
as their first pause. -/
def together (calls : List (Except Failure Task)) : Action Unit := do
  let (tasks, failure) ← startAll calls
  let loop : Loop := ⟨taskQueue 0 tasks, [], .gone⟩
  match failure with
  | some failure =>
      drain (fuelFor tasks.length) loop
      throw failure
  | none =>
      let loop ← awaitTasks loop tasks.length 0
      drain (fuelFor tasks.length) loop

end ProjectLint.Callback

import ProjectLint.Callback.Loop
import ProjectLint.Proofs.Lint.Alike

/-!
Delivery of outcomes by callbacks. Calls to lint a text that are started in one turn of a loop are
run in order, and the outcome of each is handed to its own callback afterwards, in the same order.
Main statement: the events of such a turn are known for every list of calls. What is delivered is
what the calls would give one after another without a loop, failures included, and how one call ends
changes nothing for the others.
-/

namespace ProjectLint.Callback

open ProjectLint.Action

theorem observe_eq {α : Type} (a : Action α) (s : Session) :
    observe a s = .ok (a.gives s) (a.leaves s) := by
  show EStateM.tryCatch (EStateM.bind a _) _ s = _
  rw [gives, leaves]
  delta EStateM.tryCatch EStateM.bind
  cases a s <;> rfl

/-- A call that has been started: its callback, and what its task does in one go. -/
structure Begun where
  callback : Callback
  run : Action Report

def Begun.task (call : Begun) : Task :=
  ⟨call.callback, .after 0 call.run⟩

/-- What a callback is handed. -/
structure Delivery where
  callback : Callback
  outcome : Except Failure Report

def Delivery.entry (delivery : Delivery) : Entry :=
  .callback delivery.callback delivery.outcome

def Delivery.event (delivery : Delivery) : Event :=
  .callback delivery.callback delivery.outcome

/-- What the callbacks of calls are to be handed if the calls are run one after another, whether they
succeed or fail. -/
def givenInTurn : List Begun → Session → List Delivery
  | [], _ => []
  | call :: calls, s => ⟨call.callback, call.run.gives s⟩ :: givenInTurn calls (call.run.leaves s)

/-- The session after calls have been run one after another. -/
def leftInTurn : List Begun → Session → Session
  | [], s => s
  | call :: calls, s => leftInTurn calls (call.run.leaves s)

theorem length_givenInTurn (calls : List Begun) (s : Session) :
    (givenInTurn calls s).length = calls.length := by
  induction calls generalizing s with
  | nil => rfl
  | cons call calls ih => simp only [givenInTurn, List.length_cons, ih]

theorem givenInTurn_append (before after : List Begun) (s : Session) :
    givenInTurn (before ++ after) s =
      givenInTurn before s ++ givenInTurn after (leftInTurn before s) := by
  induction before generalizing s with
  | nil => rfl
  | cons call before ih => simp only [List.cons_append, givenInTurn, leftInTurn, ih]

theorem respects_inTurn {related : Session → Session → Prop} {calls : List Begun}
    (hcalls : ∀ call ∈ calls, Respects call.run related) {s t : Session} (h : related s t) :
    givenInTurn calls t = givenInTurn calls s ∧
      related (leftInTurn calls s) (leftInTurn calls t) := by
  induction calls generalizing s t with
  | nil => exact ⟨rfl, h⟩
  | cons call calls ih =>
      obtain ⟨hgives, hleaves⟩ := hcalls call (by simp) s t h
      obtain ⟨hgiven, hleft⟩ := ih (fun other hmem => hcalls other (by simp [hmem])) hleaves
      exact ⟨by rw [givenInTurn, givenInTurn, hgives, hgiven], hleft⟩

theorem shows_inTurn {shown : Event → Prop} {calls : List Begun}
    (hcalls : ∀ call ∈ calls, Shows call.run shown) (s : Session) :
    ∃ new, (leftInTurn calls s).events = s.events ++ new ∧ ∀ event ∈ new, shown event := by
  induction calls generalizing s with
  | nil => exact ⟨[], by simp [leftInTurn], by simp⟩
  | cons call calls ih =>
      obtain ⟨first, hfirst, hshown⟩ := hcalls call (by simp) s
      obtain ⟨later, hlater, hrest⟩ := ih (fun other hmem => hcalls other (by simp [hmem]))
        (call.run.leaves s)
      refine ⟨first ++ later, ?_, fun event hevent => ?_⟩
      · rw [leftInTurn, hlater, hfirst, List.append_assoc]
      · rcases List.mem_append.1 hevent with hevent | hevent
        · exact hshown event hevent
        · exact hrest event hevent

/-- Whether a call lints a text. -/
def Begun.LintsText (call : Begun) : Prop :=
  ∃ (linter : Linter) (text : Text) (options : LintOptions),
    call.run = linter.lintText text options

theorem Begun.LintsText.shows {call : Begun} (h : call.LintsText) :
    Shows call.run Linter.IsEngineStart := by
  obtain ⟨linter, text, options, hrun⟩ := h
  rw [hrun]
  exact linter.shows_lintText text options

theorem Begun.LintsText.respects {call : Begun} (h : call.LintsText)
    {events : List Event → List Event → Prop}
    (hevents : ∀ xs ys event, events xs ys → events (xs ++ [event]) (ys ++ [event])) :
    Respects call.run (Session.Alike Eq events) := by
  obtain ⟨linter, text, options, hrun⟩ := h
  rw [hrun]
  exact linter.respects_lintText text options hevents

/-- Where one prepared outcome differs, something else is given by the call that takes it, if there
is one, and by no other. -/
theorem givenInTurn_of_differAt {calls : List Begun} (hcalls : ∀ call ∈ calls, call.LintsText)
    {outcome other : EngineOutcome} {rest : List EngineOutcome} {s t : Session}
    (h : Session.Alike (Linter.DifferAt outcome other rest) (fun _ _ => True) s t) :
    ∃ index,
      (∀ place, place ≠ index → (givenInTurn calls t)[place]? = (givenInTurn calls s)[place]?) ∧
      (index < calls.length →
        (leftInTurn (calls.take index) s).outcomes = outcome :: rest ∧
        (leftInTurn (calls.take (index + 1)) s).outcomes = rest) := by
  induction calls generalizing s t with
  | nil => exact ⟨0, fun _ _ => rfl, fun hlt => absurd hlt (Nat.not_lt_zero 0)⟩
  | cons call calls ih =>
      obtain ⟨hcall, hrest⟩ := List.forall_mem_cons.1 hcalls
      obtain ⟨callback, run⟩ := call
      obtain ⟨linter, text, options, rfl⟩ := hcall
      rcases linter.lintText_of_differAt text options h fun _ _ _ _ => trivial with
        ⟨hgives, halike⟩ | ⟨htaken, hleft, halike⟩
      · obtain ⟨index, hindex, htaken⟩ := ih hrest halike
        refine ⟨index + 1, fun place hplace => ?_, fun hlt => htaken (Nat.lt_of_succ_lt_succ hlt)⟩
        cases place with
        | zero => simp [givenInTurn, hgives]
        | succ place => exact hindex place (by omega)
      · -- The outcome is used up, so the sessions are alike from here on.
        obtain ⟨hgiven, -⟩ := respects_inTurn
          (fun other hmem => (hrest other hmem).respects fun _ _ _ _ => trivial) halike
        refine ⟨0, fun place hplace => ?_, fun _ => ⟨htaken, hleft⟩⟩
        cases place with
        | zero => exact absurd rfl hplace
        | succ place => simp [givenInTurn, hgiven]

section Turn

variable (s : Session)

/-- A session with more events. -/
def showing (s : Session) (events : List Event) : Session :=
  { s with events := s.events ++ events }

theorem showing_nil : showing s [] = s := by
  rw [showing, List.append_nil]

theorem showing_showing (first later : List Event) :
    showing (showing s first) later = showing s (first ++ later) := by
  simp only [showing, List.append_assoc]

theorem drain_cons (fuel : Nat) (entry : Entry) (queue : List Entry) (ended : List Nat)
    (main : Main) :
    drain (fuel + 1) ⟨entry :: queue, ended, main⟩ s =
      (runEntry ⟨queue, ended, main⟩ entry >>= drain fuel) s :=
  rfl

theorem drain_nil (fuel : Nat) (ended : List Nat) (main : Main) :
    drain fuel ⟨[], ended, main⟩ s = .ok () s := by
  cases fuel <;> rfl

/-- The loop after tasks from an index on have ended in order. -/
def finishAll (loop : Loop) : (index : Nat) → List Delivery → Loop
  | _, [] => loop
  | index, ⟨callback, outcome⟩ :: deliveries =>
      finishAll (finish loop index callback outcome) (index + 1) deliveries

/-- Tasks at the head of the queue run in order. -/
theorem drain_tasks (calls : List Begun) (fuel index : Nat) (loop : Loop) :
    drain (calls.length + fuel)
        { loop with queue := taskQueue index (calls.map (·.task)) ++ loop.queue } s =
      drain fuel (finishAll loop index (givenInTurn calls s)) (leftInTurn calls s) := by
  induction calls generalizing index loop s with
  | nil =>
      rw [List.length_nil, Nat.zero_add]
      rfl
  | cons call calls ih =>
      obtain ⟨callback, run⟩ := call
      have hlength : (⟨callback, run⟩ :: calls : List Begun).length + fuel =
          (calls.length + fuel) + 1 := by
        rw [List.length_cons]
        omega
      have hentry : ∀ rest, runEntry { loop with queue := rest ++ loop.queue }
          (.task index ⟨callback, .after 0 run⟩) s =
          .ok { finish loop index callback (run.gives s) with
            queue := rest ++ (finish loop index callback (run.gives s)).queue } (run.leaves s) := by
        intro rest
        simp only [runEntry, bind, EStateM.bind, observe_eq, finish, List.append_assoc]
        rfl
      rw [hlength, List.map_cons, taskQueue, List.cons_append, drain_cons]
      show EStateM.bind (runEntry _ (.task index ⟨callback, .after 0 run⟩)) _ s = _
      rw [EStateM.bind, hentry]
      exact ih (run.leaves s) (index + 1) (finish loop index callback (run.gives s))

/-- Tasks that are not waited for leave their callbacks in the queue. -/
theorem finishAll_eq (loop : Loop) (index : Nat)
    (hmain : ∀ awaited count, loop.main = .awaiting awaited count → awaited < index)
    (deliveries : List Delivery) :
    ∃ ended, finishAll loop index deliveries =
        ⟨loop.queue ++ deliveries.map (·.entry), ended, loop.main⟩ ∧
      (∀ other ∈ loop.ended, other ∈ ended) ∧
        ∀ other, index ≤ other → other < index + deliveries.length → other ∈ ended := by
  induction deliveries generalizing loop index with
  | nil =>
      refine ⟨loop.ended, by simp [finishAll], fun _ h => h, fun other hle hlt => ?_⟩
      rw [List.length_nil] at hlt
      omega
  | cons delivery deliveries ih =>
      obtain ⟨callback, outcome⟩ := delivery
      have hfinish : finish loop index callback outcome =
          ⟨loop.queue ++ [.callback callback outcome], index :: loop.ended, loop.main⟩ := by
        obtain ⟨queue, ended, main⟩ := loop
        cases main with
        | gone | yielding => rfl
        | awaiting awaited count =>
            have hne : (awaited == index) = false := by
              have := hmain awaited count rfl
              simp only [beq_eq_false_iff_ne]
              omega
            simp [finish, hne]
      rw [finishAll, hfinish]
      obtain ⟨ended, hall, hended, hnew⟩ :=
        ih ⟨loop.queue ++ [.callback callback outcome], index :: loop.ended, loop.main⟩ (index + 1)
          fun awaited count h => Nat.lt_succ_of_lt (hmain awaited count h)
      refine ⟨ended, ?_, fun other h => hended other (by simp [h]), fun other hle hlt => ?_⟩
      · rw [hall]
        simp [Delivery.entry]
      · rw [List.length_cons] at hlt
        rcases Nat.eq_or_lt_of_le hle with rfl | hlt'
        · exact hended _ (by simp)
        · exact hnew other hlt' (by omega)

/-- Callbacks at the head of the queue are called in order. -/
theorem drain_callbacks (deliveries : List Delivery) (fuel : Nat) (queue : List Entry)
    (ended : List Nat) (main : Main) :
    drain (deliveries.length + fuel) ⟨deliveries.map (·.entry) ++ queue, ended, main⟩ s =
      drain fuel ⟨queue, ended, main⟩ (showing s (deliveries.map (·.event))) := by
  induction deliveries generalizing s with
  | nil => simp only [List.map_nil, showing_nil, List.length_nil, Nat.zero_add, List.nil_append]
  | cons delivery deliveries ih =>
      have hlength : (delivery :: deliveries).length + fuel = (deliveries.length + fuel) + 1 := by
        rw [List.length_cons]
        omega
      rw [hlength, List.map_cons, List.cons_append, drain_cons]
      refine (ih (showing s [delivery.event])).trans ?_
      rw [showing_showing]
      rfl

/-- Main code that waits for tasks that have all ended waits for the next turn at once. -/
theorem awaitTasks_of_ended {loop : Loop} {count index : Nat}
    (h : ∀ other, index ≤ other → other < index + count → other ∈ loop.ended) :
    awaitTasks loop count index s =
      .ok { loop with queue := loop.queue ++ [.main], main := .yielding }
        (showing s (List.replicate count .taskDone)) := by
  induction count generalizing index s with
  | zero =>
      rw [List.replicate_zero, showing_nil]
      rfl
  | succ count ih =>
      have hindex : loop.ended.contains index = true :=
        List.contains_iff_mem.2 (h index (Nat.le_refl index) (by omega))
      rw [awaitTasks, if_pos hindex]
      have hrest : ∀ other, index + 1 ≤ other → other < index + 1 + count → other ∈ loop.ended :=
        fun other hle hlt => h other (by omega) (by omega)
      refine (ih (showing s [.taskDone]) hrest).trans ?_
      rw [showing_showing]
      rfl

/-- Calls start one after another up to those that cannot. -/
theorem startAll_append (tasks : List Task) {rest : List (Except Failure Task)}
    {failure : Option Failure} (hrest : ∀ t, startAll rest t = .ok ([], failure) t) :
    startAll (tasks.map .ok ++ rest) s =
      .ok (tasks, failure) (showing s (List.replicate tasks.length .returned)) := by
  induction tasks generalizing s with
  | nil =>
      rw [List.length_nil, List.replicate_zero, showing_nil]
      exact hrest s
  | cons task tasks ih =>
      have htasks := ih (showing s [.returned])
      rw [showing_showing] at htasks
      rw [List.map_cons, List.cons_append, startAll]
      show EStateM.bind _ _ (showing s [.returned]) = _
      rw [EStateM.bind, htasks]
      rfl

end Turn

/-- What is shown after some runs. Main code that waits for all of them goes on after the first
outcome has been delivered, and comes to the next turn after the others. -/
def shownAfter : Option Failure → List Delivery → List Event
  | some _, deliveries => deliveries.map (·.event)
  | none, [] => [.nextTick]
  | none, first :: deliveries =>
      first.event :: List.replicate (deliveries.length + 1) .taskDone ++
        deliveries.map (·.event) ++ [.nextTick]

/-- With no main code left the tasks run, and then their callbacks. -/
theorem drain_gone (calls : List Begun) (s : Session) :
    drain (fuelFor calls.length) ⟨taskQueue 0 (calls.map (·.task)), [], .gone⟩ s =
      .ok () (showing (leftInTurn calls s) ((givenInTurn calls s).map (·.event))) := by
  have hfuel : fuelFor calls.length =
      calls.length + ((givenInTurn calls s).length + (4 * calls.length + 1)) := by
    rw [length_givenInTurn, fuelFor, searchTurns]
    omega
  have htasks := drain_tasks s calls ((givenInTurn calls s).length + (4 * calls.length + 1)) 0
    ⟨[], [], .gone⟩
  simp only [List.append_nil] at htasks
  obtain ⟨all, hall, -, -⟩ := finishAll_eq ⟨[], [], .gone⟩ 0 (fun _ _ h => by cases h)
    (givenInTurn calls s)
  rw [hfuel, htasks, hall, List.nil_append]
  have hcallbacks := drain_callbacks (leftInTurn calls s) (givenInTurn calls s)
    (4 * calls.length + 1) [] all .gone
  rw [List.append_nil] at hcallbacks
  rw [hcallbacks, drain_nil]

/-- The main code goes on after the first callback, and the next turn comes after the others. -/
theorem drain_awaiting (call : Begun) (calls : List Begun) (s : Session) :
    drain (fuelFor (call :: calls).length)
        ⟨taskQueue 0 ((call :: calls).map (·.task)), [], .awaiting 0 calls.length⟩ s =
      .ok () (showing (leftInTurn (call :: calls) s)
        (shownAfter none (givenInTurn (call :: calls) s))) := by
  generalize hgivens : givenInTurn calls (call.run.leaves s) = others
  generalize hfirst : (⟨call.callback, call.run.gives s⟩ : Delivery) = first
  have hgiven : givenInTurn (call :: calls) s = first :: others := by
    rw [givenInTurn, hgivens, hfirst]
  have hlength : others.length = calls.length := by rw [← hgivens, length_givenInTurn]
  have hfuel : fuelFor (call :: calls).length =
      (call :: calls).length + (others.length + (4 * calls.length + 3 + 1) + 1 + 1) := by
    rw [List.length_cons, fuelFor, searchTurns, hlength]
    omega
  have htasks := drain_tasks s (call :: calls)
    (others.length + (4 * calls.length + 3 + 1) + 1 + 1) 0 ⟨[], [], .awaiting 0 calls.length⟩
  simp only [List.append_nil] at htasks
  -- The end of the first task wakes the main code, so that comes before the other callbacks.
  have hwakes : finish ⟨[], [], .awaiting 0 calls.length⟩ 0 first.callback first.outcome =
      ⟨[first.entry, .main], [0], .awaiting 0 calls.length⟩ := rfl
  obtain ⟨all, hall, -, hended⟩ :=
    finishAll_eq ⟨[first.entry, .main], [0], .awaiting 0 calls.length⟩ 1
      (fun _ _ h => by cases h; exact Nat.zero_lt_one) others
  have hwaits : runEntry ⟨others.map (·.entry), all, .awaiting 0 calls.length⟩ .main
      (showing (leftInTurn (call :: calls) s) [first.event]) =
        .ok ⟨others.map (·.entry) ++ [.main], all, .yielding⟩
          (showing (showing (showing (leftInTurn (call :: calls) s) [first.event])
            [.taskDone]) (List.replicate calls.length .taskDone)) := by
    rw [hlength] at hended
    exact awaitTasks_of_ended _ hended
  rw [hfuel, htasks, hgiven, finishAll, hwakes, hall]
  show drain _ ⟨first.entry :: .main :: others.map (·.entry), all, _⟩ _ = _
  rw [drain_cons]
  show drain _ ⟨.main :: others.map (·.entry), all, _⟩ (showing _ [first.event]) = _
  rw [drain_cons]
  show EStateM.bind _ _ _ = _
  rw [EStateM.bind, hwaits]
  show drain _ ⟨others.map (·.entry) ++ [.main], all, .yielding⟩ _ = _
  rw [drain_callbacks, drain_cons]
  show drain _ ⟨[], all, .gone⟩ (showing _ [.nextTick]) = _
  simp only [drain_nil, showing_showing, shownAfter, hlength, List.replicate_succ,
    List.append_assoc, List.cons_append, List.nil_append]

/-- How the main code ends. -/
def ending : Option Failure → Except Failure Unit
  | none => .ok ()
  | some failure => .error failure

/-- What a turn in which some tasks start gives and leaves. -/
theorem together_eq (calls : List Begun) {rest : List (Except Failure Task)}
    {stop : Option Failure} (hrest : ∀ t, startAll rest t = .ok ([], stop) t) (s : Session) :
    let begun := showing s (List.replicate calls.length .returned)
    let left := showing (leftInTurn calls begun) (shownAfter stop (givenInTurn calls begun))
    together ((calls.map (·.task)).map .ok ++ rest) s =
      match stop with
      | none => .ok () left
      | some failure => .error failure left := by
  intro begun left
  have hstart := startAll_append s (calls.map (·.task)) hrest
  rw [List.length_map] at hstart
  show EStateM.bind _ _ s = _
  rw [EStateM.bind, hstart]
  cases stop with
  | none =>
      show EStateM.bind _ _ begun = _
      rw [EStateM.bind, List.length_map]
      cases calls with
      | nil => rfl
      | cons call calls => exact drain_awaiting call calls begun
  | some failure =>
      show EStateM.bind _ _ begun = _
      rw [EStateM.bind, List.length_map, drain_gone]
      rfl

/-- A call to lint a text. What stands in the place of the options may be a callback. `running` tells
whether the call is made in a loop. -/
structure TextCall where
  linter : Linter := {}
  text : Text
  options : Argument
  callback : Option Callback
  running : Bool := true

namespace TextCall

/-- The options and the callback that the arguments of a call stand for. -/
inductive Accepted : Argument → Option Callback → LintOptions → Callback → Prop
  | absent (callback : Callback) : Accepted .nothing (some callback) {} callback
  | given (options : LintOptions) (callback : Callback) :
      Accepted (.options options) (some callback) options callback
  | inPlace (callback : Callback) : Accepted (.callback callback) none {} callback

/-- What is wrong with other arguments. -/
inductive Rejected : Argument → Option Callback → Failure → Prop
  | nothing : Rejected .nothing none .callbackRequired
  | onlyOptions (options : LintOptions) : Rejected (.options options) none .callbackRequired
  | twoCallbacks (first second : Callback) :
      Rejected (.callback first) (some second) .optionsExpected

/-- Whether a call starts the linting of its text with its options, for its callback. -/
def Starts (call : TextCall) (begun : Begun) : Prop :=
  ∃ options, Accepted call.options call.callback options begun.callback ∧ call.running = true ∧
    begun.run = call.linter.lintText call.text options

/-- Whether a call cannot be started, and why. -/
def Refuses (call : TextCall) (failure : Failure) : Prop :=
  Rejected call.options call.callback failure ∨
    (∃ options callback, Accepted call.options call.callback options callback) ∧
      call.running = false ∧ failure = .noEventLoop

/-- What comes of starting a call. -/
def task (call : TextCall) : Except Failure Task :=
  start call.running call.options call.callback (textWork call.linter call.text)

/-- A call with another engine. -/
def withEngine (call : TextCall) (engine : EngineKind) : TextCall :=
  { call with linter := { call.linter with engine } }

theorem starts_or_refuses (call : TextCall) :
    (∃ begun, call.Starts begun) ∨ ∃ failure, call.Refuses failure := by
  obtain ⟨linter, text, options, callback, running⟩ := call
  have haccepted : (∃ accepted own, Accepted options callback accepted own) ∨
      ∃ failure, Rejected options callback failure := by
    cases callback with
    | some callback =>
        cases options with
        | nothing => exact Or.inl ⟨_, _, .absent callback⟩
        | options given => exact Or.inl ⟨_, _, .given given callback⟩
        | callback first => exact Or.inr ⟨_, .twoCallbacks first callback⟩
    | none =>
        cases options with
        | nothing => exact Or.inr ⟨_, .nothing⟩
        | options given => exact Or.inr ⟨_, .onlyOptions given⟩
        | callback own => exact Or.inl ⟨_, _, .inPlace own⟩
  rcases haccepted with ⟨accepted, own, haccepted⟩ | ⟨failure, hrejected⟩
  · cases running with
    | true => exact Or.inl ⟨⟨own, _⟩, accepted, haccepted, rfl, rfl⟩
    | false => exact Or.inr ⟨_, Or.inr ⟨⟨accepted, own, haccepted⟩, rfl, rfl⟩⟩
  · exact Or.inr ⟨failure, Or.inl hrejected⟩

theorem task_of_starts {call : TextCall} {begun : Begun} (h : call.Starts begun) :
    call.task = .ok begun.task := by
  obtain ⟨linter, text, options, callback, running⟩ := call
  obtain ⟨own, run⟩ := begun
  obtain ⟨accepted, haccepted, rfl, hrun⟩ := h
  dsimp only at haccepted hrun
  subst hrun
  cases haccepted <;> rfl

theorem task_of_refuses {call : TextCall} {failure : Failure} (h : call.Refuses failure) :
    call.task = .error failure := by
  obtain ⟨linter, text, options, callback, running⟩ := call
  rcases h with hrejected | ⟨⟨accepted, own, haccepted⟩, rfl, rfl⟩
  · cases hrejected <;> rfl
  · cases haccepted <;> rfl

/-- What calls start one after another, up to the first that cannot be started, if there is one. -/
inductive Start : List TextCall → List Begun → Option Failure → Prop
  | done : Start [] [] none
  | next {call calls begun others stop} (hcall : Starts call begun)
      (hcalls : Start calls others stop) : Start (call :: calls) (begun :: others) stop
  | stop {call failure} (hcall : Refuses call failure) (later : List TextCall) :
      Start (call :: later) [] (some failure)

theorem exists_start (calls : List TextCall) : ∃ begun stop, Start calls begun stop := by
  induction calls with
  | nil => exact ⟨[], none, .done⟩
  | cons call calls ih =>
      obtain ⟨others, stop, hcalls⟩ := ih
      rcases call.starts_or_refuses with ⟨begun, hbegun⟩ | ⟨failure, hfailure⟩
      · exact ⟨begun :: others, stop, .next hbegun hcalls⟩
      · exact ⟨[], some failure, .stop hfailure calls⟩

variable {calls : List TextCall} {begun : List Begun} {stop : Option Failure}

theorem Start.map_task (h : Start calls begun stop) :
    ∃ rest, calls.map task = (begun.map (·.task)).map .ok ++ rest ∧
      ∀ t, startAll rest t = .ok ([], stop) t := by
  induction h with
  | done => exact ⟨[], rfl, fun _ => rfl⟩
  | next hcall _ ih =>
      obtain ⟨rest, htasks, hrest⟩ := ih
      exact ⟨rest, by rw [List.map_cons, task_of_starts hcall, htasks]; rfl, hrest⟩
  | stop hcall later =>
      exact ⟨_, by rw [List.map_cons, task_of_refuses hcall]; rfl, fun _ => rfl⟩

theorem Start.lintsText (h : Start calls begun stop) : ∀ call ∈ begun, call.LintsText := by
  induction h with
  | done | stop => simp
  | next hcall _ ih =>
      obtain ⟨options, -, -, hrun⟩ := hcall
      exact List.forall_mem_cons.2 ⟨⟨_, _, _, hrun⟩, ih⟩

/-- What calls give one after another does not depend on the events that were shown before, and
their own events come after these. -/
theorem Start.inTurn_showing (h : Start calls begun stop) (s : Session) :
    ∃ engines, (leftInTurn begun s).events = s.events ++ engines ∧
      (∀ event ∈ engines, Linter.IsEngineStart event) ∧
        ∀ shown, givenInTurn begun (showing s shown) = givenInTurn begun s ∧
          (leftInTurn begun (showing s shown)).events = s.events ++ shown ++ engines := by
  obtain ⟨engines, hengines, hstarts⟩ :=
    shows_inTurn (fun call hmem => (h.lintsText call hmem).shows) s
  refine ⟨engines, hengines, hstarts, fun shown => ?_⟩
  -- The events that are shown now stay between the old ones and those of the engines.
  have hevents : ∀ xs ys event,
      (∃ new, xs = s.events ++ new ∧ ys = s.events ++ shown ++ new) →
        ∃ new, xs ++ [event] = s.events ++ new ∧ ys ++ [event] = s.events ++ shown ++ new := by
    rintro _ _ event ⟨new, rfl, rfl⟩
    exact ⟨new ++ [event], by simp, by simp⟩
  have halike : Session.Alike Eq (fun xs ys =>
      ∃ new, xs = s.events ++ new ∧ ys = s.events ++ shown ++ new) s (showing s shown) :=
    ⟨rfl, rfl, rfl, rfl, rfl, rfl, [], by simp, by simp [showing]⟩
  obtain ⟨hgiven, hleft⟩ := respects_inTurn
    (fun call hmem => (h.lintsText call hmem).respects hevents) halike
  obtain ⟨new, hnew, hshown⟩ := hleft.events
  rw [hengines, List.append_cancel_left_eq] at hnew
  exact ⟨hgiven, by rw [hshown, hnew]⟩

/-- A call whose engine is not the program leaves the same whatever that engine gives. -/
theorem leaves_lintText_other (linter : Linter) (text : Text) (options : LintOptions)
    (onText : EngineConfig → Text → Except Failure Report)
    (onFiles : EngineConfig → List Path → Except Failure Report) (s : Session) :
    (({ linter with engine := .other onText onFiles } : Linter).lintText text options).leaves s =
      (linter.resolve options).leaves s := by
  have hlift : ∀ (e : Except Failure Report) t, (Action.lift e).leaves t = t := by
    rintro (_ | _) t <;> rfl
  have hresolve : ({ linter with engine := .other onText onFiles } : Linter).resolve options =
      linter.resolve options := rfl
  rw [Linter.lintText, leaves_bind, hresolve, leaves]
  cases linter.resolve options s with
  | error failure u => rfl
  | ok resolved u => exact hlift _ u

/-- Calls of which one has another engine start the same, and the others are handed the same. -/
theorem Start.withEngine {before after : List TextCall} {call : TextCall}
    {onText onText' : EngineConfig → Text → Except Failure Report}
    {onFiles onFiles' : EngineConfig → List Path → Except Failure Report}
    (hengine : call.linter.engine = .other onText onFiles)
    (h : Start (before ++ call :: after) begun stop) :
    ∃ others, Start (before ++ call.withEngine (.other onText' onFiles') :: after) others stop ∧
      ∀ s place, place ≠ before.length →
        (givenInTurn others s)[place]? = (givenInTurn begun s)[place]? := by
  induction before generalizing begun with
  | nil =>
      cases h with
      | @stop _ failure hcall =>
          have hrefuses : (call.withEngine (.other onText' onFiles')).Refuses failure := hcall
          exact ⟨[], .stop hrefuses after, fun _ _ _ => rfl⟩
      | @next _ _ first rest _ hcall hrest =>
          obtain ⟨callback, run⟩ := first
          obtain ⟨options, haccepted, hrunning, rfl⟩ := hcall
          refine ⟨⟨callback, (call.withEngine (.other onText' onFiles')).linter.lintText call.text
            options⟩ :: rest, .next ⟨options, haccepted, hrunning, rfl⟩ hrest, ?_⟩
          intro s place hplace
          have hleaves : ((call.withEngine (.other onText' onFiles')).linter.lintText call.text
              options).leaves s = (call.linter.lintText call.text options).leaves s := by
            obtain ⟨⟨command, config, engine⟩, text, _, _, _⟩ := call
            cases hengine
            exact (leaves_lintText_other ⟨command, config, .eslint⟩ text options _ _ s).trans
              (leaves_lintText_other ⟨command, config, .eslint⟩ text options _ _ s).symm
          cases place with
          | zero => exact absurd rfl hplace
          | succ place =>
              show (givenInTurn rest _)[place]? = (givenInTurn rest _)[place]?
              exact congrArg (fun t => (givenInTurn rest t)[place]?) hleaves
  | cons first before ih =>
      cases h with
      | stop hcall => exact ⟨[], .stop hcall _, fun _ _ _ => rfl⟩
      | @next _ _ started rest _ hcall hrest =>
          obtain ⟨others, hothers, hsame⟩ := ih hrest
          refine ⟨started :: others, .next hcall hothers, fun s place hplace => ?_⟩
          cases place with
          | zero => rfl
          | succ place =>
              have hinner : place ≠ before.length := by
                simpa using hplace
              exact hsame (started.run.leaves s) place hinner

end TextCall

/-- Each call that could be started has its own callback called once, after all of them have started
and all engines have run, in the order of the calls, and with what the call would give in its turn
without a loop. A call that cannot be started delivers nothing and ends the starting, and the ones
before it deliver all the same. What an engine that is not the program gives or raises for one call,
and how the program ends for one call, changes nothing for the others; and neither does it that a
call is left out which leaves the world as it was. -/
theorem callbacks_delivered :
    (∀ (calls : List TextCall) (s : Session), ∃ begun stop engines,
      TextCall.Start calls begun stop ∧
        (leftInTurn begun s).events = s.events ++ engines ∧
        (∀ event ∈ engines, Linter.IsEngineStart event) ∧
        (together (calls.map TextCall.task)).gives s = ending stop ∧
        ((together (calls.map TextCall.task)).leaves s).events =
          s.events ++ List.replicate begun.length .returned ++ engines ++
            shownAfter stop (givenInTurn begun s)) ∧
    (∀ (before after : List TextCall) (call : TextCall)
        (onText onText' : EngineConfig → Text → Except Failure Report)
        (onFiles onFiles' : EngineConfig → List Path → Except Failure Report),
      call.linter.engine = .other onText onFiles →
        ∀ begun stop, TextCall.Start (before ++ call :: after) begun stop →
          ∃ others,
            TextCall.Start (before ++ call.withEngine (.other onText' onFiles') :: after) others
              stop ∧
            ∀ s place, place ≠ before.length →
              (givenInTurn others s)[place]? = (givenInTurn begun s)[place]?) ∧
    (∀ calls begun stop, TextCall.Start calls begun stop →
      ∀ (s : Session) (used rest : List EngineOutcome) (outcome other : EngineOutcome),
        ∃ index,
          (∀ place, place ≠ index →
            (givenInTurn begun { s with outcomes := used ++ other :: rest })[place]? =
              (givenInTurn begun { s with outcomes := used ++ outcome :: rest })[place]?) ∧
          (index < begun.length →
            (leftInTurn (begun.take index)
              { s with outcomes := used ++ outcome :: rest }).outcomes = outcome :: rest ∧
            (leftInTurn (begun.take (index + 1))
              { s with outcomes := used ++ outcome :: rest }).outcomes = rest)) ∧
    ∀ calls before call after stop, TextCall.Start calls (before ++ call :: after) stop →
      ∀ s : Session,
        (leftInTurn before s).SameWorld (call.run.leaves (leftInTurn before s)) →
          ∃ others, givenInTurn (before ++ after) s = givenInTurn before s ++ others ∧
            givenInTurn (before ++ call :: after) s =
              givenInTurn before s ++
                ⟨call.callback, call.run.gives (leftInTurn before s)⟩ :: others := by
  refine ⟨fun calls s => ?_, fun before after call onText onText' onFiles onFiles' hengine => ?_,
    fun calls begun stop hstart s used rest outcome other => ?_,
    fun calls before call after stop hstart s halike => ?_⟩
  · obtain ⟨begun, stop, hstart⟩ := TextCall.exists_start calls
    obtain ⟨engines, hengines, hshown, hshowing⟩ := hstart.inTurn_showing s
    obtain ⟨hgiven, hleft⟩ := hshowing (List.replicate begun.length .returned)
    obtain ⟨rest, htasks, hrest⟩ := hstart.map_task
    rw [htasks, gives, leaves, together_eq begun hrest s]
    refine ⟨begun, stop, engines, hstart, hengines, hshown, ?_, ?_⟩
    · cases stop <;> rfl
    · rw [← hleft, ← hgiven]
      cases stop <;> rfl
  · exact fun begun stop hstart => hstart.withEngine hengine
  · exact givenInTurn_of_differAt hstart.lintsText
      ⟨rfl, rfl, rfl, rfl, rfl, ⟨used, rfl, rfl⟩, trivial⟩
  · obtain ⟨hgiven, -⟩ := respects_inTurn (fun other (hmem : other ∈ after) =>
      (hstart.lintsText other (by simp [hmem])).respects fun _ _ _ _ => trivial) halike
    exact ⟨_, givenInTurn_append before after s, by rw [givenInTurn_append, givenInTurn, hgiven]⟩

/-- A session with no file, in which the engine finds nothing two times. -/
def quietSession : Session where
  files := .empty
  temporary := .absolute ["tmp"]
  stamp := "1"
  outcomes := [.quiet, .quiet]

def plainCall (callback : Callback) : TextCall where
  text := "x"
  options := .nothing
  callback := some callback

/-- An engine that gives or raises the same for everything. -/
def constantEngine (outcome : Except Failure Report) : EngineKind :=
  .other (fun _ _ => outcome) fun _ _ => outcome

/-- A call with a callback in the place of the options, whose engine always ends in one way. -/
def constantCall (outcome : Except Failure Report) (callback : Callback) : TextCall where
  linter := { engine := constantEngine outcome }
  text := "x"
  options := .callback callback
  callback := none

def plainBegun (callback : Callback) : Begun :=
  ⟨callback, ({} : Linter).lintText "x" {}⟩

def constantBegun (outcome : Except Failure Report) (callback : Callback) : Begun :=
  ⟨callback, ({ engine := constantEngine outcome } : Linter).lintText "x" {}⟩

/-- What an engine may raise. -/
def explosion : Failure :=
  .raised "RuntimeError" "engine exploded"

/-- Three calls, of which the second one has an engine that raises something. -/
def aroundExplosion : List TextCall :=
  [plainCall ⟨0⟩, constantCall (.error explosion) ⟨1⟩, plainCall ⟨2⟩]

theorem start_aroundExplosion : TextCall.Start aroundExplosion
    ([plainBegun ⟨0⟩] ++ constantBegun (.error explosion) ⟨1⟩ :: [plainBegun ⟨2⟩]) none := by
  have hplain : ∀ callback, (plainCall callback).Starts (plainBegun callback) :=
    fun callback => ⟨_, .absent callback, rfl, rfl⟩
  exact .next (hplain _) (.next ⟨_, .inPlace _, rfl, rfl⟩ (.next (hplain _) .done))

/-- Each of three callbacks gets what its own call gives, and the failure in the middle stays with
the call whose engine raises it. -/
theorem explosion_delivered :
    TextCall.Start aroundExplosion
      ([plainBegun ⟨0⟩] ++ constantBegun (.error explosion) ⟨1⟩ :: [plainBegun ⟨2⟩]) none ∧
    (∃ begun stop engines, TextCall.Start aroundExplosion begun stop ∧
      ((together (aroundExplosion.map TextCall.task)).leaves quietSession).events =
        quietSession.events ++ List.replicate begun.length .returned ++ engines ++
          shownAfter stop (givenInTurn begun quietSession)) ∧
    (constantCall (.error explosion) ⟨1⟩).linter.engine = constantEngine (.error explosion) ∧
    (∃ others, TextCall.Start ([plainCall ⟨0⟩] ++
        (constantCall (.error explosion) ⟨1⟩).withEngine (constantEngine (.ok .empty)) ::
          [plainCall ⟨2⟩]) others none ∧
      ∀ s place, place ≠ 1 → (givenInTurn others s)[place]? = (givenInTurn ([plainBegun ⟨0⟩] ++
        constantBegun (.error explosion) ⟨1⟩ :: [plainBegun ⟨2⟩]) s)[place]?) ∧
    ∃ others,
      givenInTurn [plainBegun ⟨0⟩, plainBegun ⟨2⟩] quietSession =
          givenInTurn [plainBegun ⟨0⟩] quietSession ++ others ∧
        givenInTurn ([plainBegun ⟨0⟩] ++ constantBegun (.error explosion) ⟨1⟩ ::
            [plainBegun ⟨2⟩]) quietSession =
          givenInTurn [plainBegun ⟨0⟩] quietSession ++ ⟨⟨1⟩, .error explosion⟩ :: others := by
  obtain ⟨hturn, hengine, -, hleftOut⟩ := callbacks_delivered
  obtain ⟨begun, stop, engines, hstart, -, -, -, hevents⟩ := hturn aroundExplosion quietSession
  refine ⟨start_aroundExplosion, ⟨begun, stop, engines, hstart, hevents⟩, rfl, ?_, ?_⟩
  · exact hengine [plainCall ⟨0⟩] [plainCall ⟨2⟩] (constantCall (.error explosion) ⟨1⟩) _ _ _ _ rfl
      _ _ start_aroundExplosion
  · exact hleftOut _ [plainBegun ⟨0⟩] (constantBegun (.error explosion) ⟨1⟩) [plainBegun ⟨2⟩] none
      start_aroundExplosion quietSession ⟨rfl, rfl, rfl, rfl, rfl, rfl, trivial⟩

end ProjectLint.Callback

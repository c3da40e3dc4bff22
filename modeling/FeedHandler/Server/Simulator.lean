import FeedHandler.Server.Run
import FeedHandler.Server.Pacing

/-! The whole `ExchangeSimulator`: `run()` as it puts together the parts modelled one by one
(the events of `epoll_wait`, `handle_new_connection`, the tick check, `generate_and_broadcast_tick`
and `broadcast_message`), `set_tick_rate` and `stop()`.

Over any sequence of calls the three parts evolve on their own (`Simulator.exec_components`):
the pacing as `Pacer.exec` runs the calls, the tick source as `Ticker.run` runs the draws of the
calls that tick, and the clients as `serve` runs the accept batches and the ticks' frames, in
order. The pacing decides which calls tick; nothing flows back into it. A run fails (`none`)
exactly when a tick comes with no symbols, where `generate_and_broadcast_tick` divides by zero.

An error on the listening socket sets `running_ = false`: no later `run()` does anything, and
`stop()` returns at its first line, so it closes none of the clients still connected
(`Simulator.stop_exec`). -/

namespace FeedHandler.Server
open Protocol

/-- The simulator's state: the pacing fields, the tick source, and the clients with the
totals. -/
structure Simulator where
  pacer : Pacer
  ticker : Ticker
  clients : ExchangeSimulator
  deriving DecidableEq, Repr

/-- What one `run()` call meets: what `epoll_wait` reported, the descriptors `accept` returns
when the listening socket is readable (each with whether its setup succeeded), the clock, what
a tick draws, and the kernel's answer to the send to each descriptor. -/
structure RunInput where
  poll : Poll
  accepted : List (Int × Bool)
  now : UInt64
  draw : TickValues
  send : Int → SendCall

/-- `ExchangeSimulator(port, num_symbols)`. -/
def Simulator.new (numSymbols : Nat) : Simulator := ⟨Pacer.new, Ticker.new numSymbols, .init⟩

/-- A `start()` that gets its sockets, at clock reading `now`. -/
def Simulator.start (s : Simulator) (now : UInt64) : Simulator := { s with pacer := s.pacer.start now }

/-- `run()`: the events first, new connections when the listening socket is readable, then the
tick check, and for a tick the next symbol's message broadcast. The sends it made; `none` if the
tick divides by zero. -/
def Simulator.run (s : Simulator) (input : RunInput) :
    Option (Simulator × List (ClientConnection × SendCall)) :=
  let paced := s.pacer.run input.poll input.now
  let clients :=
    if s.pacer.running ∧ input.poll = .handled then s.clients.handleNewConnection input.accepted
    else s.clients
  if paced.2 then
    (s.ticker.generateAndBroadcastTick? input.draw).map fun tick =>
      let sent := clients.broadcastMessage tick.2.toBytes.length fun _ fd => input.send fd
      ({ pacer := paced.1, ticker := tick.1, clients := sent.1 }, sent.2)
  else some ({ s with pacer := paced.1, clients }, [])

inductive SimulatorCall
  | setTickRate (ticksPerSecond : UInt32)
  | run (input : RunInput)

/-- Calls one after another: the simulator after them, and the sends made; `none` if a tick
divides by zero. -/
def Simulator.exec (s : Simulator) :
    List SimulatorCall → Option (Simulator × List (ClientConnection × SendCall))
  | [] => some (s, [])
  | .setTickRate r :: calls => { s with pacer := s.pacer.setTickRate r }.exec calls
  | .run input :: calls => do
    let x ← s.run input
    let y ← x.1.exec calls
    pure (y.1, x.2 ++ y.2)

/-- `stop()`: the simulator after it, and the client descriptors it closes. The listening and
`epoll` descriptors are not modelled. -/
def Simulator.stop (s : Simulator) : Simulator × List Int :=
  if !s.pacer.running then (s, [])
  else
    ({ s with pacer := { s.pacer with running := false }, clients := { s.clients with clients := [] } },
      (s.clients.clients.filter (·.active)).map (·.fd))

/-! ## The parts of a run -/

def SimulatorCall.toPacerCall : SimulatorCall → PacerCall
  | .setTickRate r => .setTickRate r
  | .run input => .run input.poll input.now

/-- What a call does to the clients and the tick source: a batch of new connections, or a tick
with its draws and the kernel's answers. -/
inductive Step
  | accept (accepted : List (Int × Bool))
  | tick (draw : TickValues) (send : Int → SendCall)

/-- The steps of one `run()` call, as the pacing decides them. -/
def Pacer.runSteps (p : Pacer) (input : RunInput) : List Step :=
  (if p.running ∧ input.poll = .handled then [.accept input.accepted] else []) ++
    (if (p.run input.poll input.now).2 then [.tick input.draw input.send] else [])

/-- The steps of calls one after another. -/
def Pacer.steps (p : Pacer) : List SimulatorCall → List Step
  | [] => []
  | .setTickRate r :: calls => (p.setTickRate r).steps calls
  | .run input :: calls => p.runSteps input ++ (p.run input.poll input.now).1.steps calls

def Step.draw? : Step → Option TickValues
  | .accept _ => none
  | .tick draw _ => some draw

/-- The kernel's answers at step `e`. -/
def stepAnswer (steps : List Step) (e : Nat) : Int → SendCall :=
  match steps[e]? with
  | some (.tick _ send) => send
  | _ => fun _ => ⟨.failed true, 0⟩

/-- The events of `serve` for the steps: the ticks' frames are those the ticker generates. -/
def Ticker.events (t : Ticker) : List Step → List Event
  | [] => []
  | .accept accepted :: steps => .accept accepted :: t.events steps
  | .tick draw _ :: steps =>
    let x := t.generateAndBroadcastTick draw
    .tick x.2.toBytes.length :: x.1.events steps

theorem Ticker.run_append (t : Ticker) (vs ws : List TickValues) :
    t.run (vs ++ ws) = (((t.run vs).1.run ws).1, (t.run vs).2 ++ ((t.run vs).1.run ws).2) := by
  induction vs generalizing t with
  | nil => rfl
  | cons v vs ih => simp only [List.cons_append, Ticker.run, List.append_eq, ih]

theorem Ticker.events_append (t : Ticker) (pre steps : List Step) :
    t.events (pre ++ steps) =
      t.events pre ++ (t.run (pre.filterMap Step.draw?)).1.events steps := by
  induction pre generalizing t with
  | nil => rfl
  | cons step pre ih =>
    cases step <;> simp only [List.cons_append, Ticker.events, List.append_eq, ih, List.filterMap_cons,
      Step.draw?, Ticker.run]

theorem Ticker.length_events (t : Ticker) (steps : List Step) :
    (t.events steps).length = steps.length := by
  induction steps generalizing t with
  | nil => rfl
  | cons step steps ih => cases step <;> simp only [Ticker.events, List.length_cons, ih]

theorem ExchangeSimulator.serve_append (answer : Nat → Int → SendCall) (s : ExchangeSimulator)
    (e : Nat) (evs₁ evs₂ : List Event) :
    s.serve answer e (evs₁ ++ evs₂) =
      (((s.serve answer e evs₁).1.serve answer (e + evs₁.length) evs₂).1,
        (s.serve answer e evs₁).2 ++ ((s.serve answer e evs₁).1.serve answer (e + evs₁.length) evs₂).2) := by
  induction evs₁ generalizing s e with
  | nil => rfl
  | cons ev evs₁ ih =>
    cases ev <;> simp only [List.cons_append, ExchangeSimulator.serve, List.append_eq, ih,
      List.length_cons, Nat.add_right_comm _ 1, Nat.add_assoc, List.append_assoc]

theorem stepAnswer_append_left {pre : List Step} (steps : List Step) {i : Nat} (h : i < pre.length) :
    stepAnswer (pre ++ steps) i = stepAnswer pre i := by
  simp only [stepAnswer, List.getElem?_append_left h]

theorem stepAnswer_append_right (pre steps : List Step) (i : Nat) :
    stepAnswer (pre ++ steps) (pre.length + i) = stepAnswer steps i := by
  simp only [stepAnswer, List.getElem?_append_right (Nat.le_add_right _ _), Nat.add_sub_cancel_left]

/-- A tick needs a running simulator whose events were handled. -/
theorem Pacer.run_tick {p : Pacer} {poll : Poll} {now : UInt64} (h : (p.run poll now).2 = true) :
    p.running = true ∧ poll = .handled := by
  unfold Pacer.run at h
  cases hr : p.running <;> cases poll <;> simp_all

@[simp] theorem Ticker.numSymbols_run (t : Ticker) (vs : List TickValues) :
    (t.run vs).1.numSymbols = t.numSymbols := by
  induction vs generalizing t with
  | nil => rfl
  | cons v vs ih => exact ih _

/-- **One `run()` call** is its steps on the tick source and on the clients, and the tick check
on the pacing, unless it ticks with no symbols. -/
theorem Simulator.run_components (s : Simulator) (input : RunInput) (a : Nat → Int → SendCall)
    (e : Nat) (ha : ∀ i < (s.pacer.runSteps input).length, a (e + i) = stepAnswer (s.pacer.runSteps input) i) :
    s.run input =
      if s.ticker.numSymbols = 0 ∧ (s.pacer.run input.poll input.now).2 = true then none
      else some (⟨(s.pacer.run input.poll input.now).1,
          (s.ticker.run ((s.pacer.runSteps input).filterMap Step.draw?)).1,
          (s.clients.serve a e (s.ticker.events (s.pacer.runSteps input))).1⟩,
        (s.clients.serve a e (s.ticker.events (s.pacer.runSteps input))).2.map Prod.snd) := by
  by_cases ht : (s.pacer.run input.poll input.now).2 = true
  · have hc := Pacer.run_tick ht
    have hsteps : s.pacer.runSteps input = [.accept input.accepted, .tick input.draw input.send] := by
      rw [Pacer.runSteps, if_pos hc, if_pos ht]
      rfl
    have hsend : a (e + 1) = input.send := by
      rw [ha 1 (by rw [hsteps]; exact Nat.one_lt_two), hsteps]
      rfl
    rw [hsteps]
    by_cases h0 : s.ticker.numSymbols = 0
    · simp only [Simulator.run, if_pos ht, Ticker.generateAndBroadcastTick?, if_pos h0, Option.map_none',
        h0, ht, and_self, if_true]
    · simp only [Simulator.run, if_pos hc, if_pos ht, Ticker.generateAndBroadcastTick?, if_neg h0,
        Option.map_some', h0, false_and, if_false, Step.draw?, List.filterMap_cons, List.filterMap_nil,
        Ticker.run, Ticker.events, ExchangeSimulator.serve, hsend, List.append_nil, List.map_map,
        Function.comp_def, List.map_id']
  · rw [Pacer.runSteps, if_neg ht, List.append_nil, if_neg fun h => ht h.2]
    by_cases hc : s.pacer.running = true ∧ input.poll = .handled
    · simp only [Simulator.run, if_pos hc, if_neg ht, Step.draw?, List.filterMap_cons, List.filterMap_nil,
        Ticker.run, Ticker.events, ExchangeSimulator.serve, List.map_nil]
    · simp only [Simulator.run, if_neg hc, if_neg ht, List.filterMap_nil, Ticker.run, Ticker.events,
        ExchangeSimulator.serve, List.map_nil]

/-- The pacing of a run ticks with no symbols exactly when its first `run()` call does or the
rest of the run does. -/
theorem Pacer.exec_ticks_ne_nil (p : Pacer) (input : RunInput) (calls : List SimulatorCall) {n : Nat}
    (h : ¬(n = 0 ∧ (p.run input.poll input.now).2 = true)) :
    (n = 0 ∧ (p.exec ((SimulatorCall.run input :: calls).map SimulatorCall.toPacerCall)).2 ≠ []) ↔
      (n = 0 ∧ ((p.run input.poll input.now).1.exec (calls.map SimulatorCall.toPacerCall)).2 ≠ []) := by
  by_cases ht : (p.run input.poll input.now).2 = true
  · have hn : n ≠ 0 := fun h0 => h ⟨h0, ht⟩
    simp only [hn, false_and]
  · simp only [List.map_cons, SimulatorCall.toPacerCall, Pacer.exec, ht, Bool.false_eq_true, if_false]

/-- **Any run** of the simulator is the runs of its parts, unless it ticks with no symbols. -/
theorem Simulator.exec_serve (s : Simulator) (calls : List SimulatorCall) (a : Nat → Int → SendCall)
    (e : Nat) (ha : ∀ i, a (e + i) = stepAnswer (s.pacer.steps calls) i) :
    s.exec calls =
      if s.ticker.numSymbols = 0 ∧ (s.pacer.exec (calls.map SimulatorCall.toPacerCall)).2 ≠ [] then none
      else some (⟨(s.pacer.exec (calls.map SimulatorCall.toPacerCall)).1,
          (s.ticker.run ((s.pacer.steps calls).filterMap Step.draw?)).1,
          (s.clients.serve a e (s.ticker.events (s.pacer.steps calls))).1⟩,
        (s.clients.serve a e (s.ticker.events (s.pacer.steps calls))).2.map Prod.snd) := by
  induction calls generalizing s e with
  | nil => simp [Simulator.exec, Pacer.exec, Pacer.steps, Ticker.run, Ticker.events,
      ExchangeSimulator.serve]
  | cons call calls ih =>
    cases call with
    | setTickRate r => exact ih { s with pacer := s.pacer.setTickRate r } e ha
    | run input =>
      have hpre := fun i (hi : i < (s.pacer.runSteps input).length) =>
        (ha i).trans (stepAnswer_append_left _ hi)
      rw [Simulator.exec, s.run_components input a e hpre]
      by_cases hfail : s.ticker.numSymbols = 0 ∧ (s.pacer.run input.poll input.now).2 = true
      · have hticks : (s.pacer.exec ((SimulatorCall.run input :: calls).map SimulatorCall.toPacerCall)).2 ≠ [] := by
          simp [SimulatorCall.toPacerCall, Pacer.exec, hfail.2]
        rw [if_pos hfail, if_pos ⟨hfail.1, hticks⟩]
        rfl
      · rw [if_neg hfail]
        simp only [Option.bind_eq_bind, Option.some_bind]
        set s₁ : Simulator := ⟨(s.pacer.run input.poll input.now).1,
          (s.ticker.run ((s.pacer.runSteps input).filterMap Step.draw?)).1,
          (s.clients.serve a e (s.ticker.events (s.pacer.runSteps input))).1⟩
        have hrest := ih s₁ (e + (s.pacer.runSteps input).length) fun i => by
          rw [Nat.add_assoc, ha]
          exact stepAnswer_append_right _ _ i
        have hn : s₁.ticker.numSymbols = s.ticker.numSymbols := Ticker.numSymbols_run _ _
        have hiff := Pacer.exec_ticks_ne_nil s.pacer input calls hfail
        rw [hrest, hn]
        by_cases hc : s.ticker.numSymbols = 0 ∧ (s₁.pacer.exec (calls.map SimulatorCall.toPacerCall)).2 ≠ []
        · rw [if_pos hc, if_pos (hiff.mpr hc)]
          rfl
        · rw [if_neg hc, if_neg (mt hiff.mp hc), Option.some_bind]
          simp only [s₁, Pacer.steps, List.map_cons, SimulatorCall.toPacerCall, Pacer.exec,
            List.filterMap_append, Ticker.run_append, Ticker.events_append,
            ExchangeSimulator.serve_append, Ticker.length_events, List.map_append]
          rfl

theorem Pacer.steps_draws (p : Pacer) (calls : List SimulatorCall) :
    ((p.steps calls).filterMap Step.draw?).length = (p.exec (calls.map SimulatorCall.toPacerCall)).2.length := by
  induction calls generalizing p with
  | nil => rfl
  | cons call calls ih =>
    cases call with
    | setTickRate r => exact ih _
    | run input =>
      simp only [Pacer.steps, Pacer.runSteps, List.map_cons, SimulatorCall.toPacerCall, Pacer.exec,
        List.filterMap_append, List.length_append, ih]
      split_ifs <;> simp [Step.draw?, Nat.add_comm]

/-- **A run of the simulator is the runs of its parts.** Any calls fail exactly when the pacing
ticks while there are no symbols, where `generate_and_broadcast_tick` divides by zero. Otherwise,
after them, the pacing is `Pacer.exec` of the calls, the tick source is `Ticker.run` of the draws
of the calls that tick, one per tick the pacing emits, and the clients and the sends are `serve`
of the accept batches and the ticks' frames, in order, each tick's sends answered by its own
call. -/
theorem Simulator.exec_components (s : Simulator) (calls : List SimulatorCall) :
    s.exec calls =
      (if s.ticker.numSymbols = 0 ∧ (s.pacer.exec (calls.map SimulatorCall.toPacerCall)).2 ≠ [] then none
      else some (⟨(s.pacer.exec (calls.map SimulatorCall.toPacerCall)).1,
          (s.ticker.run ((s.pacer.steps calls).filterMap Step.draw?)).1,
          (s.clients.serve (stepAnswer (s.pacer.steps calls)) 0 (s.ticker.events (s.pacer.steps calls))).1⟩,
        (s.clients.serve (stepAnswer (s.pacer.steps calls)) 0
          (s.ticker.events (s.pacer.steps calls))).2.map Prod.snd)) ∧
      ((s.pacer.steps calls).filterMap Step.draw?).length =
        (s.pacer.exec (calls.map SimulatorCall.toPacerCall)).2.length :=
  ⟨s.exec_serve calls _ 0 fun i => by rw [Nat.zero_add], s.pacer.steps_draws calls⟩

/-- A run that completes is the runs of its parts. -/
theorem Simulator.exec_eq_some {s : Simulator} {calls : List SimulatorCall}
    {r : Simulator × List (ClientConnection × SendCall)} (hr : s.exec calls = some r) :
    r = (⟨(s.pacer.exec (calls.map SimulatorCall.toPacerCall)).1,
        (s.ticker.run ((s.pacer.steps calls).filterMap Step.draw?)).1,
        (s.clients.serve (stepAnswer (s.pacer.steps calls)) 0 (s.ticker.events (s.pacer.steps calls))).1⟩,
      (s.clients.serve (stepAnswer (s.pacer.steps calls)) 0
        (s.ticker.events (s.pacer.steps calls))).2.map Prod.snd) := by
  rw [s.exec_serve calls _ 0 fun i => by rw [Nat.zero_add]] at hr
  split at hr
  · cases hr
  · exact (Option.some.inj hr).symm

/-! ## Stopping -/

def SimulatorCall.listenError : SimulatorCall → Bool
  | .setTickRate _ => false
  | .run input => decide (input.poll = .listenError)

theorem Pacer.running_run (p : Pacer) (poll : Poll) (now : UInt64) :
    (p.run poll now).1.running = (p.running && !decide (poll = .listenError)) := by
  unfold Pacer.run
  cases h : p.running
  · simpa using h
  · cases poll
    case handled => split_ifs <;> simp [h]
    all_goals simp [h]

/-- `running_` stays set until a `run()` meets an error on the listening socket. -/
theorem Pacer.running_exec (p : Pacer) (calls : List SimulatorCall) :
    (p.exec (calls.map SimulatorCall.toPacerCall)).1.running =
      (p.running && !calls.any SimulatorCall.listenError) := by
  induction calls generalizing p with
  | nil => simp [Pacer.exec]
  | cons call calls ih =>
    cases call with
    | setTickRate r =>
      simp only [List.map_cons, SimulatorCall.toPacerCall, Pacer.exec, ih, List.any_cons,
        SimulatorCall.listenError, Bool.false_or]
      rw [Pacer.setTickRate_eq]
      split <;> rfl
    | run input =>
      simp only [List.map_cons, SimulatorCall.toPacerCall, Pacer.exec, ih, Pacer.running_run,
        List.any_cons, SimulatorCall.listenError, Bool.not_or, Bool.and_assoc]

theorem ExchangeSimulator.handleNewConnection_active {s : ExchangeSimulator}
    (h : ∀ c ∈ s.clients, c.active = true) (accepted : List (Int × Bool)) :
    ∀ c ∈ (s.handleNewConnection accepted).clients, c.active = true := by
  simp only [ExchangeSimulator.handleNewConnection, List.mem_append, List.mem_map]
  rintro c (hc | ⟨_, -, rfl⟩)
  exacts [h c hc, rfl]

theorem ExchangeSimulator.broadcastMessage_active {s : ExchangeSimulator}
    (h : ∀ c ∈ s.clients, c.active = true) (len : Nat) (send : Nat → Int → SendCall) :
    ∀ c ∈ (s.broadcastMessage len send).1.clients, c.active = true := by
  obtain ⟨hsends, -, hclients, -, -⟩ := broadcastMessage_spec s len send
  intro c hc
  rcases List.mem_append.mp (hclients.mem_iff.mp hc) with hc | hc
  · obtain ⟨hc, hinactive⟩ := List.mem_filter.mp hc
    simp [h c hc] at hinactive
  · obtain ⟨sent, hsent, hafter⟩ := List.mem_filterMap.mp hc
    rw [(afterSend_fd_active hafter).2]
    exact (List.mem_filter.mp (hsends.mem_iff.mp (List.mem_map_of_mem _ hsent))).2

/-- The clients stay active over any run: a client is removed when its send fails. -/
theorem ExchangeSimulator.serve_active (answer : Nat → Int → SendCall) {s : ExchangeSimulator}
    (h : ∀ c ∈ s.clients, c.active = true) (e : Nat) (events : List Event) :
    ∀ c ∈ (s.serve answer e events).1.clients, c.active = true := by
  induction events generalizing s e with
  | nil => exact h
  | cons event events ih =>
    cases event with
    | accept accepted => exact ih (ExchangeSimulator.handleNewConnection_active h accepted) _
    | tick len => exact ih (ExchangeSimulator.broadcastMessage_active h len _) _

/-- **What `stop()` closes.** From a started simulator whose clients are connected, after any
calls that complete, `stop()` closes the descriptor of every client still in the list and
empties it, unless a `run()` met an error on the listening socket: then it closes none of them
and changes nothing. -/
theorem Simulator.stop_exec (s : Simulator) (hrun : s.pacer.running = true)
    (hact : ∀ c ∈ s.clients.clients, c.active = true) (calls : List SimulatorCall)
    {r : Simulator × List (ClientConnection × SendCall)} (hr : s.exec calls = some r) :
    (calls.any SimulatorCall.listenError = false →
      r.1.stop.2 = r.1.clients.clients.map (·.fd) ∧ r.1.stop.1.clients.clients = []) ∧
    (calls.any SimulatorCall.listenError = true → r.1.stop = (r.1, [])) := by
  obtain rfl := Simulator.exec_eq_some hr
  have hrunning := s.pacer.running_exec calls
  have hactive := ExchangeSimulator.serve_active (stepAnswer (s.pacer.steps calls)) hact 0
    (s.ticker.events (s.pacer.steps calls))
  rw [hrun, Bool.true_and] at hrunning
  refine ⟨fun hl => ?_, fun hl => ?_⟩
  · rw [hl, Bool.not_false] at hrunning
    simp only [Simulator.stop, hrunning, Bool.not_true, Bool.false_eq_true, if_false, and_true]
    rw [List.filter_eq_self.mpr hactive]
  · rw [hl, Bool.not_true] at hrunning
    simp only [Simulator.stop, hrunning, Bool.not_false, if_true]

/-- A client connects at the first `run()`, and the second meets an error on the listening
socket. -/
def listenErrorCalls : List SimulatorCall :=
  [.run ⟨.handled, [(5, true)], 1, ⟨true, 7, ⟨⟨1⟩, 2⟩, ⟨⟨3⟩, 4, ⟨5⟩, 6⟩, ⟨⟨0⟩, 0⟩, ⟨⟨0⟩, 0, ⟨0⟩, 0⟩⟩,
      fun _ => ⟨.sent 32, 0⟩⟩,
    .run ⟨.listenError, [], 2, ⟨true, 7, ⟨⟨1⟩, 2⟩, ⟨⟨3⟩, 4, ⟨5⟩, 6⟩, ⟨⟨0⟩, 0⟩, ⟨⟨0⟩, 0, ⟨0⟩, 0⟩⟩,
      fun _ => ⟨.sent 32, 0⟩⟩]

/-- After the error, `stop()` closes nothing, and descriptor 5 stays in the list. -/
theorem stop_exec_listen_error :
    ∃ r, ((Simulator.new 1).start 0).exec listenErrorCalls = some r ∧ r.1.stop = (r.1, []) ∧
      r.1.clients.clients.map (·.fd) = [5] :=
  ⟨_, rfl, (Simulator.stop_exec ((Simulator.new 1).start 0) rfl (fun _ hc => absurd hc (List.not_mem_nil _))
    listenErrorCalls rfl).2 rfl, by decide⟩

end FeedHandler.Server

import FeedHandler.Server.TickGenerator

/-! The pacing of `ExchangeSimulator`'s ticks: `start`, `set_tick_rate` and the tick check at
the end of `run()`. A `run()` call generates at most one tick, when `tick_interval_ns_` has
passed since the last one, and each tick is at least the interval in force after the one
before it (`Pacer.exec_paced`). `set_tick_rate(0)` changes only `tick_rate_`: the interval
stays, and ticks go on at the rate set before. -/

namespace FeedHandler.Server

/-- What `run()` has seen from `epoll_wait` when it reaches the tick check, or why it does not
reach it: `epoll_wait` returned an error and `run()` returns (`failed`); an error on the listening
socket sets `running_ = false` and `run()` returns (`listenError`); the events were handled (new
connections, client errors), or none came within 1 ms (`handled`). -/
inductive Poll
  | failed
  | listenError
  | handled
  deriving DecidableEq, Repr

/-- The fields of `ExchangeSimulator` that pace the ticks. -/
structure Pacer where
  running : Bool
  tickRate : UInt32
  tickIntervalNs : UInt64
  lastTickTimeNs : UInt64
  deriving DecidableEq, Repr

/-- The constructor: `running_(false)`, `tick_rate_(100000)`, `tick_interval_ns_(10000)`,
`last_tick_time_ns_(0)`. -/
def Pacer.new : Pacer := ⟨false, 100000, 10000, 0⟩

/-- A `start()` that gets its sockets, at clock reading `now`. -/
def Pacer.start (p : Pacer) (now : UInt64) : Pacer :=
  { p with running := true, lastTickTimeNs := now }

def Pacer.setTickRate (p : Pacer) (ticksPerSecond : UInt32) : Pacer :=
  let p := { p with tickRate := ticksPerSecond }
  if p.tickRate > 0 then { p with tickIntervalNs := 1000000000 / p.tickRate.toUInt64 } else p

/-- `run()` with the clock reading `get_timestamp_ns()` returns there: the state after it, and
whether it called `generate_and_broadcast_tick()`. -/
def Pacer.run (p : Pacer) (poll : Poll) (now : UInt64) : Pacer × Bool :=
  if !p.running then (p, false)
  else
    match poll with
    | .failed => (p, false)
    | .listenError => ({ p with running := false }, false)
    | .handled =>
      if now - p.lastTickTimeNs ≥ p.tickIntervalNs then ({ p with lastTickTimeNs := now }, true)
      else (p, false)

/-- A call of the simulator's public interface that touches the pacing. -/
inductive PacerCall
  | setTickRate (ticksPerSecond : UInt32)
  | run (poll : Poll) (now : UInt64)
  deriving DecidableEq, Repr

/-- Calls one after another: the state after them, and for each tick its clock reading and the
interval in force. -/
def Pacer.exec (p : Pacer) : List PacerCall → Pacer × List (UInt64 × UInt64)
  | [] => (p, [])
  | .setTickRate r :: cs => (p.setTickRate r).exec cs
  | .run poll now :: cs =>
    let x := p.run poll now
    let y := x.1.exec cs
    (y.1, if x.2 then (now, p.tickIntervalNs) :: y.2 else y.2)

/-- The clock readings `run()` calls take, in order. -/
def readings : List PacerCall → List UInt64
  | [] => []
  | .setTickRate _ :: cs => readings cs
  | .run _ now :: cs => now :: readings cs

/-! ## The interval in force -/

/-- The rate of a `set_tick_rate` call that changes the interval: a positive one. -/
def PacerCall.positiveRate? : PacerCall → Option UInt32
  | .setTickRate r => if r = 0 then none else some r
  | .run _ _ => none

/-- The interval in force after the calls `cs`, from an interval `init`: `10^9 / r` for the last
positive rate `r` set, or `init` if none was. -/
def intervalInForce (init : UInt64) (cs : List PacerCall) : UInt64 :=
  match (cs.filterMap PacerCall.positiveRate?).getLast? with
  | some r => 1000000000 / r.toUInt64
  | none => init

/-- The readings of the `run()` calls among `cs`, made after the calls `before`, each with the
interval in force at it. -/
def runsInForce (init : UInt64) (before : List PacerCall) : List PacerCall → List (UInt64 × UInt64)
  | [] => []
  | .setTickRate r :: cs => runsInForce init (before ++ [.setTickRate r]) cs
  | .run poll now :: cs =>
    (now, intervalInForce init before) :: runsInForce init (before ++ [.run poll now]) cs

@[simp] theorem intervalInForce_append_run (init : UInt64) (cs : List PacerCall) (poll : Poll)
    (now : UInt64) : intervalInForce init (cs ++ [.run poll now]) = intervalInForce init cs := by
  simp [intervalInForce, PacerCall.positiveRate?]

theorem intervalInForce_append_setTickRate (init : UInt64) (cs : List PacerCall) (r : UInt32) :
    intervalInForce init (cs ++ [.setTickRate r]) =
      if r = 0 then intervalInForce init cs else 1000000000 / r.toUInt64 := by
  by_cases hr : r = 0 <;> simp [intervalInForce, PacerCall.positiveRate?, hr]

/-! ## One call -/

/-- A positive rate sets the interval to `10^9 / r`; a zero rate changes nothing but
`tick_rate_`. -/
theorem Pacer.setTickRate_eq (p : Pacer) (r : UInt32) :
    p.setTickRate r = if r = 0 then { p with tickRate := 0 }
      else { p with tickRate := r, tickIntervalNs := 1000000000 / r.toUInt64 } := by
  unfold Pacer.setTickRate
  by_cases hr : r = 0
  · subst hr
    rfl
  · have hpos : r > 0 := Nat.pos_of_ne_zero fun h => hr (UInt32.toNat.inj h)
    simp only [hr, hpos, if_true, if_false]

@[simp] theorem Pacer.lastTickTimeNs_setTickRate (p : Pacer) (r : UInt32) :
    (p.setTickRate r).lastTickTimeNs = p.lastTickTimeNs := by
  rw [Pacer.setTickRate_eq]
  split <;> rfl

/-- A `run()` call ticks only once the interval has passed since the last tick, and then
records its reading; otherwise the last tick stays. -/
theorem Pacer.run_spec (p : Pacer) (poll : Poll) (now : UInt64) :
    (p.run poll now).1.lastTickTimeNs = (if (p.run poll now).2 then now else p.lastTickTimeNs) ∧
      ((p.run poll now).2 = true → p.tickIntervalNs ≤ now - p.lastTickTimeNs) := by
  unfold Pacer.run
  cases p.running
  · exact ⟨rfl, nofun⟩
  cases poll
  · exact ⟨rfl, nofun⟩
  · exact ⟨rfl, nofun⟩
  by_cases hdue : now - p.lastTickTimeNs ≥ p.tickIntervalNs
  · simp only [Bool.not_true, Bool.false_eq_true, if_false, hdue, if_true, and_self, implies_true]
  · simp only [Bool.not_true, Bool.false_eq_true, if_false, hdue, and_self, false_implies]

@[simp] theorem Pacer.tickIntervalNs_run (p : Pacer) (poll : Poll) (now : UInt64) :
    (p.run poll now).1.tickIntervalNs = p.tickIntervalNs := by
  unfold Pacer.run
  split
  · rfl
  · split <;> (try split) <;> rfl

/-! ## A run of calls -/

/-- **The interval in force over a run.** When the interval is the one in force after the calls
`before`, it is after `cs` the one in force after `before ++ cs`, and each tick is one of the
`run()` calls of `cs`, with the interval in force at it. -/
theorem Pacer.exec_inForce (p : Pacer) (init : UInt64) (before : List PacerCall)
    (h : p.tickIntervalNs = intervalInForce init before) (cs : List PacerCall) :
    (p.exec cs).1.tickIntervalNs = intervalInForce init (before ++ cs) ∧
      (p.exec cs).2.Sublist (runsInForce init before cs) := by
  induction cs generalizing p before with
  | nil => exact ⟨by rw [List.append_nil]; exact h, .slnil⟩
  | cons c cs ih =>
    rw [← List.singleton_append, ← List.append_assoc]
    cases c with
    | setTickRate r =>
      refine ih (p.setTickRate r) _ ?_
      rw [Pacer.setTickRate_eq, intervalInForce_append_setTickRate]
      split
      · exact h
      · rfl
    | run poll now =>
      obtain ⟨hi, hs⟩ := ih (p.run poll now).1 (before ++ [.run poll now])
        (by rw [Pacer.tickIntervalNs_run, intervalInForce_append_run, h])
      refine ⟨hi, ?_⟩
      simp only [Pacer.exec, runsInForce]
      split
      · rw [h]
        exact hs.cons₂ _
      · exact hs.cons _

/-- Each tick comes at least the interval in force after the one before it, while the clock
readings do not go down. -/
theorem Pacer.exec_spaced (p : Pacer) (cs : List PacerCall)
    (hclock : List.Chain (· ≤ ·) p.lastTickTimeNs (readings cs)) :
    List.Chain (fun a b : UInt64 × UInt64 => a.1.toNat + b.2.toNat ≤ b.1.toNat)
      (p.lastTickTimeNs, 0) (p.exec cs).2 := by
  induction cs generalizing p with
  | nil => exact .nil
  | cons c cs ih =>
    cases c with
    | setTickRate r =>
      have := ih (p.setTickRate r) (by rwa [Pacer.lastTickTimeNs_setTickRate])
      rwa [Pacer.lastTickTimeNs_setTickRate] at this
    | run poll now =>
      obtain ⟨hle, hrest⟩ := List.chain_cons.mp hclock
      obtain ⟨hlast, hdue⟩ := p.run_spec poll now
      simp only [Pacer.exec]
      cases hx : (p.run poll now).2
      · rw [hx, if_neg Bool.false_ne_true] at hlast
        rw [← hlast] at hle
        have := ih (p.run poll now).1 (hrest.imp' (fun _ _ => id) fun _ => UInt64.le_trans hle)
        rwa [hlast] at this
      · rw [hx, if_pos rfl] at hlast
        have hgap : p.tickIntervalNs.toNat ≤ (now - p.lastTickTimeNs).toNat := hdue hx
        have hle' : p.lastTickTimeNs.toNat ≤ now.toNat := hle
        rw [UInt64.toNat_sub_of_le _ _ hle] at hgap
        refine .cons (by dsimp only; omega) ?_
        have := ih (p.run poll now).1 (by rw [hlast]; exact hrest)
        rw [hlast] at this
        exact @List.Chain.imp' _ _ _ (fun _ _ => id) (now, 0) (now, p.tickIntervalNs) (fun _ => id) _ this

/-- **Pacing over any run.** From any state, over any calls whose clock readings do not go down
from the last tick on: each tick is one of the `run()` calls, with the interval in force at it,
`10^9 / r` for the last positive rate `r` set before it or the state's interval if none was; each
tick comes at least that interval after the one before it, the first at least that interval after
the last tick before the run; and the interval after the run is the one in force. -/
theorem Pacer.exec_paced (p : Pacer) (cs : List PacerCall)
    (hclock : List.Chain (· ≤ ·) p.lastTickTimeNs (readings cs)) :
    (p.exec cs).2.Sublist (runsInForce p.tickIntervalNs [] cs) ∧
      List.Chain (fun a b : UInt64 × UInt64 => a.1.toNat + b.2.toNat ≤ b.1.toNat)
        (p.lastTickTimeNs, 0) (p.exec cs).2 ∧
      (p.exec cs).1.tickIntervalNs = intervalInForce p.tickIntervalNs cs :=
  have h := p.exec_inForce p.tickIntervalNs [] rfl cs
  ⟨h.2, p.exec_spaced cs hclock, h.1⟩

/-- A tick at `10000`, the rate set to `50000` a second, and ticks checked at `15000` (too early)
and `30000`. -/
theorem exec_paced_rate_change :
    let calls := [PacerCall.run .handled 10000, .setTickRate 50000, .run .handled 15000,
      .run .handled 30000]
    List.Chain (· ≤ ·) (Pacer.new.start 0).lastTickTimeNs (readings calls) ∧
      ((Pacer.new.start 0).exec calls).2.Sublist
        (runsInForce (Pacer.new.start 0).tickIntervalNs [] calls) ∧
      List.Chain (fun a b : UInt64 × UInt64 => a.1.toNat + b.2.toNat ≤ b.1.toNat)
        ((Pacer.new.start 0).lastTickTimeNs, 0) ((Pacer.new.start 0).exec calls).2 ∧
      ((Pacer.new.start 0).exec calls).1.tickIntervalNs =
        intervalInForce (Pacer.new.start 0).tickIntervalNs calls := by
  intro calls
  have hclock : List.Chain (· ≤ ·) (Pacer.new.start 0).lastTickTimeNs (readings calls) :=
    .cons (by decide) (.cons (by decide) (.cons (by decide) .nil))
  exact ⟨hclock, Pacer.exec_paced _ _ hclock⟩

/-- **`set_tick_rate(0)` does not stop the ticks.** It leaves the interval as it was, so after
`start()` at `0`, a tick at `10000`, and `set_tick_rate(0)`, the ticks go on every `10000` ns,
neither stopping nor slowing to one per second. -/
theorem set_tick_rate_zero_keeps_ticking (p : Pacer) :
    p.setTickRate 0 = { p with tickRate := 0 } ∧
      ((Pacer.new.start 0).exec [.run .handled 10000, .setTickRate 0, .run .handled 20000,
        .run .handled 30000]).2 = [(10000, 10000), (20000, 10000), (30000, 10000)] :=
  ⟨by rw [Pacer.setTickRate_eq, if_pos rfl], by decide⟩

end FeedHandler.Server

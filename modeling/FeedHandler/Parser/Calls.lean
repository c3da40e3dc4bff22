import FeedHandler.Parser.Stream

/-! The parser driven by any sequence of its public calls, and what a run does as the counters
and the sequence tracking see it.

An `Event` is one thing they react to: an unknown header dropped, a message that failed its
checksum, a message handed to `process_message`, or a reset (called, or done by `parse` on a
full buffer). On the list model each `parse_message` call has at most one event
(`Reframer.event`), and a run's events are collected call by call (`Reframer.runEvents`).
`ParserCore.onEvent` is what an event does to the fields other than the buffer; between
setters, the run is these effects one after another (`Reframer.run_core`). The buffer model's
run refines the list model's (`MessageParser.run_refines`). -/

namespace FeedHandler.Parser
open Protocol

/-! ## Runs of calls -/

/-- The calls made one after another: the state after them, and every callback made. -/
def MessageParser.run (s : MessageParser) : List Call → Except Fault (MessageParser × List Invocation)
  | [] => .ok (s, [])
  | c :: cs => s.call c >>= fun r => r.1.run cs >>= fun t => .ok (t.1, r.2 ++ t.2)

/-- `MessageParser.call` on the list model. -/
def Reframer.call (r : Reframer) : Call → Reframer × List Invocation
  | .setTradeCallback b => ({ r with tradeCallback := b }, [])
  | .setQuoteCallback b => ({ r with quoteCallback := b }, [])
  | .setHeartbeatCallback b => ({ r with heartbeatCallback := b }, [])
  | .setValidateChecksum b => ({ r with validateChecksum := b }, [])
  | .setValidateSequence b => ({ r with validateSequence := b }, [])
  | .parse data => ((r.parse data).1, (r.parse data).2.2)
  | .reset => (r.reset, [])

def Reframer.run (r : Reframer) : List Call → Reframer × List Invocation
  | [] => (r, [])
  | c :: cs =>
    let x := r.call c
    let y := x.1.run cs
    (y.1, x.2 ++ y.2)

/-- The calls that feed bytes or reset, and leave the callbacks and the flags alone. -/
def Call.isInput : Call → Bool
  | .parse _ => true
  | .reset => true
  | _ => false

theorem MessageParser.call_refines (s : MessageParser) (hs : s.bufferUsed ≤ BUFFER_SIZE)
    (c : Call) :
    ∃ s', s.call c = .ok (s', (s.toReframer.call c).2) ∧ s'.toReframer = (s.toReframer.call c).1 := by
  cases c with
  | parse data =>
    obtain ⟨s', h, hr⟩ := s.parse_refines hs data
    exact ⟨s', by rw [MessageParser.call, h, ok_bind]; rfl, hr⟩
  | reset => exact ⟨s.reset, rfl, s.toReframer_reset⟩
  | _ => exact ⟨_, rfl, rfl⟩

/-- **A run of calls on the buffer completes, and is the run on the list model**, from every
state whose `buffer_used_` is within the buffer. -/
theorem MessageParser.run_refines (s : MessageParser) (hs : s.bufferUsed ≤ BUFFER_SIZE)
    (cs : List Call) :
    ∃ s', s.run cs = .ok (s', (s.toReframer.run cs).2) ∧ s'.toReframer = (s.toReframer.run cs).1 := by
  induction cs generalizing s with
  | nil => exact ⟨s, rfl, rfl⟩
  | cons c cs ih =>
    obtain ⟨s1, h1, hr1⟩ := s.call_refines hs c
    obtain ⟨s2, h2, hr2⟩ := ih s1 (MessageParser.call_bound hs h1)
    rw [MessageParser.run, h1, ok_bind, h2, ok_bind, Reframer.run, ← hr1]
    exact ⟨s2, rfl, hr2⟩

/-! ## Events -/

/-- What a counter or the sequence tracking reacts to: an unknown type, its 16 header bytes
dropped (`resync`); a complete message that failed its checksum, dropped (`rejected`); a complete
message handed to `process_message` (`dispatched`); `reset()`, called or done by `parse` on a full
buffer. -/
inductive Event
  | resync
  | rejected (msg : List UInt8)
  | dispatched (msg : List UInt8)
  | reset
  deriving DecidableEq, Repr

/-- The event of the `parse_message` call that finds these received bytes, if it has one. -/
def Reframer.event (r : Reframer) : Option Event :=
  if r.pending.length < MessageHeader.SIZE then none
  else
    let msgSize := getMessageSize (typeOf r.pending)
    if msgSize = 0 then some .resync
    else if r.pending.length < msgSize then none
    else
      let msg := r.pending.take msgSize
      if (r.validateMessage msg msg.length).1 then some (.dispatched msg) else some (.rejected msg)

/-- The events of the drain loop. -/
def Reframer.drainEvents (r : Reframer) : List Event :=
  match h : r.parseMessage with
  | (true, r', _) => r.event.toList ++ r'.drainEvents
  | (false, _, _) => r.event.toList
termination_by r.pending.length
decreasing_by exact Reframer.parseMessage_lt h

def Reframer.parseEvents (r : Reframer) (data : List UInt8) : List Event :=
  if data.length = 0 then []
  else
    let bytesToCopy := min data.length (BUFFER_SIZE - r.pending.length)
    if bytesToCopy = 0 then [.reset]
    else { r with pending := r.pending ++ data.take bytesToCopy }.drainEvents

def Reframer.callEvents (r : Reframer) : Call → List Event
  | .parse data => r.parseEvents data
  | .reset => [.reset]
  | _ => []

def Reframer.runEvents (r : Reframer) : List Call → List Event
  | [] => []
  | c :: cs => r.callEvents c ++ (r.call c).1.runEvents cs

theorem Reframer.drainEvents_of_true {r r' : Reframer} {out : List Invocation}
    (h : r.parseMessage = (true, r', out)) : r.drainEvents = r.event.toList ++ r'.drainEvents := by
  rw [Reframer.drainEvents]
  split <;> simp_all

theorem Reframer.drainEvents_of_false {r r' : Reframer} {out : List Invocation}
    (h : r.parseMessage = (false, r', out)) : r.drainEvents = r.event.toList := by
  rw [Reframer.drainEvents]
  split <;> simp_all

/-! ## What an event does -/

/-- The part of `validate_message` after a checksum that passes: the gap check and the new last
sequence number. -/
def ParserCore.trackSequence (c : ParserCore) (msg : List UInt8) : ParserCore :=
  let seq := (MessageHeader.ofBytes msg).sequenceNumber
  let gap := c.validateSequence && !c.firstMessage && seq != c.lastSequenceNumber + 1
  { c with
    stats := if gap then { c.stats with sequenceGaps := c.stats.sequenceGaps + 1 } else c.stats
    lastSequenceNumber := seq
    firstMessage := false }

theorem ParserCore.validateMessage_eq (c : ParserCore) (msg : List UInt8) (n : Nat) :
    c.validateMessage msg n =
      if c.validateChecksum && !verifyChecksum msg n then (false, c.countChecksumError)
      else (true, c.trackSequence msg) := rfl

/-- The fields other than the buffer after an event. -/
def ParserCore.onEvent (c : ParserCore) : Event → ParserCore
  | .resync => { c with stats := { c.stats with malformedMessages := c.stats.malformedMessages + 1 } }
  | .rejected _ => c.countChecksumError
  | .dispatched msg => ((c.trackSequence msg).processMessage (typeOf msg) msg).1
  | .reset => { c with lastSequenceNumber := 0, firstMessage := true }

/-- One `parse_message` call is its event. -/
theorem Reframer.parseMessage_core (r : Reframer) :
    r.parseMessage.2.1.toParserCore = r.event.toList.foldl ParserCore.onEvent r.toParserCore := by
  unfold Reframer.parseMessage Reframer.event
  dsimp only
  split_ifs with h16 h0 hlt hv
  case pos | pos | pos => rfl
  all_goals
    rw [ParserCore.validateMessage_eq] at hv
    simp only [ParserCore.receive, ParserCore.validateMessage_eq]
    split_ifs at hv ⊢ <;> first | exact absurd rfl hv | rfl

theorem Reframer.parseMessages_core (r : Reframer) :
    r.parseMessages.1.toParserCore = r.drainEvents.foldl ParserCore.onEvent r.toParserCore := by
  induction r using Reframer.parseMessages.induct with
  | case1 r r' out h ih =>
    rw [Reframer.parseMessages_of_true h, Reframer.drainEvents_of_true h, List.foldl_append,
      ← Reframer.parseMessage_core, h]
    exact ih
  | case2 r r' out h =>
    rw [Reframer.parseMessages_of_false h, Reframer.drainEvents_of_false h,
      ← Reframer.parseMessage_core, h]

theorem Reframer.parse_core (r : Reframer) (data : List UInt8) :
    (r.parse data).1.toParserCore = (r.parseEvents data).foldl ParserCore.onEvent r.toParserCore := by
  unfold Reframer.parse Reframer.parseEvents
  dsimp only
  split_ifs
  · rfl
  · rfl
  · exact Reframer.parseMessages_core _

/-- An input call is its events. -/
theorem Reframer.call_core (r : Reframer) {c : Call} (hc : c.isInput) :
    (r.call c).1.toParserCore = (r.callEvents c).foldl ParserCore.onEvent r.toParserCore := by
  cases c <;> simp only [Call.isInput, Bool.false_eq_true] at hc
  · exact r.parse_core _
  · rfl

/-- **A run of input calls is its events**, one after another. -/
theorem Reframer.run_core (r : Reframer) {cs : List Call} (hcs : ∀ c ∈ cs, c.isInput) :
    (r.run cs).1.toParserCore = (r.runEvents cs).foldl ParserCore.onEvent r.toParserCore := by
  induction cs generalizing r with
  | nil => rfl
  | cons c cs ih =>
    rw [Reframer.run, Reframer.runEvents, List.foldl_append, ← r.call_core (hcs c (by simp)),
      ih _ fun c' hc' => hcs c' (by simp [hc'])]

end FeedHandler.Parser

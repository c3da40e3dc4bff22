import FeedHandler.Protocol

/-! `parser::MessageParser` (`parser.cpp`): the client's reassembly buffer, `parse`, its drain
loop over `parse_message`, `validate_message`, `process_message` and `reset`.

`buffer_` is a map from offsets to bytes. Every access to it is checked: a copy or move outside
`[0, BUFFER_SIZE)`, a read at or past `buffer_used_`, and a `size_t` subtraction that would wrap
end the computation with a `Fault` instead of a result. A callback is modelled by whether it is
set; a call of it is an `Invocation` carrying the bytes of the message it is given. -/

namespace FeedHandler.Parser
open Protocol

instance decEqExcept {ε α : Type} [DecidableEq ε] [DecidableEq α] : DecidableEq (Except ε α)
  | .error a, .error b =>
    if h : a = b then .isTrue (h ▸ rfl) else .isFalse fun e => h (Except.error.inj e)
  | .ok a, .ok b => if h : a = b then .isTrue (h ▸ rfl) else .isFalse fun e => h (Except.ok.inj e)
  | .error _, .ok _ => .isFalse nofun
  | .ok _, .error _ => .isFalse nofun

/-! ## State -/

structure ParserStats where
  messagesParsed : UInt64
  tradesParsed : UInt64
  quotesParsed : UInt64
  heartbeatsParsed : UInt64
  sequenceGaps : UInt64
  checksumErrors : UInt64
  malformedMessages : UInt64
  deriving DecidableEq, Repr

/-- `ParserStats()`: every counter at zero. -/
def ParserStats.init : ParserStats := ⟨0, 0, 0, 0, 0, 0, 0⟩

/-- One call of a callback, with the bytes of the message it is handed. -/
inductive Invocation
  | trade (msg : List UInt8)
  | quote (msg : List UInt8)
  | heartbeat (msg : List UInt8)
  deriving DecidableEq, Repr

/-- The fields of a `MessageParser` other than its buffer: which callbacks are set, the sequence
tracking, the validation flags and the statistics. -/
structure ParserCore where
  tradeCallback : Bool
  quoteCallback : Bool
  heartbeatCallback : Bool
  lastSequenceNumber : UInt32
  firstMessage : Bool
  validateChecksum : Bool
  validateSequence : Bool
  stats : ParserStats
  deriving DecidableEq, Repr

def BUFFER_SIZE : Nat := 8192

structure MessageParser extends ParserCore where
  buffer : Nat → UInt8
  bufferUsed : Nat

/-- The constructor: no callback set, both validations on, an empty zeroed buffer. -/
def MessageParser.new : MessageParser where
  tradeCallback := false
  quoteCallback := false
  heartbeatCallback := false
  lastSequenceNumber := 0
  firstMessage := true
  validateChecksum := true
  validateSequence := true
  stats := .init
  buffer := fun _ => 0
  bufferUsed := 0

/-- The received bytes the buffer holds, `buffer_[0, buffer_used_)`. -/
def MessageParser.live (s : MessageParser) : List UInt8 :=
  (List.range s.bufferUsed).map s.buffer

/-! ## Checked memory -/

/-- Undefined behaviour the parser could reach: a copy or a move outside `buffer_[0, BUFFER_SIZE)`
(`overrun`), a read of `buffer_` at or past `buffer_used_` (`staleRead`), a `size_t` subtraction
that would wrap (`underflow`). -/
inductive Fault
  | overrun
  | staleRead
  | underflow
  deriving DecidableEq, Repr

def checkedSub (a b : Nat) : Except Fault Nat :=
  if b ≤ a then .ok (a - b) else .error .underflow

/-- `memcpy(buffer_ + dst, data, n)`. -/
def memcpy (buf : Nat → UInt8) (dst : Nat) (data : List UInt8) (n : Nat) :
    Except Fault (Nat → UInt8) :=
  if dst + n ≤ BUFFER_SIZE ∧ n ≤ data.length then
    .ok fun i => if dst ≤ i ∧ i < dst + n then data.getD (i - dst) 0 else buf i
  else .error .overrun

/-- `memmove(buffer_, buffer_ + src, n)`. -/
def memmove (buf : Nat → UInt8) (src n : Nat) : Except Fault (Nat → UInt8) :=
  if src + n ≤ BUFFER_SIZE then .ok fun i => if i < n then buf (src + i) else buf i
  else .error .overrun

/-- The bytes `buffer_[off, off + n)`, which must hold received data. -/
def MessageParser.read (s : MessageParser) (off n : Nat) : Except Fault (List UInt8) :=
  if off + n ≤ s.bufferUsed then .ok ((List.range n).map fun i => s.buffer (off + i))
  else .error .staleRead

/-! ## Validation and dispatch -/

def ParserCore.validateMessage (c : ParserCore) (msg : List UInt8) (msgSize : Nat) :
    Bool × ParserCore :=
  if c.validateChecksum && !verifyChecksum msg msgSize then
    (false, { c with stats := { c.stats with checksumErrors := c.stats.checksumErrors + 1 } })
  else
    let seq := (MessageHeader.ofBytes msg).sequenceNumber
    let gap := c.validateSequence && !c.firstMessage && seq != c.lastSequenceNumber + 1
    (true, { c with
      stats := if gap then { c.stats with sequenceGaps := c.stats.sequenceGaps + 1 } else c.stats
      lastSequenceNumber := seq
      firstMessage := false })

def ParserCore.processMessage (c : ParserCore) (type : MessageType) (msg : List UInt8) :
    ParserCore × List Invocation :=
  let stats := { c.stats with messagesParsed := c.stats.messagesParsed + 1 }
  if type = MessageType.TRADE then
    ({ c with stats := { stats with tradesParsed := stats.tradesParsed + 1 } },
      if c.tradeCallback then [.trade msg] else [])
  else if type = MessageType.QUOTE then
    ({ c with stats := { stats with quotesParsed := stats.quotesParsed + 1 } },
      if c.quoteCallback then [.quote msg] else [])
  else if type = MessageType.HEARTBEAT then
    ({ c with stats := { stats with heartbeatsParsed := stats.heartbeatsParsed + 1 } },
      if c.heartbeatCallback then [.heartbeat msg] else [])
  else
    ({ c with stats := { stats with malformedMessages := stats.malformedMessages + 1 } }, [])

/-! ## `parse_message`, the drain loop and `parse` -/

@[simp] theorem ok_bind {ε α β : Type} (a : α) (f : α → Except ε β) : (Except.ok a >>= f) = f a :=
  rfl

@[simp] theorem error_bind {ε α β : Type} (e : ε) (f : α → Except ε β) :
    (Except.error e >>= f) = Except.error e :=
  rfl

theorem bind_eq_ok {ε α β : Type} {x : Except ε α} {f : α → Except ε β} {b : β} :
    (x >>= f) = .ok b ↔ ∃ a, x = .ok a ∧ f a = .ok b := by
  cases x <;> simp

/-- `buffer_used_ -= n; memmove(buffer_, buffer_ + n, buffer_used_)`. -/
def MessageParser.dropFront (s : MessageParser) (n : Nat) : Except Fault MessageParser :=
  checkedSub s.bufferUsed n >>= fun used =>
  memmove s.buffer n used >>= fun buf => .ok { s with bufferUsed := used, buffer := buf }

/-- The same after a processed message, where the move is skipped once nothing is left. -/
def MessageParser.dropProcessed (s : MessageParser) (n : Nat) : Except Fault MessageParser :=
  checkedSub s.bufferUsed n >>= fun used =>
  if 0 < used then memmove s.buffer n used >>= fun buf => .ok { s with bufferUsed := used, buffer := buf }
  else .ok { s with bufferUsed := used }

/-- One `parse_message`: whether the loop goes on, the new state, and the callbacks made. -/
def MessageParser.parseMessage (s : MessageParser) :
    Except Fault (Bool × MessageParser × List Invocation) :=
  if s.bufferUsed < MessageHeader.SIZE then .ok (false, s, [])
  else
    s.read 0 MessageHeader.SIZE >>= fun header =>
    let type := (MessageHeader.ofBytes header).msgType
    let msgSize := getMessageSize type
    if msgSize = 0 then
      let stats := { s.stats with malformedMessages := s.stats.malformedMessages + 1 }
      { s with stats }.dropFront MessageHeader.SIZE >>= fun s' => .ok (false, s', [])
    else if s.bufferUsed < msgSize then .ok (false, s, [])
    else
      s.read 0 msgSize >>= fun msg =>
      match s.validateMessage msg msgSize with
      | (false, core) => { s with toParserCore := core }.dropFront msgSize >>= fun s' => .ok (true, s', [])
      | (true, core) =>
        let r := core.processMessage type msg
        { s with toParserCore := r.1 }.dropProcessed msgSize >>= fun s' => .ok (true, s', r.2)

theorem dropFront_ok {s s' : MessageParser} {n : Nat} (h : s.dropFront n = .ok s') :
    s'.bufferUsed = s.bufferUsed - n ∧ n ≤ s.bufferUsed := by
  unfold MessageParser.dropFront checkedSub at h
  by_cases hn : n ≤ s.bufferUsed
  · simp only [if_pos hn, ok_bind, memmove] at h
    split_ifs at h
    · cases h
      exact ⟨rfl, hn⟩
    · simp at h
  · simp [hn] at h

theorem dropProcessed_ok {s s' : MessageParser} {n : Nat} (h : s.dropProcessed n = .ok s') :
    s'.bufferUsed = s.bufferUsed - n ∧ n ≤ s.bufferUsed := by
  unfold MessageParser.dropProcessed checkedSub at h
  by_cases hn : n ≤ s.bufferUsed
  · simp only [if_pos hn, ok_bind, memmove] at h
    split_ifs at h
    any_goals simp at h
    all_goals cases h
    all_goals exact ⟨rfl, hn⟩
  · simp [hn] at h

/-- A `parse_message` that lets the loop go on has removed a whole frame from the buffer. -/
theorem parseMessage_lt {s s' : MessageParser} {out : List Invocation}
    (h : s.parseMessage = .ok (true, s', out)) : s'.bufferUsed < s.bufferUsed := by
  unfold MessageParser.parseMessage at h
  split_ifs at h with h16
  · simp at h
  obtain ⟨header, -, h⟩ := bind_eq_ok.mp h
  dsimp only at h
  split_ifs at h with h0 hlt
  · obtain ⟨_, _, h⟩ := bind_eq_ok.mp h
    simp at h
  · simp at h
  · obtain ⟨msg, -, h⟩ := bind_eq_ok.mp h
    have hsz := (getMessageSize_bounds h0).1
    simp only [MessageHeader.SIZE] at hsz
    split at h
    · obtain ⟨s'', hd, h⟩ := bind_eq_ok.mp h
      cases h
      have := dropFront_ok hd
      simp only at this
      omega
    · obtain ⟨s'', hd, h⟩ := bind_eq_ok.mp h
      cases h
      have := dropProcessed_ok hd
      simp only at this
      omega

/-- `while (parse_message()) {}`: the drain loop of `parse`. -/
def MessageParser.parseMessages (s : MessageParser) :
    Except Fault (MessageParser × List Invocation) :=
  match h : s.parseMessage with
  | .ok (true, s', out) => s'.parseMessages >>= fun t => .ok (t.1, out ++ t.2)
  | .ok (false, s', out) => .ok (s', out)
  | .error e => .error e
termination_by s.bufferUsed
decreasing_by exact parseMessage_lt h

theorem MessageParser.parseMessages_of_true {s s' : MessageParser} {out : List Invocation}
    (h : s.parseMessage = .ok (true, s', out)) :
    s.parseMessages = (s'.parseMessages >>= fun t => .ok (t.1, out ++ t.2)) := by
  rw [MessageParser.parseMessages]
  split <;> simp_all

theorem MessageParser.parseMessages_of_false {s s' : MessageParser} {out : List Invocation}
    (h : s.parseMessage = .ok (false, s', out)) : s.parseMessages = .ok (s', out) := by
  rw [MessageParser.parseMessages]
  split <;> simp_all

theorem MessageParser.parseMessages_of_error {s : MessageParser} {e : Fault}
    (h : s.parseMessage = .error e) : s.parseMessages = .error e := by
  rw [MessageParser.parseMessages]
  split <;> simp_all

def MessageParser.reset (s : MessageParser) : MessageParser :=
  { s with bufferUsed := 0, lastSequenceNumber := 0, firstMessage := true, buffer := fun _ => 0 }

/-- `parse(data, len)`: append what fits, drain, and return how many bytes were taken. -/
def MessageParser.parse (s : MessageParser) (data : List UInt8) :
    Except Fault (MessageParser × Nat × List Invocation) :=
  if data.length = 0 then .ok (s, 0, [])
  else
    checkedSub BUFFER_SIZE s.bufferUsed >>= fun room =>
    let bytesToCopy := min data.length room
    if bytesToCopy = 0 then .ok (s.reset, 0, [])
    else
      memcpy s.buffer s.bufferUsed data bytesToCopy >>= fun buf =>
      { s with buffer := buf, bufferUsed := s.bufferUsed + bytesToCopy }.parseMessages >>= fun r =>
      .ok (r.1, bytesToCopy, r.2)

/-! ## The public interface -/

/-- A call of the parser's public interface. -/
inductive Call
  | setTradeCallback (set : Bool)
  | setQuoteCallback (set : Bool)
  | setHeartbeatCallback (set : Bool)
  | setValidateChecksum (validate : Bool)
  | setValidateSequence (validate : Bool)
  | parse (data : List UInt8)
  | reset

/-- The state after a call, with the callbacks it made. -/
def MessageParser.call (s : MessageParser) : Call → Except Fault (MessageParser × List Invocation)
  | .setTradeCallback b => .ok ({ s with tradeCallback := b }, [])
  | .setQuoteCallback b => .ok ({ s with quoteCallback := b }, [])
  | .setHeartbeatCallback b => .ok ({ s with heartbeatCallback := b }, [])
  | .setValidateChecksum b => .ok ({ s with validateChecksum := b }, [])
  | .setValidateSequence b => .ok ({ s with validateSequence := b }, [])
  | .parse data => s.parse data >>= fun r => .ok (r.1, r.2.2)
  | .reset => .ok (s.reset, [])

/-- The states a parser reaches from its constructor through calls that complete. -/
inductive Reachable : MessageParser → Prop
  | new : Reachable .new
  | call {s s' : MessageParser} {c : Call} {out : List Invocation} :
      Reachable s → s.call c = .ok (s', out) → Reachable s'

/-- The receiving loop: chunks handed to `parse` in order, with what each call returned and every
callback made. -/
def MessageParser.feed (s : MessageParser) :
    List (List UInt8) → Except Fault (MessageParser × List Nat × List Invocation)
  | [] => .ok (s, [], [])
  | c :: cs =>
    s.parse c >>= fun r =>
    r.1.feed cs >>= fun t =>
    .ok (t.1, r.2.1 :: t.2.1, r.2.2 ++ t.2.2)

end FeedHandler.Parser

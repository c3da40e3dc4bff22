import FeedHandler.Parser.Stream

/-! `reset()` against a fresh parser. No branch of the parser reads `stats_`: a state whose
counters are shifted by a fixed amount runs exactly as the unshifted one, with its counters
shifted by the same amount at the end (`MessageParser.feed_addStats`). A reset parser is a
freshly constructed one with the same callbacks and flags, shifted by the counters it had. -/

namespace FeedHandler.Parser
open Protocol

/-- Two sets of counters added field by field. -/
def ParserStats.add (a b : ParserStats) : ParserStats :=
  ⟨a.messagesParsed + b.messagesParsed, a.tradesParsed + b.tradesParsed,
    a.quotesParsed + b.quotesParsed, a.heartbeatsParsed + b.heartbeatsParsed,
    a.sequenceGaps + b.sequenceGaps, a.checksumErrors + b.checksumErrors,
    a.malformedMessages + b.malformedMessages⟩

@[simp] theorem ParserStats.add_init (a : ParserStats) : a.add .init = a := by
  cases a
  simp only [ParserStats.add, ParserStats.init, add_zero]

/-- The same parser with `S` added to its counters. -/
def ParserCore.addStats (S : ParserStats) (c : ParserCore) : ParserCore :=
  { c with stats := S.add c.stats }

def MessageParser.addStats (S : ParserStats) (s : MessageParser) : MessageParser :=
  { s with stats := S.add s.stats }

/-! ## Every step commutes with the shift -/

theorem ParserCore.validateMessage_addStats (S : ParserStats) (c : ParserCore) (msg : List UInt8)
    (n : Nat) :
    (c.addStats S).validateMessage msg n =
      ((c.validateMessage msg n).1, (c.validateMessage msg n).2.addStats S) := by
  dsimp only [ParserCore.validateMessage, ParserCore.addStats]
  split_ifs <;> simp only [ParserStats.add, add_assoc]

theorem ParserCore.processMessage_addStats (S : ParserStats) (c : ParserCore) (type : MessageType)
    (msg : List UInt8) :
    (c.addStats S).processMessage type msg =
      ((c.processMessage type msg).1.addStats S, (c.processMessage type msg).2) := by
  dsimp only [ParserCore.processMessage, ParserCore.addStats]
  split
  · simp only [ParserStats.add, add_assoc]
  split
  · simp only [ParserStats.add, add_assoc]
  split <;> simp only [ParserStats.add, add_assoc]

@[simp] theorem MessageParser.bufferUsed_addStats (S : ParserStats) (s : MessageParser) :
    (s.addStats S).bufferUsed = s.bufferUsed := rfl

@[simp] theorem MessageParser.buffer_addStats (S : ParserStats) (s : MessageParser) :
    (s.addStats S).buffer = s.buffer := rfl

@[simp] theorem MessageParser.read_addStats (S : ParserStats) (s : MessageParser) (off n : Nat) :
    (s.addStats S).read off n = s.read off n := rfl

@[simp] theorem MessageParser.toParserCore_addStats (S : ParserStats) (s : MessageParser) :
    (s.addStats S).toParserCore = s.toParserCore.addStats S := rfl

theorem MessageParser.dropFront_addStats (S : ParserStats) (s : MessageParser) (n : Nat) :
    (s.addStats S).dropFront n = (s.dropFront n).map (·.addStats S) := by
  unfold MessageParser.dropFront
  simp only [MessageParser.bufferUsed_addStats, MessageParser.buffer_addStats]
  cases checkedSub s.bufferUsed n with
  | error e => rfl
  | ok used =>
    simp only [ok_bind]
    cases memmove s.buffer n used <;> rfl

theorem MessageParser.dropProcessed_addStats (S : ParserStats) (s : MessageParser) (n : Nat) :
    (s.addStats S).dropProcessed n = (s.dropProcessed n).map (·.addStats S) := by
  unfold MessageParser.dropProcessed
  simp only [MessageParser.bufferUsed_addStats, MessageParser.buffer_addStats]
  cases checkedSub s.bufferUsed n with
  | error e => rfl
  | ok used =>
    simp only [ok_bind]
    split
    · cases memmove s.buffer n used <;> rfl
    · rfl

theorem MessageParser.mk_addStats (S : ParserStats) (c : ParserCore) (buf : Nat → UInt8) (used : Nat) :
    MessageParser.mk (c.addStats S) buf used = (MessageParser.mk c buf used).addStats S := rfl

theorem MessageParser.parseMessage_addStats (S : ParserStats) (s : MessageParser) :
    (s.addStats S).parseMessage = s.parseMessage.map fun r => (r.1, r.2.1.addStats S, r.2.2) := by
  unfold MessageParser.parseMessage
  simp only [MessageParser.bufferUsed_addStats, MessageParser.read_addStats,
    MessageParser.buffer_addStats, MessageParser.toParserCore_addStats,
    ParserCore.validateMessage_addStats, ParserCore.processMessage_addStats]
  split_ifs with h16
  · rfl
  cases s.read 0 MessageHeader.SIZE with
  | error e => rfl
  | ok header =>
    simp only [ok_bind]
    split_ifs with h0 hlt
    · simp only [MessageParser.dropFront, MessageParser.addStats]
      cases checkedSub s.bufferUsed MessageHeader.SIZE with
      | error e => rfl
      | ok used =>
        simp only [ok_bind]
        cases memmove s.buffer MessageHeader.SIZE used with
        | error e => rfl
        | ok buf => simp only [ok_bind, Except.map, ParserCore.addStats, ParserStats.add, add_assoc]
    · rfl
    · cases s.read 0 _ with
      | error e => rfl
      | ok msg =>
        simp only [ok_bind]
        rcases s.validateMessage msg _ with ⟨_ | _, core⟩ <;> dsimp only
        · rw [MessageParser.mk_addStats, MessageParser.dropFront_addStats]
          cases MessageParser.dropFront _ _ <;> rfl
        · simp only [ParserCore.processMessage_addStats]
          rw [MessageParser.mk_addStats, MessageParser.dropProcessed_addStats]
          cases MessageParser.dropProcessed _ _ <;> rfl

theorem MessageParser.parseMessages_addStats (S : ParserStats) (s : MessageParser) :
    (s.addStats S).parseMessages = s.parseMessages.map fun r => (r.1.addStats S, r.2) := by
  have hstep := MessageParser.parseMessage_addStats S s
  induction s using MessageParser.parseMessages.induct with
  | case1 s s' out h ih =>
    rw [h] at hstep
    rw [MessageParser.parseMessages_of_true hstep, MessageParser.parseMessages_of_true h,
      ih (MessageParser.parseMessage_addStats S s')]
    cases s'.parseMessages <;> rfl
  | case2 s s' out h =>
    rw [h] at hstep
    rw [MessageParser.parseMessages_of_false hstep, MessageParser.parseMessages_of_false h]
    rfl
  | case3 s e h =>
    rw [h] at hstep
    rw [MessageParser.parseMessages_of_error hstep, MessageParser.parseMessages_of_error h]
    rfl

theorem MessageParser.parse_addStats (S : ParserStats) (s : MessageParser) (data : List UInt8) :
    (s.addStats S).parse data = (s.parse data).map fun r => (r.1.addStats S, r.2) := by
  unfold MessageParser.parse
  simp only [MessageParser.bufferUsed_addStats, MessageParser.buffer_addStats]
  split_ifs
  · rfl
  cases checkedSub BUFFER_SIZE s.bufferUsed with
  | error e => rfl
  | ok room =>
    simp only [ok_bind]
    split_ifs
    · rfl
    · cases memcpy s.buffer s.bufferUsed data _ with
      | error e => rfl
      | ok buf =>
        simp only [ok_bind]
        rw [show { s.addStats S with buffer := buf, bufferUsed := s.bufferUsed + min data.length room } =
          MessageParser.addStats S
            { s with buffer := buf, bufferUsed := s.bufferUsed + min data.length room } from rfl,
          MessageParser.parseMessages_addStats]
        cases MessageParser.parseMessages _ <;> rfl

theorem MessageParser.feed_addStats (S : ParserStats) (s : MessageParser) (cs : List (List UInt8)) :
    (s.addStats S).feed cs = (s.feed cs).map fun r => (r.1.addStats S, r.2) := by
  induction cs generalizing s with
  | nil => rfl
  | cons c cs ih =>
    rw [MessageParser.feed, MessageParser.feed, MessageParser.parse_addStats]
    cases s.parse c with
    | error e => rfl
    | ok r =>
      simp only [Except.map, ok_bind]
      rw [ih]
      cases r.1.feed cs <;> rfl

/-! ## A reset parser -/

/-- The parser `reset()` leaves is the constructor's, with the same callbacks and flags, and the
counters it had. -/
theorem MessageParser.reset_eq_addStats (s : MessageParser) :
    s.reset = (MessageParser.configured s.tradeCallback s.quoteCallback s.heartbeatCallback
      s.validateChecksum s.validateSequence).addStats s.stats := by
  simp only [MessageParser.addStats, MessageParser.configured, MessageParser.new,
    ParserStats.add_init]
  rfl

/-- **Reset, then feed**: from any state, `reset()` followed by any byte stream in any chunks
makes the same callbacks in the same order, returns the same counts, and ends with the same
buffer, `buffer_used_`, `last_sequence_number_` and `first_message_` as a freshly constructed
parser with the same callbacks and flags fed the same chunks; every counter ends at its value
before the reset plus its value in the fresh run. -/
theorem reset_then_feed_fresh (s : MessageParser) (chunks : List (List UInt8)) :
    ∃ fresh ns out,
      (MessageParser.configured s.tradeCallback s.quoteCallback s.heartbeatCallback
          s.validateChecksum s.validateSequence).feed chunks = .ok (fresh, ns, out) ∧
        s.reset.feed chunks = .ok ({ fresh with stats := s.stats.add fresh.stats }, ns, out) := by
  obtain ⟨fresh, h, -⟩ := (MessageParser.configured s.tradeCallback s.quoteCallback
    s.heartbeatCallback s.validateChecksum s.validateSequence).feed_refines (Nat.zero_le _) chunks
  refine ⟨fresh, _, _, h, ?_⟩
  rw [MessageParser.reset_eq_addStats, MessageParser.feed_addStats, h]
  rfl

end FeedHandler.Parser

import FeedHandler.Parser.Calls

/-! The statistics and the sequence tracking over any run of calls, read from the run's events.

Every counter but `sequence_gaps` grows by one per event of its kind, whatever the bytes, the
chunks, the flags and the resets (`Reframer.run_counter`). `process_message` is only ever
handed a message of a known type, so its `default` branch never runs. The sequence tracking
between two resets sees only the messages handed to `process_message`: `last_sequence_number_`
is the last one's, and `sequence_gaps` counts the places where one does not follow the one
before it (`foldl_onEvent_sequence`). -/

namespace FeedHandler.Parser
open Protocol
open scoped UInt64.CommRing

/-! ## Kinds of events -/

def Event.isDispatched : Event → Bool
  | .dispatched _ => true
  | _ => false

/-- A message of this type handed to `process_message`. -/
def Event.isDispatchedOf (type : MessageType) : Event → Bool
  | .dispatched msg => typeOf msg == type
  | _ => false

def Event.isRejected : Event → Bool
  | .rejected _ => true
  | _ => false

/-- A message handed to `process_message` with a type it has no case for. -/
def Event.unknown : Event → Bool
  | .dispatched msg => getMessageSize (typeOf msg) == 0
  | _ => false

/-- The sequence number of a message handed to `process_message`. -/
def Event.sequenceNumber? : Event → Option UInt32
  | .dispatched msg => some (MessageHeader.ofBytes msg).sequenceNumber
  | _ => none

/-- The sequence numbers of the messages handed to `process_message`, in order. -/
def sequenceNumbers (evs : List Event) : List UInt32 := evs.filterMap Event.sequenceNumber?

/-- The places `j ≥ 2` where a sequence number is not the one before it plus one. -/
def breaks (seqs : List UInt32) : Nat := (seqs.zip seqs.tail).countP fun p => p.2 != p.1 + 1

/-! ## One event -/

theorem ParserCore.processMessage_stats (c : ParserCore) (type : MessageType) (msg : List UInt8) :
    (c.processMessage type msg).1.stats =
      { c.stats with
        messagesParsed := c.stats.messagesParsed + 1
        tradesParsed := c.stats.tradesParsed + if type = MessageType.TRADE then 1 else 0
        quotesParsed := c.stats.quotesParsed + if type = MessageType.QUOTE then 1 else 0
        heartbeatsParsed := c.stats.heartbeatsParsed + if type = MessageType.HEARTBEAT then 1 else 0
        malformedMessages := c.stats.malformedMessages + if getMessageSize type = 0 then 1 else 0 } := by
  by_cases hT : type = MessageType.TRADE
  · subst hT
    simp [ParserCore.processMessage, getMessageSize, MessageType.TRADE, MessageType.QUOTE,
      MessageType.HEARTBEAT, TradeMessage.SIZE]
  by_cases hQ : type = MessageType.QUOTE
  · subst hQ
    simp [ParserCore.processMessage, getMessageSize, MessageType.TRADE, MessageType.QUOTE,
      MessageType.HEARTBEAT, QuoteMessage.SIZE]
  by_cases hH : type = MessageType.HEARTBEAT
  · subst hH
    simp [ParserCore.processMessage, getMessageSize, MessageType.TRADE, MessageType.QUOTE,
      MessageType.HEARTBEAT, HeartbeatMessage.SIZE]
  simp [ParserCore.processMessage, getMessageSize, hT, hQ, hH]

theorem ParserCore.trackSequence_stats (c : ParserCore) (msg : List UInt8) :
    (c.trackSequence msg).stats =
      { c.stats with
        sequenceGaps := c.stats.sequenceGaps +
          if c.validateSequence && !c.firstMessage &&
            (MessageHeader.ofBytes msg).sequenceNumber != c.lastSequenceNumber + 1 then 1 else 0 } := by
  unfold ParserCore.trackSequence
  dsimp only
  generalize (c.validateSequence && !c.firstMessage &&
    (MessageHeader.ofBytes msg).sequenceNumber != c.lastSequenceNumber + 1) = gap
  cases gap
  · rw [if_neg Bool.false_ne_true, if_neg Bool.false_ne_true, add_zero]
  · rfl

/-- What one event adds to each counter but `sequence_gaps`. -/
theorem ParserCore.onEvent_counts (c : ParserCore) (e : Event) :
    (c.onEvent e).stats.messagesParsed = c.stats.messagesParsed + (if e.isDispatched then 1 else 0) ∧
      (c.onEvent e).stats.tradesParsed =
        c.stats.tradesParsed + (if e.isDispatchedOf MessageType.TRADE then 1 else 0) ∧
      (c.onEvent e).stats.quotesParsed =
        c.stats.quotesParsed + (if e.isDispatchedOf MessageType.QUOTE then 1 else 0) ∧
      (c.onEvent e).stats.heartbeatsParsed =
        c.stats.heartbeatsParsed + (if e.isDispatchedOf MessageType.HEARTBEAT then 1 else 0) ∧
      (c.onEvent e).stats.checksumErrors = c.stats.checksumErrors + (if e.isRejected then 1 else 0) ∧
      (c.onEvent e).stats.malformedMessages =
        c.stats.malformedMessages + (if e = .resync || e.unknown then 1 else 0) := by
  cases e <;>
    simp [ParserCore.onEvent, ParserCore.countChecksumError, ParserCore.processMessage_stats,
      ParserCore.trackSequence_stats, Event.isDispatched, Event.isDispatchedOf, Event.isRejected,
      Event.unknown]

/-! ## Counters over a run -/

/-- A counter that each event moves by its weight moves by the events' total weight. -/
theorem ParserCore.foldl_onEvent_counter (f : ParserStats → UInt64) (w : Event → Bool)
    (hw : ∀ c e, f (ParserCore.onEvent c e).stats = f c.stats + if w e then 1 else 0)
    (c : ParserCore) (evs : List Event) :
    f (evs.foldl ParserCore.onEvent c).stats = f c.stats + UInt64.ofNat (evs.countP w) := by
  induction evs generalizing c with
  | nil => exact (add_zero _).symm
  | cons e evs ih =>
    rw [List.foldl_cons, ih, hw, List.countP_cons, uint64_ofNat_add,
      show UInt64.ofNat (if w e then 1 else 0) = if w e then 1 else 0 by split <;> rfl]
    ring

theorem Reframer.call_stats (r : Reframer) (c : Call) :
    (r.call c).1.stats = ((r.callEvents c).foldl ParserCore.onEvent r.toParserCore).stats := by
  cases c with
  | parse data => exact congrArg ParserCore.stats (r.parse_core data)
  | _ => rfl

/-- **Counters over any run of calls**: setters, bytes in any chunks, and resets. -/
theorem Reframer.run_counter (f : ParserStats → UInt64) (w : Event → Bool)
    (hw : ∀ c e, f (ParserCore.onEvent c e).stats = f c.stats + if w e then 1 else 0)
    (r : Reframer) (cs : List Call) :
    f (r.run cs).1.stats = f r.stats + UInt64.ofNat ((r.runEvents cs).countP w) := by
  induction cs generalizing r with
  | nil => exact (add_zero _).symm
  | cons c cs ih =>
    have hc := ParserCore.foldl_onEvent_counter f w hw r.toParserCore (r.callEvents c)
    rw [← Reframer.call_stats] at hc
    simp only [Reframer.run, Reframer.runEvents]
    rw [ih, hc, List.countP_append, uint64_ofNat_add, add_assoc]

/-! ## Where events come from -/

/-- Every event of the drain loop is the event of a `parse_message` call. -/
theorem Reframer.mem_drainEvents {r : Reframer} {e : Event} (he : e ∈ r.drainEvents) :
    ∃ r' : Reframer, r'.event = some e := by
  induction r using Reframer.parseMessages.induct with
  | case1 r r' out h ih =>
    rw [Reframer.drainEvents_of_true h, List.mem_append] at he
    exact he.elim (fun he => ⟨r, Option.mem_toList.mp he⟩) ih
  | case2 r r' out h =>
    rw [Reframer.drainEvents_of_false h] at he
    exact ⟨r, Option.mem_toList.mp he⟩

/-- Every event of a run is a reset or the event of a `parse_message` call. -/
theorem Reframer.mem_runEvents {r : Reframer} {cs : List Call} {e : Event}
    (he : e ∈ r.runEvents cs) : e = .reset ∨ ∃ r' : Reframer, r'.event = some e := by
  induction cs generalizing r with
  | nil => cases he
  | cons c cs ih =>
    rw [Reframer.runEvents, List.mem_append] at he
    refine he.elim (fun he => ?_) ih
    cases c with
    | parse data =>
      simp only [Reframer.callEvents, Reframer.parseEvents] at he
      split_ifs at he
      · cases he
      · exact .inl (List.mem_singleton.mp he)
      · exact .inr (Reframer.mem_drainEvents he)
    | reset => exact .inl (List.mem_singleton.mp he)
    | _ => cases he

/-- `process_message` is only handed messages of a type `get_message_size` knows, so its
`default` branch never runs. -/
theorem Reframer.event_known {r : Reframer} {e : Event} (h : r.event = some e) :
    e.unknown = false ∧ e ≠ .reset := by
  unfold Reframer.event at h
  dsimp only at h
  split_ifs at h with h16 h0 <;> cases h
  · exact ⟨rfl, nofun⟩
  · have hsz := (getMessageSize_bounds h0).1
    simp only [MessageHeader.SIZE] at hsz
    refine ⟨?_, nofun⟩
    simpa [Event.unknown, typeOf_take _ (show 2 ≤ getMessageSize (typeOf r.pending) by omega)]
      using h0
  · exact ⟨rfl, nofun⟩

/-! ## Callbacks -/

/-- The type whose callback an invocation is. -/
def Invocation.type : Invocation → MessageType
  | .trade _ => MessageType.TRADE
  | .quote _ => MessageType.QUOTE
  | .heartbeat _ => MessageType.HEARTBEAT

/-- Whether the callback `process_message` calls for this type is set. -/
def ParserCore.callbackFor (c : ParserCore) (type : MessageType) : Bool :=
  if type = MessageType.TRADE then c.tradeCallback
  else if type = MessageType.QUOTE then c.quoteCallback
  else if type = MessageType.HEARTBEAT then c.heartbeatCallback
  else false

/-- The calls that leave the callbacks alone. -/
def Call.keepsCallbacks : Call → Bool
  | .setTradeCallback _ => false
  | .setQuoteCallback _ => false
  | .setHeartbeatCallback _ => false
  | _ => true

theorem ParserCore.callbackFor_congr {c c' : ParserCore} (h : c'.settings = c.settings) :
    c'.callbackFor = c.callbackFor := by
  simp only [ParserCore.settings, Prod.mk.injEq] at h
  funext type
  simp only [ParserCore.callbackFor, h]

theorem ParserCore.settings_onEvent (c : ParserCore) (e : Event) : (c.onEvent e).settings = c.settings := by
  cases e with
  | dispatched msg => exact (c.trackSequence msg).settings_processMessage _ _
  | _ => rfl

theorem ParserCore.settings_foldl_onEvent (c : ParserCore) (evs : List Event) :
    (evs.foldl ParserCore.onEvent c).settings = c.settings := by
  induction evs generalizing c with
  | nil => rfl
  | cons e evs ih => exact (ih _).trans (c.settings_onEvent e)

/-- `process_message` calls the callback of the message's type, if it is set. -/
theorem ParserCore.processMessage_types (c : ParserCore) (type : MessageType) (msg : List UInt8) :
    (c.processMessage type msg).2.map Invocation.type = if c.callbackFor type then [type] else [] := by
  unfold ParserCore.processMessage ParserCore.callbackFor
  split_ifs <;> simp_all [Invocation.type]

/-- The callbacks of type `T` one `parse_message` call makes: one per message of type `T` it
hands to `process_message`, if that callback is set. -/
theorem Reframer.parseMessage_callbacks (r : Reframer) (T : MessageType) :
    (r.parseMessage.2.2.countP fun i => i.type == T) =
      if r.callbackFor T then r.event.toList.countP (Event.isDispatchedOf T) else 0 := by
  unfold Reframer.parseMessage Reframer.event
  by_cases h16 : r.pending.length < MessageHeader.SIZE
  · simp [h16]
  by_cases h0 : getMessageSize (typeOf r.pending) = 0
  · simp [h16, h0, Event.isDispatchedOf]
  by_cases hlt : r.pending.length < getMessageSize (typeOf r.pending)
  · simp [h16, h0, hlt]
  simp only [h16, h0, hlt, if_false, ParserCore.receive, ParserCore.validateMessage_eq]
  generalize List.take (getMessageSize (typeOf r.pending)) r.pending = msg
  by_cases hc : (r.validateChecksum && !verifyChecksum msg msg.length) = true
  · simp [hc, Event.isDispatchedOf]
  have hcb : (r.trackSequence msg).callbackFor = r.callbackFor := rfl
  simp only [hc, Bool.false_eq_true, if_false, Option.toList_some]
  rw [show ∀ out : List Invocation, (out.countP fun i => i.type == T) =
      (out.map Invocation.type).countP (· == T) from
        fun out => (List.countP_map (· == T) Invocation.type out).symm,
    ParserCore.processMessage_types, hcb]
  by_cases hT : typeOf msg = T
  · subst hT
    cases r.callbackFor (typeOf msg) <;> simp [Event.isDispatchedOf]
  · simp [hT, Event.isDispatchedOf]

theorem Reframer.parseMessage_callbackFor (r : Reframer) :
    r.parseMessage.2.1.callbackFor = r.callbackFor :=
  ParserCore.callbackFor_congr (by rw [r.parseMessage_core]; exact ParserCore.settings_foldl_onEvent _ _)

theorem Reframer.parse_callbackFor (r : Reframer) (data : List UInt8) :
    (r.parse data).1.callbackFor = r.callbackFor :=
  ParserCore.callbackFor_congr (by rw [r.parse_core]; exact ParserCore.settings_foldl_onEvent _ _)

theorem Reframer.parseMessages_callbacks (r : Reframer) (T : MessageType) :
    (r.parseMessages.2.countP fun i => i.type == T) =
      if r.callbackFor T then r.drainEvents.countP (Event.isDispatchedOf T) else 0 := by
  have hstep := r.parseMessage_callbacks T
  induction r using Reframer.parseMessages.induct with
  | case1 r r' out h ih =>
    have hcb := r.parseMessage_callbackFor
    rw [h] at hstep hcb
    rw [Reframer.parseMessages_of_true h, Reframer.drainEvents_of_true h, List.countP_append,
      List.countP_append, hstep, ih (r'.parseMessage_callbacks T), hcb]
    split_ifs <;> rfl
  | case2 r r' out h =>
    rw [h] at hstep
    rw [Reframer.parseMessages_of_false h, Reframer.drainEvents_of_false h]
    exact hstep

theorem Reframer.parse_callbacks (r : Reframer) (data : List UInt8) (T : MessageType) :
    ((r.parse data).2.2.countP fun i => i.type == T) =
      if r.callbackFor T then (r.parseEvents data).countP (Event.isDispatchedOf T) else 0 := by
  by_cases h0 : data.length = 0
  · simp [Reframer.parse, Reframer.parseEvents, h0]
  by_cases h1 : min data.length (BUFFER_SIZE - r.pending.length) = 0
  · simp [Reframer.parse, Reframer.parseEvents, h0, h1, Event.isDispatchedOf]
  simp only [Reframer.parse, Reframer.parseEvents, h0, h1, if_false]
  exact Reframer.parseMessages_callbacks _ T

theorem Reframer.call_callbacks (r : Reframer) {c : Call} (hc : c.keepsCallbacks) (T : MessageType) :
    ((r.call c).2.countP fun i => i.type == T) =
        (if r.callbackFor T then (r.callEvents c).countP (Event.isDispatchedOf T) else 0) ∧
      (r.call c).1.callbackFor = r.callbackFor := by
  cases c with
  | parse data => exact ⟨r.parse_callbacks data T, r.parse_callbackFor data⟩
  | reset => exact ⟨by simp [Reframer.call, Reframer.callEvents, Event.isDispatchedOf], rfl⟩
  | setValidateChecksum => exact ⟨by simp [Reframer.call, Reframer.callEvents], rfl⟩
  | setValidateSequence => exact ⟨by simp [Reframer.call, Reframer.callEvents], rfl⟩
  | _ => cases hc

/-- **The callbacks of a run**: while the callbacks stay as they are, a run calls the callback of
type `T`, if it is set, once per message of type `T` handed to `process_message`. -/
theorem Reframer.run_callbacks (r : Reframer) {cs : List Call} (hcs : ∀ c ∈ cs, c.keepsCallbacks)
    (T : MessageType) :
    ((r.run cs).2.countP fun i => i.type == T) =
      if r.callbackFor T then (r.runEvents cs).countP (Event.isDispatchedOf T) else 0 := by
  induction cs generalizing r with
  | nil => simp [Reframer.run, Reframer.runEvents]
  | cons c cs ih =>
    obtain ⟨h1, h2⟩ := r.call_callbacks (hcs c (List.mem_cons_self _ _)) T
    simp only [Reframer.run, Reframer.runEvents, List.countP_append]
    rw [h1, ih _ fun c' hc' => hcs c' (List.mem_cons_of_mem _ hc'), h2]
    split_ifs <;> rfl

/-! ## Counters of a run -/

/-- A message handed to `process_message` is of exactly one of the three known types. -/
theorem countP_isDispatched (evs : List Event) (h : ∀ e ∈ evs, e.unknown = false) :
    evs.countP Event.isDispatched =
      evs.countP (Event.isDispatchedOf MessageType.TRADE) +
        evs.countP (Event.isDispatchedOf MessageType.QUOTE) +
          evs.countP (Event.isDispatchedOf MessageType.HEARTBEAT) := by
  induction evs with
  | nil => rfl
  | cons e evs ih =>
    have he : (if e.isDispatched then 1 else 0) =
        (if e.isDispatchedOf MessageType.TRADE then 1 else 0) +
          (if e.isDispatchedOf MessageType.QUOTE then 1 else 0) +
            (if e.isDispatchedOf MessageType.HEARTBEAT then 1 else 0) := by
      cases e with
      | dispatched msg =>
        have hk : getMessageSize (typeOf msg) ≠ 0 := by
          simpa [Event.unknown] using h _ (List.mem_cons_self _ _)
        rcases getMessageSize_ne_zero hk with hk | hk | hk <;>
          simp [Event.isDispatched, Event.isDispatchedOf, hk, MessageType.TRADE, MessageType.QUOTE,
            MessageType.HEARTBEAT]
      | _ => rfl
    simp only [List.countP_cons, ih fun e' he' => h e' (List.mem_cons_of_mem _ he'), he]
    omega

/-- **The counters of every reachable parser.** From the constructor with any callbacks and
flags, through any calls (bytes in any chunks, setters, resets): each per-type counter is the
number of messages of that type handed to `process_message`, and `messages_parsed` is their sum,
since every such message has a known type and `process_message`'s `default` branch never runs;
`malformed_messages` is the number of unknown headers dropped. While the callbacks stay as set,
each set callback is called once per message of its type. -/
theorem counters_match_dispatches (t q h vc vs : Bool) (calls : List Call) :
    let evs := (MessageParser.configured t q h vc vs).toReframer.runEvents calls
    ∃ s out, (MessageParser.configured t q h vc vs).run calls = .ok (s, out) ∧
      s.stats.messagesParsed =
        s.stats.tradesParsed + s.stats.quotesParsed + s.stats.heartbeatsParsed ∧
      s.stats.tradesParsed = UInt64.ofNat (evs.countP (Event.isDispatchedOf MessageType.TRADE)) ∧
      s.stats.quotesParsed = UInt64.ofNat (evs.countP (Event.isDispatchedOf MessageType.QUOTE)) ∧
      s.stats.heartbeatsParsed =
        UInt64.ofNat (evs.countP (Event.isDispatchedOf MessageType.HEARTBEAT)) ∧
      (∀ e ∈ evs, e.unknown = false) ∧
      s.stats.malformedMessages = UInt64.ofNat (evs.count .resync) ∧
      ((∀ c ∈ calls, c.keepsCallbacks) →
        (t = true → UInt64.ofNat (out.countP fun i => i.type == MessageType.TRADE) =
          s.stats.tradesParsed) ∧
        (q = true → UInt64.ofNat (out.countP fun i => i.type == MessageType.QUOTE) =
          s.stats.quotesParsed) ∧
        (h = true → UInt64.ofNat (out.countP fun i => i.type == MessageType.HEARTBEAT) =
          s.stats.heartbeatsParsed)) := by
  intro evs
  set r := (MessageParser.configured t q h vc vs).toReframer
  obtain ⟨s, hrun, hr⟩ := (MessageParser.configured t q h vc vs).run_refines (Nat.zero_le _) calls
  have hst : s.stats = (r.run calls).1.stats := by rw [← hr]; rfl
  have hknown : ∀ e ∈ evs, e.unknown = false := fun e he =>
    (Reframer.mem_runEvents he).elim (fun h => h ▸ rfl) fun ⟨_, h⟩ => (Reframer.event_known h).1
  have c1 := Reframer.run_counter _ _ (fun c e => (c.onEvent_counts e).1) r calls
  have c2 := Reframer.run_counter _ _ (fun c e => (c.onEvent_counts e).2.1) r calls
  have c3 := Reframer.run_counter _ _ (fun c e => (c.onEvent_counts e).2.2.1) r calls
  have c4 := Reframer.run_counter _ _ (fun c e => (c.onEvent_counts e).2.2.2.1) r calls
  have c6 := Reframer.run_counter _ _ (fun c e => (c.onEvent_counts e).2.2.2.2.2) r calls
  have hz : r.stats = ParserStats.init := rfl
  simp only [hz, ParserStats.init, zero_add] at c1 c2 c3 c4 c6
  rw [← hst] at c1 c2 c3 c4 c6
  have hmal : evs.countP (fun e => decide (e = .resync) || e.unknown) = evs.count .resync := by
    rw [List.count_eq_countP]
    exact List.countP_congr fun e he => by simp [hknown e he]
  refine ⟨s, _, hrun, ?_, c2, c3, c4, hknown, c6.trans (congrArg _ hmal), fun hkeep => ?_⟩
  · rw [c1, c2, c3, c4, countP_isDispatched evs hknown, uint64_ofNat_add, uint64_ofNat_add]
  · have hcb := Reframer.run_callbacks r hkeep
    refine ⟨fun ht => ?_, fun hq => ?_, fun hh => ?_⟩
    · rw [hcb, c2]
      simp [r, ParserCore.callbackFor, MessageParser.configured, ht]
    · rw [hcb, c3]
      simp [r, ParserCore.callbackFor, MessageParser.configured, hq, MessageType.TRADE,
        MessageType.QUOTE]
    · rw [hcb, c4]
      simp [r, ParserCore.callbackFor, MessageParser.configured, hh, MessageType.TRADE,
        MessageType.QUOTE, MessageType.HEARTBEAT]

/-- A trade parsed while no trade callback is set, then `set_trade_callback`: the trade is
counted and the callback is set, but it was never called. -/
theorem callback_set_after_trade_never_called :
    ∃ s out, (MessageParser.configured false true true true true).run
        [.parse ([1] ++ List.replicate 27 0 ++ [1, 0, 0, 0]), .setTradeCallback true] = .ok (s, out) ∧
      s.stats.tradesParsed = 1 ∧ s.tradeCallback = true ∧
      (out.countP fun i => i.type == MessageType.TRADE) = 0 := by
  let f : Frame := ⟨[1] ++ List.replicate 27 0, by decide, by decide⟩
  have hbytes : f.bytes = [1] ++ List.replicate 27 0 ++ [1, 0, 0, 0] := by decide
  set c := (MessageParser.configured false true true true true).toParserCore
  have hu := Reframer.parseMessages_units c [f.bytes]
    (fun u hu => List.mem_singleton.mp hu ▸ f.sized) [] (.inl (by decide))
  rw [List.flatten_singleton, List.append_nil] at hu
  have hparse : Reframer.parse ⟨c, []⟩ f.bytes =
      (⟨(c.receiveAll [f.bytes]).1, []⟩, 32, (c.receiveAll [f.bytes]).2) := by
    rw [Reframer.parse_fits _ (by decide) (by decide), List.nil_append, hu]
    rfl
  obtain ⟨s, hrun, hr⟩ := (MessageParser.configured false true true true true).run_refines
    (Nat.zero_le _) [.parse f.bytes, .setTradeCallback true]
  simp only [MessageParser.configured_toReframer, Reframer.run, Reframer.call] at hrun hr
  rw [hparse, hbytes] at hrun
  refine ⟨s, _, hrun, ?_, ?_, by decide⟩
  · rw [show s.stats = s.toReframer.stats from rfl, hr, hparse]
    decide
  · rw [show s.tradeCallback = s.toReframer.tradeCallback from rfl, hr]

/-! ## Sequence tracking over a run -/

theorem seqGaps_false (a : UInt32) (seqs : List UInt32) : seqGaps false a seqs = breaks (a :: seqs) := by
  induction seqs generalizing a with
  | nil => rfl
  | cons b seqs ih =>
    rw [seqGaps, ih, breaks, breaks, List.tail_cons, List.tail_cons, List.zip_cons_cons,
      List.countP_cons]
    simp only [Bool.not_false, Bool.true_and]
    omega

theorem seqGaps_true (a : UInt32) (seqs : List UInt32) : seqGaps true a seqs = breaks seqs := by
  cases seqs with
  | nil => rfl
  | cons b seqs => rw [seqGaps, seqGaps_false, Bool.not_true, Bool.false_and, if_neg Bool.false_ne_true, zero_add]

/-- A message handed to `process_message` is now the last one, and counts a gap if it does not
follow the one before. -/
theorem ParserCore.onEvent_dispatched_seq (c : ParserCore) (msg : List UInt8) :
    let seq := (MessageHeader.ofBytes msg).sequenceNumber
    (c.onEvent (.dispatched msg)).lastSequenceNumber = seq ∧
      (c.onEvent (.dispatched msg)).firstMessage = false ∧
      (c.onEvent (.dispatched msg)).stats.sequenceGaps = c.stats.sequenceGaps +
        if c.validateSequence && !c.firstMessage && seq != c.lastSequenceNumber + 1 then 1 else 0 := by
  obtain ⟨h1, h2, h3⟩ := (c.trackSequence msg).processMessage_seq (typeOf msg) msg
  exact ⟨h1, h2, h3.trans (congrArg ParserStats.sequenceGaps (c.trackSequence_stats msg))⟩

/-- **Sequence tracking between resets**: with `validate_sequence_` on, only the messages handed
to `process_message` move `last_sequence_number_`, `first_message_` and `sequence_gaps`; checksum
failures and unknown headers leave them alone. -/
theorem ParserCore.foldl_onEvent_sequence (c : ParserCore) (hvs : c.validateSequence = true)
    (evs : List Event) (hr : Event.reset ∉ evs) :
    let d := evs.foldl ParserCore.onEvent c
    let seqs := sequenceNumbers evs
    d.stats.sequenceGaps = c.stats.sequenceGaps +
        UInt64.ofNat (seqGaps c.firstMessage c.lastSequenceNumber seqs) ∧
      d.lastSequenceNumber = seqs.getLast?.getD c.lastSequenceNumber ∧
      d.firstMessage = (c.firstMessage && seqs.isEmpty) := by
  induction evs generalizing c with
  | nil => exact ⟨(add_zero _).symm, rfl, (Bool.and_true _).symm⟩
  | cons e evs ih =>
    have hvs' : (c.onEvent e).validateSequence = true :=
      (congrArg (fun x => x.2.2.2.2) (c.settings_onEvent e)).trans hvs
    obtain ⟨h1, h2, h3⟩ := ih (c.onEvent e) hvs' fun h => hr (List.mem_cons_of_mem _ h)
    rw [List.foldl_cons]
    cases e with
    | resync => exact ⟨h1, h2, h3⟩
    | rejected msg => exact ⟨h1, h2, h3⟩
    | reset => exact absurd (List.mem_cons_self _ _) hr
    | dispatched msg =>
      obtain ⟨e1, e2, e3⟩ := c.onEvent_dispatched_seq msg
      have hseqs : sequenceNumbers (.dispatched msg :: evs) =
          (MessageHeader.ofBytes msg).sequenceNumber :: sequenceNumbers evs := rfl
      rw [e1] at h1 h2
      rw [e2] at h1 h3
      rw [e3, hvs, Bool.true_and] at h1
      dsimp only
      rw [hseqs, List.getLast?_cons, Option.getD_some]
      refine ⟨?_, h2, h3.trans (Bool.and_false _).symm⟩
      rw [h1, seqGaps, uint64_ofNat_add, ← add_assoc,
        show ∀ b : Bool, UInt64.ofNat (if b then 1 else 0) = if b then 1 else 0 from
          fun b => by cases b <;> rfl]

/-- **Sequence tracking in each segment of a run.** A segment starts at a reset: the constructor
(whose state is its own reset), `reset()`, or `parse` on a full buffer, which does nothing but
reset; it lasts while no further reset happens. Over any byte stream in any chunks, with
`validate_sequence_` on, `sequence_gaps` grows by the number of places where the sequence number
of a message handed to `process_message` is not the previous one's plus one (mod 2^32),
`last_sequence_number_` is the last one's and `first_message_` says there is none. -/
theorem sequence_gaps_per_segment (s : MessageParser) (hvs : s.validateSequence = true)
    (calls : List Call) (hcalls : ∀ c ∈ calls, c.isInput)
    (hseg : Event.reset ∉ s.reset.toReframer.runEvents calls) :
    let seqs := sequenceNumbers (s.reset.toReframer.runEvents calls)
    ∃ s' out, s.reset.run calls = .ok (s', out) ∧
      s'.stats.sequenceGaps = s.stats.sequenceGaps + UInt64.ofNat (breaks seqs) ∧
      s'.lastSequenceNumber = seqs.getLast?.getD 0 ∧
      s'.firstMessage = seqs.isEmpty := by
  intro seqs
  obtain ⟨s', hrun, hr⟩ := s.reset.run_refines (Nat.zero_le _) calls
  have hcore := s.reset.toReframer.run_core hcalls
  rw [← hr] at hcore
  obtain ⟨h1, h2, h3⟩ := ParserCore.foldl_onEvent_sequence s.reset.toReframer.toParserCore hvs _ hseg
  rw [← hcore] at h1 h2 h3
  exact ⟨s', _, hrun, h1.trans (congrArg (s.stats.sequenceGaps + UInt64.ofNat ·) (seqGaps_true 0 seqs)),
    h2, h3.trans (Bool.true_and _)⟩

/-- A `parse` call that copies bytes does not reset. -/
theorem Reframer.reset_not_mem_parseEvents (r : Reframer) {data : List UInt8}
    (h : min data.length (BUFFER_SIZE - r.pending.length) ≠ 0) : Event.reset ∉ r.parseEvents data := by
  have h0 : data.length ≠ 0 := fun h0 => h (by rw [h0, Nat.zero_min])
  intro he
  simp only [Reframer.parseEvents, h0, h, if_false] at he
  obtain ⟨_, hr⟩ := Reframer.mem_drainEvents he
  exact (Reframer.event_known hr).2 rfl

/-- Heartbeats numbered 1, 2 and 5 fed in one chunk after a reset. -/
theorem sequence_gaps_per_segment_heartbeats :
    let s := MessageParser.configured true true true true true
    let calls := [Call.parse ([3, 0, 1, 0, 0, 0, 0, 0, 0, 0, 0, 0, 0, 0, 0, 0, 2, 0, 0, 0] ++
      [3, 0, 2, 0, 0, 0, 0, 0, 0, 0, 0, 0, 0, 0, 0, 0, 1, 0, 0, 0] ++
      [3, 0, 5, 0, 0, 0, 0, 0, 0, 0, 0, 0, 0, 0, 0, 0, 6, 0, 0, 0])]
    let seqs := sequenceNumbers (s.reset.toReframer.runEvents calls)
    s.validateSequence = true ∧ (∀ c ∈ calls, c.isInput) ∧
      Event.reset ∉ s.reset.toReframer.runEvents calls ∧
      ∃ s' out, s.reset.run calls = .ok (s', out) ∧
        s'.stats.sequenceGaps = s.stats.sequenceGaps + UInt64.ofNat (breaks seqs) ∧
        s'.lastSequenceNumber = seqs.getLast?.getD 0 ∧ s'.firstMessage = seqs.isEmpty := by
  intro s calls seqs
  have hseg : Event.reset ∉ s.reset.toReframer.runEvents calls := by
    rw [Reframer.runEvents, Reframer.runEvents, List.append_nil]
    exact Reframer.reset_not_mem_parseEvents _ (by decide)
  exact ⟨rfl, by decide, hseg, sequence_gaps_per_segment s rfl calls (by decide) hseg⟩

end FeedHandler.Parser

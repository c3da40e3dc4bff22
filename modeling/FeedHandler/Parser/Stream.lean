import FeedHandler.Parser.Refinement

/-! The parser on whole streams. A stream of well-formed frames, cut into chunks of any sizes
that fit the buffer, is delivered frame by frame to the callbacks with nothing counted as an
error (`parse_frames_any_chunking`). One corrupted byte past the type field costs exactly that
frame (`parse_corrupted_frame_dropped`). An unknown type stops the drain loop after its 16 bytes
are dropped, so what is delivered depends on where the chunks were cut
(`resync_depends_on_chunking`), and unknown headers can fill the buffer
(`zero_chunks_fill_buffer`). -/

namespace FeedHandler.Protocol
open Parser

/-- The callback a frame is handed to, by its type. -/
def Frame.invocation (f : Frame) : Invocation :=
  if typeOf f.body = MessageType.TRADE then .trade f.bytes
  else if typeOf f.body = MessageType.QUOTE then .quote f.bytes
  else .heartbeat f.bytes

end FeedHandler.Protocol

namespace FeedHandler.Parser
open Protocol
open scoped UInt64.CommRing

/-- A parser straight from its constructor after the five setters. -/
def MessageParser.configured (trade quote heartbeat validateChecksum validateSequence : Bool) :
    MessageParser :=
  { MessageParser.new with
    tradeCallback := trade, quoteCallback := quote, heartbeatCallback := heartbeat,
    validateChecksum, validateSequence }

theorem MessageParser.configured_reachable (t q h vc vs : Bool) :
    Reachable (MessageParser.configured t q h vc vs) := by
  have step : ∀ {s s' : MessageParser} (c : Call),
      Reachable s → s.call c = .ok (s', []) → Reachable s' := fun _ hs hc => .call hs hc
  exact step (.setValidateSequence vs) (step (.setValidateChecksum vc) (step (.setHeartbeatCallback h)
    (step (.setQuoteCallback q) (step (.setTradeCallback t) .new rfl) rfl) rfl) rfl) rfl

@[simp] theorem MessageParser.configured_toReframer (t q h vc vs : Bool) :
    (MessageParser.configured t q h vc vs).toReframer =
      { toParserCore := (MessageParser.configured t q h vc vs).toParserCore, pending := [] } := rfl

/-! ## Receiving a frame -/

/-- The callbacks set and the validation flags, which parsing never changes. -/
def ParserCore.settings (c : ParserCore) : Bool × Bool × Bool × Bool × Bool :=
  (c.tradeCallback, c.quoteCallback, c.heartbeatCallback, c.validateChecksum, c.validateSequence)

theorem ParserCore.settings_validateMessage (c : ParserCore) (msg : List UInt8) (n : Nat) :
    (c.validateMessage msg n).2.settings = c.settings := by
  unfold ParserCore.validateMessage
  split_ifs <;> rfl

theorem ParserCore.settings_processMessage (c : ParserCore) (type : MessageType)
    (msg : List UInt8) : (c.processMessage type msg).1.settings = c.settings := by
  unfold ParserCore.processMessage
  split
  · rfl
  split
  · rfl
  split <;> rfl

@[simp] theorem ParserCore.settings_receive (c : ParserCore) (m : List UInt8) :
    (c.receive m).1.settings = c.settings := by
  have h := c.settings_validateMessage m m.length
  unfold ParserCore.receive
  split <;> rename_i heq <;> rw [heq] at h
  · exact h
  · exact (ParserCore.settings_processMessage _ _ _).trans h

@[simp] theorem ParserCore.settings_receiveAll (c : ParserCore) (ms : List (List UInt8)) :
    (c.receiveAll ms).1.settings = c.settings := by
  induction ms generalizing c with
  | nil => rfl
  | cons m ms ih => simp [ParserCore.receiveAll, ih]

/-- A checksum failure counted, and nothing else changed. -/
def ParserCore.countChecksumError (c : ParserCore) : ParserCore :=
  { c with stats := { c.stats with checksumErrors := c.stats.checksumErrors + 1 } }

theorem ParserCore.validateMessage_countChecksumError (c : ParserCore) (msg : List UInt8) (n : Nat) :
    c.countChecksumError.validateMessage msg n =
      ((c.validateMessage msg n).1, (c.validateMessage msg n).2.countChecksumError) := by
  simp only [ParserCore.validateMessage, ParserCore.countChecksumError]
  split_ifs <;> rfl

theorem ParserCore.processMessage_countChecksumError (c : ParserCore) (type : MessageType)
    (msg : List UInt8) :
    c.countChecksumError.processMessage type msg =
      ((c.processMessage type msg).1.countChecksumError, (c.processMessage type msg).2) := by
  unfold ParserCore.processMessage
  split
  · rfl
  split
  · rfl
  split <;> rfl

/-- Validation and dispatch never read the counters, so a checksum failure counted earlier
passes through every later message. -/
theorem ParserCore.receive_countChecksumError (c : ParserCore) (m : List UInt8) :
    c.countChecksumError.receive m = ((c.receive m).1.countChecksumError, (c.receive m).2) := by
  unfold ParserCore.receive
  rw [ParserCore.validateMessage_countChecksumError]
  rcases c.validateMessage m m.length with ⟨_ | _, core⟩
  · rfl
  · exact ParserCore.processMessage_countChecksumError _ _ _

theorem ParserCore.receiveAll_countChecksumError (c : ParserCore) (ms : List (List UInt8)) :
    c.countChecksumError.receiveAll ms =
      ((c.receiveAll ms).1.countChecksumError, (c.receiveAll ms).2) := by
  induction ms generalizing c with
  | nil => rfl
  | cons m ms ih => simp [ParserCore.receiveAll, ParserCore.receive_countChecksumError, ih]

/-- A frame passes validation and is dispatched by its type. -/
theorem ParserCore.receive_frame (c : ParserCore) (f : Frame) :
    c.receive f.bytes =
      (c.validateMessage f.bytes f.bytes.length).2.processMessage (typeOf f.body) f.bytes := by
  have hv : (c.validateMessage f.bytes f.bytes.length).1 = true := by
    unfold ParserCore.validateMessage
    rw [f.verifyChecksum_bytes, if_neg (by simp)]
  unfold ParserCore.receive
  rw [← Frame.typeOf_bytes]
  rcases h : c.validateMessage f.bytes f.bytes.length with ⟨_ | _, core⟩
  · rw [h] at hv
    cases hv
  · rfl

/-- Validation that passes counts no message and no error. -/
theorem ParserCore.validateMessage_counts (c : ParserCore) (msg : List UInt8) (n : Nat)
    (h : (c.validateMessage msg n).1 = true) :
    (c.validateMessage msg n).2.stats.messagesParsed = c.stats.messagesParsed ∧
      (c.validateMessage msg n).2.stats.checksumErrors = c.stats.checksumErrors ∧
      (c.validateMessage msg n).2.stats.malformedMessages = c.stats.malformedMessages := by
  unfold ParserCore.validateMessage at h ⊢
  split_ifs at h ⊢
  dsimp only
  split <;> exact ⟨rfl, rfl, rfl⟩

/-- Dispatch of a known type counts one message parsed and no error. -/
theorem ParserCore.processMessage_known (c : ParserCore) {type : MessageType}
    (hk : getMessageSize type ≠ 0) (msg : List UInt8) :
    (c.processMessage type msg).1.stats.messagesParsed = c.stats.messagesParsed + 1 ∧
      (c.processMessage type msg).1.stats.checksumErrors = c.stats.checksumErrors ∧
      (c.processMessage type msg).1.stats.malformedMessages = c.stats.malformedMessages := by
  rcases getMessageSize_ne_zero hk with rfl | rfl | rfl <;>
    simp [ParserCore.processMessage, MessageType.TRADE, MessageType.QUOTE, MessageType.HEARTBEAT]

/-- A frame passes validation: it is counted as parsed, and no error is counted. -/
theorem ParserCore.receive_frame_stats (c : ParserCore) (f : Frame) :
    (c.receive f.bytes).1.stats.messagesParsed = c.stats.messagesParsed + 1 ∧
      (c.receive f.bytes).1.stats.checksumErrors = c.stats.checksumErrors ∧
      (c.receive f.bytes).1.stats.malformedMessages = c.stats.malformedMessages := by
  have hv : (c.validateMessage f.bytes f.bytes.length).1 = true := by
    unfold ParserCore.validateMessage
    rw [f.verifyChecksum_bytes, if_neg (by simp)]
  obtain ⟨v1, v2, v3⟩ := c.validateMessage_counts _ _ hv
  obtain ⟨p1, p2, p3⟩ := ParserCore.processMessage_known
    (c.validateMessage f.bytes f.bytes.length).2 f.known f.bytes
  rw [ParserCore.receive_frame]
  exact ⟨p1.trans (by rw [v1]), p2.trans v2, p3.trans v3⟩

/-- With every callback set, a frame is handed to the callback of its type. -/
theorem ParserCore.receive_frame_out (c : ParserCore)
    (hc : c.tradeCallback ∧ c.quoteCallback ∧ c.heartbeatCallback) (f : Frame) :
    (c.receive f.bytes).2 = [f.invocation] := by
  have hs := c.settings_validateMessage f.bytes f.bytes.length
  simp only [ParserCore.settings, Prod.mk.injEq] at hs
  obtain ⟨ht, hq, hh⟩ := hc
  rw [ParserCore.receive_frame, Frame.invocation]
  rcases getMessageSize_ne_zero f.known with hk | hk | hk <;>
    simp [ParserCore.processMessage, hk, hs, ht, hq, hh, MessageType.TRADE, MessageType.QUOTE,
      MessageType.HEARTBEAT]

theorem ParserCore.receiveAll_frames_stats (c : ParserCore) (fs : List Frame) :
    (c.receiveAll (fs.map Frame.bytes)).1.stats.messagesParsed =
        c.stats.messagesParsed + UInt64.ofNat fs.length ∧
      (c.receiveAll (fs.map Frame.bytes)).1.stats.checksumErrors = c.stats.checksumErrors ∧
      (c.receiveAll (fs.map Frame.bytes)).1.stats.malformedMessages = c.stats.malformedMessages := by
  induction fs generalizing c with
  | nil => simp [ParserCore.receiveAll]
  | cons f fs ih =>
    obtain ⟨h1, h2, h3⟩ := c.receive_frame_stats f
    obtain ⟨i1, i2, i3⟩ := ih (c.receive f.bytes).1
    simp only [List.map_cons, ParserCore.receiveAll, List.length_cons, uint64_ofNat_succ, i1, i2, i3,
      h1, h2, h3, and_true]
    ring

theorem ParserCore.receiveAll_frames_out (c : ParserCore)
    (hc : c.tradeCallback ∧ c.quoteCallback ∧ c.heartbeatCallback) (fs : List Frame) :
    (c.receiveAll (fs.map Frame.bytes)).2 = fs.map Frame.invocation := by
  induction fs generalizing c with
  | nil => rfl
  | cons f fs ih =>
    have hs := c.settings_receive f.bytes
    simp only [ParserCore.settings, Prod.mk.injEq] at hs
    simp only [List.map_cons, ParserCore.receiveAll, c.receive_frame_out hc f,
      ih (c.receive f.bytes).1 (by simp_all), List.singleton_append]

/-! ## Any chunking -/

theorem frames_sized (fs : List Frame) : ∀ u ∈ fs.map Frame.bytes, Sized u := by
  simp only [List.mem_map]
  rintro _ ⟨f, -, rfl⟩
  exact f.sized

/-- The receiving loop of a configured parser fed, in chunks that fit the buffer, the first `k`
messages of a stream of frame-sized messages and then a proper part `p` of the next: every
chunk is taken whole, the `k` messages are received, and `p` waits in the buffer. -/
theorem MessageParser.configured_feed_prefix (t q h vc vs : Bool) (us : List (List UInt8))
    (hus : ∀ u ∈ us, Sized u) (k : Nat) (p : List UInt8) (hp : Waiting p (us.drop k))
    (chunks : List (List UInt8)) (hjoin : chunks.flatten = (us.take k).flatten ++ p)
    (hsmall : ∀ c ∈ chunks, c.length ≤ 8149) :
    ∃ s, (MessageParser.configured t q h vc vs).feed chunks =
        .ok (s, chunks.map List.length,
          ((MessageParser.configured t q h vc vs).receiveAll (us.take k)).2) ∧
      s.toParserCore = ((MessageParser.configured t q h vc vs).receiveAll (us.take k)).1 ∧
      s.bufferUsed = p.length := by
  obtain ⟨s, hfeed, hr⟩ := (MessageParser.configured t q h vc vs).feed_refines
    (by simp [MessageParser.configured, MessageParser.new]) chunks
  rw [MessageParser.configured_toReframer, Reframer.feed_prefix _ us hus k p hp chunks hjoin hsmall]
    at hfeed hr
  refine ⟨s, hfeed, by rw [← MessageParser.toReframer_core, hr], ?_⟩
  rw [← MessageParser.length_live, ← MessageParser.toReframer_pending, hr]

/-- The receiving loop of a configured parser on a whole stream of frame-sized messages. -/
theorem MessageParser.configured_feed_units (t q h vc vs : Bool) (us : List (List UInt8))
    (hus : ∀ u ∈ us, Sized u) (chunks : List (List UInt8)) (hjoin : chunks.flatten = us.flatten)
    (hsmall : ∀ c ∈ chunks, c.length ≤ 8149) :
    ∃ s, (MessageParser.configured t q h vc vs).feed chunks =
        .ok (s, chunks.map List.length,
          ((MessageParser.configured t q h vc vs).receiveAll us).2) ∧
      s.toParserCore = ((MessageParser.configured t q h vc vs).receiveAll us).1 ∧
      s.bufferUsed = 0 := by
  simpa using MessageParser.configured_feed_prefix t q h vc vs us hus us.length []
    (by simp [Waiting]) chunks (by simpa using hjoin) hsmall

/-- **A stream of well-formed frames in any chunking.** Every call takes its whole chunk, the
callbacks see exactly the frames in order, and nothing is counted as an error or left over. -/
theorem parse_frames_any_chunking (frames : List Frame) (chunks : List (List UInt8))
    (hjoin : chunks.flatten = (frames.map Frame.bytes).flatten)
    (hsmall : ∀ c ∈ chunks, c.length ≤ 8149) (vc vs : Bool) :
    ∃ s, (MessageParser.configured true true true vc vs).feed chunks =
        .ok (s, chunks.map List.length, frames.map Frame.invocation) ∧
      s.stats.messagesParsed = UInt64.ofNat frames.length ∧ s.stats.checksumErrors = 0 ∧
      s.stats.malformedMessages = 0 ∧ s.bufferUsed = 0 := by
  obtain ⟨s, hfeed, hcore, hused⟩ := MessageParser.configured_feed_units true true true vc vs _
    (frames_sized frames) chunks hjoin hsmall
  have hc := congrArg ParserCore.stats hcore
  obtain ⟨h1, h2, h3⟩ := ParserCore.receiveAll_frames_stats
    (MessageParser.configured true true true vc vs).toParserCore frames
  rw [ParserCore.receiveAll_frames_out _ (by simp [MessageParser.configured])] at hfeed
  refine ⟨s, hfeed, ?_, ?_, ?_, hused⟩
  · rw [hc, h1]
    exact zero_add _
  · rw [hc, h2]
    rfl
  · rw [hc, h3]
    rfl

theorem parse_frames_any_chunking_heartbeat :
    ∃ s, (MessageParser.configured true true true true true).feed
        [[3, 0, 0, 0, 0, 0, 0], [0, 0, 0, 0, 0, 0, 0, 0, 0, 3, 0, 0, 0]] =
        .ok (s, [7, 13], [.heartbeat [3, 0, 0, 0, 0, 0, 0, 0, 0, 0, 0, 0, 0, 0, 0, 0, 3, 0, 0, 0]]) ∧
      s.stats.messagesParsed = 1 ∧ s.stats.checksumErrors = 0 ∧
      s.stats.malformedMessages = 0 ∧ s.bufferUsed = 0 := by
  obtain ⟨s, h, hrest⟩ := parse_frames_any_chunking
    [⟨[3, 0, 0, 0, 0, 0, 0, 0, 0, 0, 0, 0, 0, 0, 0, 0], by decide, by decide⟩]
    [[3, 0, 0, 0, 0, 0, 0], [0, 0, 0, 0, 0, 0, 0, 0, 0, 3, 0, 0, 0]] (by decide) (by decide) true true
  refine ⟨s, h.trans ?_, hrest⟩
  simp only [Except.ok.injEq, Prod.mk.injEq, true_and]
  decide

/-! ## Sequence numbers -/

/-- The gaps `validate_message` counts over messages with these sequence numbers, from
`first_message_` and `last_sequence_number_`. -/
def seqGaps : Bool → UInt32 → List UInt32 → Nat
  | _, _, [] => 0
  | firstMessage, last, seq :: seqs =>
    (if !firstMessage && seq != last + 1 then 1 else 0) + seqGaps false seq seqs

/-- Dispatch leaves the sequence state and the gap count alone. -/
theorem ParserCore.processMessage_seq (c : ParserCore) (type : MessageType) (msg : List UInt8) :
    (c.processMessage type msg).1.lastSequenceNumber = c.lastSequenceNumber ∧
      (c.processMessage type msg).1.firstMessage = c.firstMessage ∧
      (c.processMessage type msg).1.stats.sequenceGaps = c.stats.sequenceGaps := by
  unfold ParserCore.processMessage
  split
  · exact ⟨rfl, rfl, rfl⟩
  split
  · exact ⟨rfl, rfl, rfl⟩
  split <;> exact ⟨rfl, rfl, rfl⟩

/-- A frame's sequence number becomes the last one seen, and a gap before it is counted. -/
theorem ParserCore.receive_frame_seq (c : ParserCore) (hvs : c.validateSequence = true)
    (f : Frame) :
    (c.receive f.bytes).1.lastSequenceNumber = (MessageHeader.ofBytes f.bytes).sequenceNumber ∧
      (c.receive f.bytes).1.firstMessage = false ∧
      (c.receive f.bytes).1.stats.sequenceGaps = c.stats.sequenceGaps +
        UInt64.ofNat (seqGaps c.firstMessage c.lastSequenceNumber
          [(MessageHeader.ofBytes f.bytes).sequenceNumber]) := by
  simp only [ParserCore.receive, ParserCore.validateMessage, f.verifyChecksum_bytes, Bool.not_true,
    Bool.and_false, Bool.false_eq_true, if_false, hvs, Bool.true_and]
  rw [(ParserCore.processMessage_seq _ _ _).1, (ParserCore.processMessage_seq _ _ _).2.1,
    (ParserCore.processMessage_seq _ _ _).2.2]
  refine ⟨rfl, rfl, ?_⟩
  simp only [seqGaps, Nat.add_zero]
  split_ifs <;> simp

/-- **The gaps counted over frames** are those between consecutive sequence numbers. -/
theorem ParserCore.receiveAll_frames_gaps (c : ParserCore) (hvs : c.validateSequence = true)
    (fs : List Frame) :
    (c.receiveAll (fs.map Frame.bytes)).1.stats.sequenceGaps = c.stats.sequenceGaps +
      UInt64.ofNat (seqGaps c.firstMessage c.lastSequenceNumber
        (fs.map fun f => (MessageHeader.ofBytes f.bytes).sequenceNumber)) := by
  induction fs generalizing c with
  | nil => simp [ParserCore.receiveAll, seqGaps]
  | cons f fs ih =>
    obtain ⟨h1, h2, h3⟩ := c.receive_frame_seq hvs f
    have hs := c.settings_receive f.bytes
    simp only [ParserCore.settings, Prod.mk.injEq] at hs
    rw [List.map_cons, ParserCore.receiveAll, ih _ (by rw [hs.2.2.2.2, hvs]), h1, h2, h3,
      List.map_cons, seqGaps, seqGaps, seqGaps, Nat.add_zero, uint64_ofNat_add, add_assoc]

/-! ## A corrupted frame -/

theorem ParserCore.receive_corrupted (c : ParserCore) (hc : c.validateChecksum = true) (f : Frame)
    {i : Nat} (hi : i < f.bytes.length) {v : UInt8} (hv : v ≠ f.bytes[i]) :
    c.receive (f.bytes.set i v) = (c.countChecksumError, []) := by
  have hbad : (c.validateChecksum && !verifyChecksum (f.bytes.set i v) (f.bytes.set i v).length) =
      true := by rw [hc, f.verifyChecksum_set i hi v hv]; rfl
  simp only [ParserCore.receive, ParserCore.validateMessage, hbad, if_true]
  rfl

/-- With checksums validated, a stream with one frame corrupted is received as the stream without
that frame, with one checksum failure counted. -/
theorem ParserCore.receiveAll_corrupted (c : ParserCore) (hc : c.validateChecksum = true)
    (frames : List Frame) (k : Nat) (hk : k < frames.length) {i : Nat}
    (hi : i < frames[k].bytes.length) {v : UInt8} (hv : v ≠ frames[k].bytes[i]) :
    c.receiveAll ((frames.map Frame.bytes).set k (frames[k].bytes.set i v)) =
      ((c.receiveAll ((frames.eraseIdx k).map Frame.bytes)).1.countChecksumError,
        (c.receiveAll ((frames.eraseIdx k).map Frame.bytes)).2) := by
  set us := frames.map Frame.bytes
  have hvc : (c.receiveAll (us.take k)).1.validateChecksum = true := by
    have := c.settings_receiveAll (us.take k)
    simp only [ParserCore.settings, Prod.mk.injEq] at this
    rw [this.2.2.2.1, hc]
  rw [List.set_eq_take_append_cons_drop, if_pos (by simpa [us] using hk),
    List.eraseIdx_eq_take_drop_succ, List.map_append, List.map_take, List.map_drop,
    ParserCore.receiveAll_append, ParserCore.receiveAll_append]
  simp [ParserCore.receiveAll, ParserCore.receive_corrupted _ hvc _ hi hv,
    ParserCore.receiveAll_countChecksumError]

/-- **One corrupted byte costs exactly its frame.** A byte of frame `k` past its type field is
changed; the stream is fed with checksums validated, in any chunking. The callbacks, the
sequence tracking and every counter are those of the stream without frame `k`, in any chunking,
except that one checksum failure is counted. -/
theorem parse_corrupted_frame_dropped (t q h vs : Bool) (frames : List Frame) (k : Nat)
    (hk : k < frames.length) (i : Nat) (hi2 : 2 ≤ i) (hi : i < frames[k].bytes.length) (v : UInt8)
    (hv : v ≠ frames[k].bytes[i]) (chunks chunks' : List (List UInt8))
    (hjoin : chunks.flatten = ((frames.map Frame.bytes).set k (frames[k].bytes.set i v)).flatten)
    (hjoin' : chunks'.flatten = ((frames.eraseIdx k).map Frame.bytes).flatten)
    (hsmall : ∀ c ∈ chunks, c.length ≤ 8149) (hsmall' : ∀ c ∈ chunks', c.length ≤ 8149) :
    ∃ s s' out, (MessageParser.configured t q h true vs).feed chunks =
        .ok (s, chunks.map List.length, out) ∧
      (MessageParser.configured t q h true vs).feed chunks' =
        .ok (s', chunks'.map List.length, out) ∧
      s.toParserCore = s'.toParserCore.countChecksumError ∧ s'.stats.checksumErrors = 0 ∧
      s.stats.checksumErrors = 1 ∧ s.stats.malformedMessages = 0 ∧
      s.bufferUsed = 0 ∧ s'.bufferUsed = 0 := by
  have hus : ∀ u ∈ (frames.map Frame.bytes).set k (frames[k].bytes.set i v), Sized u :=
    fun u hu => (List.mem_or_eq_of_mem_set hu).elim (frames_sized frames u)
      fun h => h ▸ frames[k].sized.set hi2 v
  obtain ⟨s, hfeed, hcore, hused⟩ :=
    MessageParser.configured_feed_units t q h true vs _ hus chunks hjoin hsmall
  obtain ⟨s', hfeed', hcore', hused'⟩ := MessageParser.configured_feed_units t q h true vs _
    (frames_sized _) chunks' hjoin' hsmall'
  obtain ⟨-, h2, h3⟩ := ParserCore.receiveAll_frames_stats
    (MessageParser.configured t q h true vs).toParserCore (frames.eraseIdx k)
  rw [ParserCore.receiveAll_corrupted _ rfl frames k hk hi hv] at hfeed hcore
  have hc := congrArg ParserCore.stats hcore
  refine ⟨s, s', _, hfeed, hfeed', by rw [hcore, hcore'], ?_, ?_, ?_, hused, hused'⟩
  · rw [hcore', h2]
    rfl
  · rw [hc, ParserCore.countChecksumError, h2]
    rfl
  · rw [hc, ParserCore.countChecksumError, h3]
    rfl

theorem parse_corrupted_frame_dropped_heartbeat :
    ∃ s s' out, (MessageParser.configured true true true true true).feed
        [[3, 0, 1, 0, 0, 0, 0, 0, 0, 0, 0, 0, 0, 0, 0, 0, 3, 0, 0, 0]] = .ok (s, [20], out) ∧
      (MessageParser.configured true true true true true).feed [] = .ok (s', [], out) ∧
      s.toParserCore = s'.toParserCore.countChecksumError ∧ s'.stats.checksumErrors = 0 ∧
      s.stats.checksumErrors = 1 ∧ s.stats.malformedMessages = 0 ∧
      s.bufferUsed = 0 ∧ s'.bufferUsed = 0 :=
  parse_corrupted_frame_dropped true true true true
    [⟨[3, 0, 0, 0, 0, 0, 0, 0, 0, 0, 0, 0, 0, 0, 0, 0], by decide, by decide⟩] 0 (by decide) 2
    (by decide) (by decide) 1 (by decide) _ [] (by decide) rfl (by simp) (by simp)

/-! ## Unknown types -/

theorem typeOf_replicate_zero (n : Nat) : typeOf (List.replicate n 0) = 0 := by
  have h : ∀ m, decodeLE (List.replicate m 0) = 0 := fun m => by
    induction m with
    | zero => rfl
    | succ m ih => simp [List.replicate_succ, decodeLE, ih]
  simp [typeOf, MessageHeader.ofBytes, field, List.take_replicate, h]

theorem Reframer.feed_append (r : Reframer) (xs ys : List (List UInt8)) :
    r.feed (xs ++ ys) = (((r.feed xs).1.feed ys).1, (r.feed xs).2.1 ++ ((r.feed xs).1.feed ys).2.1,
      (r.feed xs).2.2 ++ ((r.feed xs).1.feed ys).2.2) := by
  induction xs generalizing r with
  | nil => rfl
  | cons x xs ih => simp [Reframer.feed, ih]

/-- Zeros taken into a buffer of zeros: whatever fits is copied, the unknown header in front is
dropped, and the loop stops. -/
theorem Reframer.parse_zeros (c : ParserCore) (m k : Nat) (hk : 0 < min k (BUFFER_SIZE - m))
    (h16 : MessageHeader.SIZE ≤ m + min k (BUFFER_SIZE - m)) :
    ∃ c', Reframer.parse ⟨c, List.replicate m 0⟩ (List.replicate k 0) =
      (⟨c', List.replicate (m + min k (BUFFER_SIZE - m) - MessageHeader.SIZE) 0⟩,
        min k (BUFFER_SIZE - m), []) := by
  have hcopy : (List.replicate k (0 : UInt8)).take (min k (BUFFER_SIZE - m)) =
      List.replicate (min k (BUFFER_SIZE - m)) 0 := by
    rw [List.take_replicate]
    congr 1
    omega
  unfold Reframer.parse
  simp only [List.length_replicate]
  rw [if_neg (by omega), if_neg (by omega), hcopy, List.append_replicate_replicate,
    Reframer.parseMessages_of_false (Reframer.parseMessage_invalid _
      (by simpa using h16) (by rw [typeOf_replicate_zero]; rfl))]
  exact ⟨_, by rw [List.drop_replicate]⟩

/-- Each 32-byte chunk of zeros is taken whole while it fits, and leaves 16 more zeros behind. -/
theorem Reframer.feed_zero_chunks (c : ParserCore) (j n : Nat) (h : j + n ≤ 511) :
    ∃ c', Reframer.feed ⟨c, List.replicate (16 * j) 0⟩ (List.replicate n (List.replicate 32 0)) =
      (⟨c', List.replicate (16 * (j + n)) 0⟩, List.replicate n 32, []) := by
  induction n generalizing c j with
  | zero => exact ⟨c, rfl⟩
  | succ n ih =>
    have hmin : min 32 (BUFFER_SIZE - 16 * j) = 32 := by simp only [BUFFER_SIZE]; omega
    obtain ⟨c1, h1⟩ := Reframer.parse_zeros c (16 * j) 32 (by omega)
      (by simp only [hmin, MessageHeader.SIZE]; omega)
    rw [hmin, show 16 * j + 32 - MessageHeader.SIZE = 16 * (j + 1) by
      simp only [MessageHeader.SIZE]; omega] at h1
    obtain ⟨c2, h2⟩ := ih c1 (j + 1) (by omega)
    rw [show j + 1 + n = j + (n + 1) by omega] at h2
    refine ⟨c2, ?_⟩
    rw [List.replicate_succ, Reframer.feed]
    simp only [h1, h2]
    rfl

/-- **An unknown type stops the drain loop, so chunking matters.** Sixteen zero bytes, whose type
field names no known type, and then any frame are fed whole and as two chunks. Whole, the zeros
are dropped and the loop ends with the complete frame left in the buffer and no callback made;
split, the frame is delivered. -/
theorem resync_depends_on_chunking (f : Frame) (vc vs : Bool) :
    ∃ s₁ s₂, (MessageParser.configured true true true vc vs).feed [List.replicate 16 0 ++ f.bytes] =
        .ok (s₁, [16 + f.bytes.length], []) ∧
      (MessageParser.configured true true true vc vs).feed [List.replicate 16 0, f.bytes] =
        .ok (s₂, [16, f.bytes.length], [f.invocation]) ∧
      s₁.live = f.bytes ∧ s₂.bufferUsed = 0 := by
  have hle : f.bytes.length ≤ 44 := f.sized.2 ▸ (getMessageSize_bounds f.sized.1).2
  have hne : f.bytes ≠ [] := fun h => by have := f.sized.length_ge; simp [h] at this
  set c := (MessageParser.configured true true true vc vs).toParserCore with hc
  set c' : ParserCore :=
    { c with stats := { c.stats with malformedMessages := c.stats.malformedMessages + 1 } }
  have hjunk : ∀ rest : List UInt8,
      Reframer.parseMessages ⟨c, List.replicate 16 0 ++ rest⟩ = (⟨c', rest⟩, []) := fun rest => by
    have hz : getMessageSize (typeOf (List.replicate 16 0 ++ rest)) = 0 := by
      rw [typeOf_append _ (by simp), typeOf_replicate_zero]
      rfl
    rw [Reframer.parseMessages_of_false
      (Reframer.parseMessage_invalid ⟨c, List.replicate 16 0 ++ rest⟩ (by simp [MessageHeader.SIZE]) hz)]
    simp [MessageHeader.SIZE, c']
  have hframe : Reframer.parseMessages ⟨c', f.bytes⟩ = (⟨(c'.receive f.bytes).1, []⟩, [f.invocation]) := by
    have := Reframer.parseMessages_units c' [f.bytes] (by simpa using f.sized) []
      (.inl (by simp [MessageHeader.SIZE]))
    simpa [ParserCore.receiveAll, c'.receive_frame_out (by simp [c', c, MessageParser.configured]) f]
      using this
  have hfit : ([] : List UInt8).length + f.bytes.length ≤ BUFFER_SIZE := by
    simp only [List.length_nil, BUFFER_SIZE]
    omega
  have run1 : Reframer.feed ⟨c, []⟩ [List.replicate 16 0 ++ f.bytes] =
      (⟨c', f.bytes⟩, [16 + f.bytes.length], []) := by
    rw [Reframer.feed, Reframer.parse_fits _ (by simp) (by simp [BUFFER_SIZE]; omega)]
    simp only [List.nil_append, hjunk, Reframer.feed, List.length_append, List.length_replicate,
      List.append_nil]
  have run2 : Reframer.feed ⟨c, []⟩ [List.replicate 16 0, f.bytes] =
      (⟨(c'.receive f.bytes).1, []⟩, [16, f.bytes.length], [f.invocation]) := by
    rw [Reframer.feed, Reframer.parse_fits _ (by simp) (by simp [BUFFER_SIZE])]
    have := hjunk []
    rw [List.append_nil] at this
    simp only [List.nil_append, this]
    rw [Reframer.feed, Reframer.parse_fits _ hne hfit]
    simp [hframe, Reframer.feed]
  obtain ⟨s₁, h1, r1⟩ := (MessageParser.configured true true true vc vs).feed_refines (Nat.zero_le _)
    [List.replicate 16 0 ++ f.bytes]
  obtain ⟨s₂, h2, r2⟩ := (MessageParser.configured true true true vc vs).feed_refines (Nat.zero_le _)
    [List.replicate 16 0, f.bytes]
  rw [MessageParser.configured_toReframer, ← hc] at h1 r1 h2 r2
  rw [run1] at h1 r1
  rw [run2] at h2 r2
  refine ⟨s₁, s₂, h1, h2, ?_, ?_⟩
  · rw [← MessageParser.toReframer_pending, r1]
  · rw [← MessageParser.length_live, ← MessageParser.toReframer_pending, r2]
    rfl

/-- **Unknown headers fill the buffer.** Chunks of 32 zero bytes are fed to a configured parser.
Each call drops the unknown 16-byte header in front and stops, leaving 16 more zeros behind; the
512th chunk no longer fits, and only 16 of its bytes are taken. The buffer then holds 8176 bytes
with an unknown header in front. -/
theorem zero_chunks_fill_buffer (t q h vc vs : Bool) :
    ∃ s, (MessageParser.configured t q h vc vs).feed (List.replicate 512 (List.replicate 32 0)) =
        .ok (s, List.replicate 511 32 ++ [16], []) ∧
      s.bufferUsed = 8176 ∧ getMessageSize (typeOf s.live) = 0 := by
  obtain ⟨s, hfeed, hr⟩ := (MessageParser.configured t q h vc vs).feed_refines (Nat.zero_le _)
    (List.replicate 512 (List.replicate 32 0))
  obtain ⟨c1, h1⟩ := Reframer.feed_zero_chunks
    (MessageParser.configured t q h vc vs).toParserCore 0 511 le_rfl
  obtain ⟨c2, h2⟩ := Reframer.parse_zeros c1 (16 * (0 + 511)) 32 (by decide) (by decide)
  rw [show 16 * (0 + 511) + min 32 (BUFFER_SIZE - 16 * (0 + 511)) - MessageHeader.SIZE = 8176
    from rfl, show min 32 (BUFFER_SIZE - 16 * (0 + 511)) = 16 from rfl] at h2
  have hrun : Reframer.feed (MessageParser.configured t q h vc vs).toReframer
      (List.replicate 512 (List.replicate 32 0)) =
      (⟨c2, List.replicate 8176 0⟩, List.replicate 511 32 ++ [16], []) := by
    rw [show List.replicate 512 (List.replicate 32 (0 : UInt8)) =
      List.replicate 511 (List.replicate 32 0) ++ [List.replicate 32 0] from List.replicate_succ' _ _,
      Reframer.feed_append, MessageParser.configured_toReframer]
    rw [show ([] : List UInt8) = List.replicate (16 * 0) 0 from rfl, h1]
    simp only [Reframer.feed, h2]
    rfl
  rw [hrun] at hfeed hr
  refine ⟨s, hfeed, ?_, ?_⟩
  · rw [← MessageParser.length_live, ← MessageParser.toReframer_pending, hr]
    exact List.length_replicate _ _
  · rw [← MessageParser.toReframer_pending, hr, typeOf_replicate_zero]
    rfl

end FeedHandler.Parser

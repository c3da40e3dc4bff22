import FeedHandler.Parser.Reframer

/-! The parser refines the reframer. While `buffer_used_ ≤ BUFFER_SIZE`, every operation of
`MessageParser` completes without a fault, and its result, seen through `toReframer` (the
received bytes `buffer_[0, buffer_used_)` in place of the buffer), is the reframer's. Every
reachable parser keeps `buffer_used_ ≤ BUFFER_SIZE`, so no reachable state faults. -/

namespace FeedHandler.Parser
open Protocol

def MessageParser.toReframer (s : MessageParser) : Reframer :=
  { toParserCore := s.toParserCore, pending := s.live }

@[simp] theorem MessageParser.length_live (s : MessageParser) : s.live.length = s.bufferUsed := by
  simp [MessageParser.live]

@[simp] theorem MessageParser.toReframer_pending (s : MessageParser) :
    s.toReframer.pending = s.live := rfl

@[simp] theorem MessageParser.toReframer_core (s : MessageParser) :
    s.toReframer.toParserCore = s.toParserCore := rfl

theorem MessageParser.getElem_live (s : MessageParser) (i : Nat) (h : i < s.live.length) :
    s.live[i] = s.buffer i := by
  simp [MessageParser.live]

/-! ## The memory primitives on the received bytes -/

theorem MessageParser.read_zero (s : MessageParser) {n : Nat} (h : n ≤ s.bufferUsed) :
    s.read 0 n = .ok (s.live.take n) := by
  rw [MessageParser.read, if_pos (by omega)]
  congr 1
  apply List.ext_getElem
  · simp; omega
  · intro i h1 h2
    simp [MessageParser.live]

theorem MessageParser.dropFront_spec (s : MessageParser) {n : Nat} (hn : n ≤ s.bufferUsed)
    (hs : s.bufferUsed ≤ BUFFER_SIZE) :
    ∃ s', s.dropFront n = .ok s' ∧ s'.toReframer = { s.toReframer with pending := s.live.drop n } := by
  refine ⟨_, by simp [MessageParser.dropFront, checkedSub, memmove, hn, hs]; rfl, ?_⟩
  simp only [MessageParser.toReframer, Reframer.mk.injEq, true_and]
  apply List.ext_getElem
  · simp [MessageParser.live]
  · intro i h1 h2
    simp [MessageParser.live] at h1 ⊢
    intro h
    omega

theorem MessageParser.dropProcessed_spec (s : MessageParser) {n : Nat} (hn : n ≤ s.bufferUsed)
    (hs : s.bufferUsed ≤ BUFFER_SIZE) :
    ∃ s', s.dropProcessed n = .ok s' ∧
      s'.toReframer = { s.toReframer with pending := s.live.drop n } := by
  by_cases h0 : 0 < s.bufferUsed - n
  · refine ⟨_, by simp [MessageParser.dropProcessed, checkedSub, memmove, hn, h0, hs]; rfl, ?_⟩
    simp only [MessageParser.toReframer, Reframer.mk.injEq, true_and]
    apply List.ext_getElem
    · simp [MessageParser.live]
    · intro i h1 h2
      simp [MessageParser.live] at h1 ⊢
      intro h
      omega
  · refine ⟨_, by simp [MessageParser.dropProcessed, checkedSub, hn, h0]; rfl, ?_⟩
    simp only [MessageParser.toReframer, Reframer.mk.injEq, true_and]
    apply List.ext_getElem
    · simp [MessageParser.live]
    · intro i h1 h2
      simp [MessageParser.live] at h1
      omega

/-! ## One `parse_message` -/

theorem MessageParser.parseMessage_refines (s : MessageParser) (hs : s.bufferUsed ≤ BUFFER_SIZE) :
    ∃ s', s.parseMessage = .ok (s.toReframer.parseMessage.1, s', s.toReframer.parseMessage.2.2) ∧
      s'.toReframer = s.toReframer.parseMessage.2.1 := by
  unfold MessageParser.parseMessage Reframer.parseMessage
  simp only [MessageParser.toReframer_pending, MessageParser.length_live]
  by_cases h16 : s.bufferUsed < MessageHeader.SIZE
  · simp [h16]
  have hsize : (MessageHeader.ofBytes (s.live.take MessageHeader.SIZE)).msgType = typeOf s.live :=
    typeOf_take _ (by simp [MessageHeader.SIZE])
  rw [if_neg h16, if_neg h16, MessageParser.read_zero s (by omega), ok_bind]
  simp only [hsize]
  by_cases h0 : getMessageSize (typeOf s.live) = 0
  · obtain ⟨s', hd, hr⟩ := MessageParser.dropFront_spec
      { s with stats := { s.stats with malformedMessages := s.stats.malformedMessages + 1 } }
      (n := MessageHeader.SIZE) (by simpa using h16) hs
    simp only [h0, if_true, hd, ok_bind]
    exact ⟨s', rfl, hr⟩
  have hbounds := getMessageSize_bounds h0
  by_cases hlt : s.bufferUsed < getMessageSize (typeOf s.live)
  · simp [h0, hlt]
  rw [if_neg h0, if_neg h0, if_neg hlt, if_neg hlt, MessageParser.read_zero s (by omega), ok_bind]
  have hlen : (s.live.take (getMessageSize (typeOf s.live))).length =
      getMessageSize (typeOf s.live) := by simp; omega
  have htype : typeOf (s.live.take (getMessageSize (typeOf s.live))) = typeOf s.live :=
    typeOf_take _ (by simp only [MessageHeader.SIZE] at hbounds; omega)
  simp only [ParserCore.receive, hlen, htype, MessageParser.toReframer_core]
  generalize s.toParserCore.validateMessage _ _ = v
  rcases v with ⟨_ | _, core⟩
  · obtain ⟨s', hd, hr⟩ := MessageParser.dropFront_spec { s with toParserCore := core }
      (n := getMessageSize (typeOf s.live)) (by simp; omega) hs
    simp only [hd, ok_bind]
    exact ⟨s', rfl, hr⟩
  · obtain ⟨s', hd, hr⟩ := MessageParser.dropProcessed_spec
      { s with toParserCore := (core.processMessage (typeOf s.live)
        (s.live.take (getMessageSize (typeOf s.live)))).1 }
      (n := getMessageSize (typeOf s.live)) (by simp; omega) hs
    simp only [hd, ok_bind]
    exact ⟨s', rfl, hr⟩

/-! ## The drain loop, `parse` and the receiving loop -/

theorem MessageParser.parseMessages_refines (s : MessageParser) (hs : s.bufferUsed ≤ BUFFER_SIZE) :
    ∃ s', s.parseMessages = .ok (s', s.toReframer.parseMessages.2) ∧
      s'.toReframer = s.toReframer.parseMessages.1 := by
  induction s using MessageParser.parseMessages.induct with
  | case1 s s1 out h ih =>
    obtain ⟨s1', h1, hr1⟩ := s.parseMessage_refines hs
    rw [h] at h1
    obtain ⟨hm, rfl, rfl⟩ : true = s.toReframer.parseMessage.1 ∧ s1 = s1' ∧
        out = s.toReframer.parseMessage.2.2 := by simpa using h1
    have hb : s1.bufferUsed ≤ BUFFER_SIZE := le_trans (le_of_lt (parseMessage_lt h)) hs
    obtain ⟨s2, h2, hr2⟩ := ih hb
    have hm' : s.toReframer.parseMessage =
        (true, s1.toReframer, s.toReframer.parseMessage.2.2) := by
      rw [hr1]
      exact Prod.ext hm.symm rfl
    rw [MessageParser.parseMessages_of_true h, h2, Reframer.parseMessages_of_true hm', ok_bind]
    exact ⟨s2, rfl, hr2⟩
  | case2 s s1 out h =>
    obtain ⟨s1', h1, hr1⟩ := s.parseMessage_refines hs
    rw [h] at h1
    obtain ⟨hm, rfl, rfl⟩ : false = s.toReframer.parseMessage.1 ∧ s1 = s1' ∧
        out = s.toReframer.parseMessage.2.2 := by simpa using h1
    have hm' : s.toReframer.parseMessage =
        (false, s1.toReframer, s.toReframer.parseMessage.2.2) := by
      rw [hr1]
      exact Prod.ext hm.symm rfl
    rw [MessageParser.parseMessages_of_false h, Reframer.parseMessages_of_false hm']
    exact ⟨s1, rfl, rfl⟩
  | case3 s e h =>
    obtain ⟨s1', h1, -⟩ := s.parseMessage_refines hs
    rw [h] at h1
    cases h1

theorem MessageParser.memcpy_spec (s : MessageParser) (data : List UInt8) {k : Nat}
    (hk : k ≤ data.length) (hb : s.bufferUsed + k ≤ BUFFER_SIZE) :
    ∃ buf, memcpy s.buffer s.bufferUsed data k = .ok buf ∧
      ({ s with buffer := buf, bufferUsed := s.bufferUsed + k } : MessageParser).toReframer =
        { s.toReframer with pending := s.live ++ data.take k } := by
  refine ⟨_, by rw [memcpy, if_pos ⟨hb, hk⟩], ?_⟩
  simp only [MessageParser.toReframer, Reframer.mk.injEq, true_and, MessageParser.live,
    List.range_add, List.map_append, List.map_map]
  congr 1
  · apply List.map_congr_left
    intro i hi
    simp only [List.mem_range] at hi
    simp [show ¬ s.bufferUsed ≤ i by omega]
  · apply List.ext_getElem
    · simp; omega
    · intro i h1 h2
      simp at h1
      simp [h1, List.getElem?_eq_getElem (show i < data.length by omega)]

@[simp] theorem MessageParser.toReframer_reset (s : MessageParser) :
    s.reset.toReframer = s.toReframer.reset := by
  simp [MessageParser.reset, Reframer.reset, MessageParser.toReframer, MessageParser.live]

theorem MessageParser.parse_refines (s : MessageParser) (hs : s.bufferUsed ≤ BUFFER_SIZE)
    (data : List UInt8) :
    ∃ s', s.parse data = .ok (s', (s.toReframer.parse data).2.1, (s.toReframer.parse data).2.2) ∧
      s'.toReframer = (s.toReframer.parse data).1 := by
  unfold MessageParser.parse Reframer.parse
  simp only [MessageParser.toReframer_pending, MessageParser.length_live]
  by_cases h0 : data.length = 0
  · simp [h0]
  rw [if_neg h0, if_neg h0, checkedSub, if_pos hs, ok_bind]
  by_cases h1 : min data.length (BUFFER_SIZE - s.bufferUsed) = 0
  · simp [h1]
  rw [if_neg h1, if_neg h1]
  obtain ⟨buf, hbuf, hr⟩ := s.memcpy_spec data (k := min data.length (BUFFER_SIZE - s.bufferUsed))
    (by omega) (by omega)
  obtain ⟨s', h', hr'⟩ := MessageParser.parseMessages_refines
    { s with buffer := buf, bufferUsed := s.bufferUsed + min data.length (BUFFER_SIZE - s.bufferUsed) }
    (by dsimp only; omega)
  rw [hbuf, ok_bind, h', ok_bind, hr] at *
  exact ⟨s', rfl, hr'⟩

theorem MessageParser.feed_refines (s : MessageParser) (hs : s.bufferUsed ≤ BUFFER_SIZE)
    (cs : List (List UInt8)) :
    ∃ s', s.feed cs = .ok (s', (s.toReframer.feed cs).2.1, (s.toReframer.feed cs).2.2) ∧
      s'.toReframer = (s.toReframer.feed cs).1 := by
  induction cs generalizing s with
  | nil => exact ⟨s, rfl, rfl⟩
  | cons c cs ih =>
    obtain ⟨s1, h1, hr1⟩ := s.parse_refines hs c
    have hb : s1.bufferUsed ≤ BUFFER_SIZE := by
      rw [← MessageParser.length_live, ← MessageParser.toReframer_pending, hr1]
      exact Reframer.parse_pending_le _ (by simpa using hs) c
    obtain ⟨s2, h2, hr2⟩ := ih s1 hb
    rw [MessageParser.feed, h1, ok_bind, h2, ok_bind, Reframer.feed, hr1]
    rw [hr1] at hr2
    exact ⟨s2, rfl, hr2⟩

/-! ## No reachable state faults -/

theorem MessageParser.call_bound {s s' : MessageParser} {c : Call} {out : List Invocation}
    (hs : s.bufferUsed ≤ BUFFER_SIZE) (h : s.call c = .ok (s', out)) :
    s'.bufferUsed ≤ BUFFER_SIZE := by
  cases c with
  | parse data =>
    obtain ⟨s1, h1, hr1⟩ := s.parse_refines hs data
    simp only [MessageParser.call, h1, ok_bind, Except.ok.injEq, Prod.mk.injEq] at h
    rw [← h.1, ← MessageParser.length_live, ← MessageParser.toReframer_pending, hr1]
    exact Reframer.parse_pending_le _ (by simpa using hs) data
  | reset => simp only [MessageParser.call, Except.ok.injEq, Prod.mk.injEq] at h; rw [← h.1]; simp [MessageParser.reset]
  | _ => simp only [MessageParser.call, Except.ok.injEq, Prod.mk.injEq] at h; rw [← h.1]; exact hs

theorem Reachable.bufferUsed_le {s : MessageParser} (h : Reachable s) : s.bufferUsed ≤ BUFFER_SIZE := by
  induction h with
  | new => simp [MessageParser.new]
  | call _ hc ih => exact MessageParser.call_bound ih hc

/-- **Memory safety of `parse`.** From every reachable state, `parse` on any bytes completes
without a fault: every copy and move stays in `buffer_[0, BUFFER_SIZE)`, every read stays below
`buffer_used_`, and no subtraction from `buffer_used_` wraps. `buffer_used_` stays within
`[0, BUFFER_SIZE]`. -/
theorem parse_memory_safe (s : MessageParser) (hs : Reachable s) (data : List UInt8) :
    s.bufferUsed ≤ BUFFER_SIZE ∧
      ∃ s' n out, s.parse data = .ok (s', n, out) ∧ s'.bufferUsed ≤ BUFFER_SIZE := by
  have hb := hs.bufferUsed_le
  obtain ⟨s', h, -⟩ := s.parse_refines hb data
  have hc : s.call (.parse data) = .ok (s', (s.toReframer.parse data).2.2) := by
    simp [MessageParser.call, h]
  exact ⟨hb, s', _, _, h, MessageParser.call_bound hb hc⟩

theorem parse_memory_safe_new :
    MessageParser.new.bufferUsed ≤ BUFFER_SIZE ∧
      ∃ s' n out, MessageParser.new.parse [1, 2, 3] = .ok (s', n, out) ∧ s'.bufferUsed ≤ BUFFER_SIZE :=
  parse_memory_safe _ .new _

/-! ## Iterations of the drain loop -/

/-- The drain loop with at most `fuel` calls of `parse_message`; `none` when they run out. -/
def MessageParser.parseMessagesFor (s : MessageParser) :
    Nat → Option (Except Fault (MessageParser × List Invocation))
  | 0 => none
  | fuel + 1 =>
    match s.parseMessage with
    | .ok (true, s', out) => (s'.parseMessagesFor fuel).map (· >>= fun t => .ok (t.1, out ++ t.2))
    | .ok (false, s', out) => some (.ok (s', out))
    | .error e => some (.error e)

theorem MessageParser.parseMessage_true {s s' : MessageParser} {out : List Invocation}
    (hs : s.bufferUsed ≤ BUFFER_SIZE) (h : s.parseMessage = .ok (true, s', out)) :
    MessageHeader.SIZE + 4 ≤ getMessageSize (typeOf s.live) ∧
      getMessageSize (typeOf s.live) ≤ s.bufferUsed ∧
      s'.live = s.live.drop (getMessageSize (typeOf s.live)) := by
  obtain ⟨s1, h1, hr1⟩ := s.parseMessage_refines hs
  rw [h1] at h
  simp only [Except.ok.injEq, Prod.mk.injEq] at h
  obtain ⟨ht, rfl, -⟩ := h
  have hR : s.toReframer.parseMessage = (true, s1.toReframer, s.toReframer.parseMessage.2.2) :=
    Prod.ext ht (Prod.ext hr1.symm rfl)
  obtain ⟨hsz, hle, hp⟩ := Reframer.parseMessage_true hR
  simp only [MessageParser.toReframer_pending, MessageParser.length_live] at hsz hle hp
  exact ⟨hsz, hle, hp⟩

/-- With more calls than `buffer_used_ / 20`, the drain loop ends within them. -/
theorem MessageParser.parseMessagesFor_eq (s : MessageParser) (fuel : Nat)
    (hs : s.bufferUsed ≤ BUFFER_SIZE) (hf : s.bufferUsed / 20 < fuel) :
    s.parseMessagesFor fuel = some s.parseMessages := by
  obtain ⟨k, rfl⟩ : ∃ k, fuel = k + 1 := ⟨fuel - 1, by omega⟩
  induction s using MessageParser.parseMessages.induct generalizing k with
  | case1 s s' out h ih =>
    obtain ⟨hsz, hle, hp⟩ := MessageParser.parseMessage_true hs h
    have hused : s'.bufferUsed = s.bufferUsed - getMessageSize (typeOf s.live) := by
      rw [← MessageParser.length_live, hp, List.length_drop, MessageParser.length_live]
    simp only [MessageHeader.SIZE] at hsz
    obtain ⟨k', rfl⟩ : ∃ k', k = k' + 1 := ⟨k - 1, by omega⟩
    rw [MessageParser.parseMessagesFor, h]
    dsimp only
    rw [ih (by omega) k' (by omega), MessageParser.parseMessages_of_true h]
    rfl
  | case2 s s' out h => rw [MessageParser.parseMessagesFor, h, MessageParser.parseMessages_of_false h]
  | case3 s e h => rw [MessageParser.parseMessagesFor, h, MessageParser.parseMessages_of_error h]

/-- **The drain loop ends, within `buffer_used_ / 20 + 1` calls of `parse_message`**, whatever the
buffer holds and whatever the flags: each call that lets the loop go on removes a whole message
of `get_message_size` of its type, at least 20 bytes, from the front of the buffer. -/
theorem parse_drain_bounded (s : MessageParser) (hs : s.bufferUsed ≤ BUFFER_SIZE) :
    s.parseMessagesFor (s.bufferUsed / 20 + 1) = some s.parseMessages ∧
      ∀ s' out, s.parseMessage = .ok (true, s', out) →
        20 ≤ getMessageSize (typeOf s.live) ∧
          s'.live = s.live.drop (getMessageSize (typeOf s.live)) ∧ s'.bufferUsed < s.bufferUsed := by
  refine ⟨s.parseMessagesFor_eq _ hs (Nat.lt_succ_self _), fun s' out h => ?_⟩
  obtain ⟨hsz, -, hp⟩ := MessageParser.parseMessage_true hs h
  exact ⟨hsz, hp, parseMessage_lt h⟩

/-- Two heartbeats in the buffer. -/
theorem parse_drain_bounded_two_heartbeats :
    let s : MessageParser := { MessageParser.new with
      buffer := fun i => (([3, 0, 1, 0, 0, 0, 0, 0, 0, 0, 0, 0, 0, 0, 0, 0, 2, 0, 0, 0] ++
        [3, 0, 2, 0, 0, 0, 0, 0, 0, 0, 0, 0, 0, 0, 0, 0, 1, 0, 0, 0]) : List UInt8).getD i 0
      bufferUsed := 40 }
    s.bufferUsed ≤ BUFFER_SIZE ∧
      s.parseMessagesFor (s.bufferUsed / 20 + 1) = some s.parseMessages ∧
      ∀ s' out, s.parseMessage = .ok (true, s', out) →
        20 ≤ getMessageSize (typeOf s.live) ∧
          s'.live = s.live.drop (getMessageSize (typeOf s.live)) ∧ s'.bufferUsed < s.bufferUsed :=
  ⟨by decide, parse_drain_bounded _ (by decide)⟩

end FeedHandler.Parser

import FeedHandler.Parser.MessageParser

/-! The reframer on lists: the parser's state with its buffer replaced by the received bytes it
holds. `Reframer.parseMessage` is one `parse_message` read branch by branch; a complete message
at the front goes through `ParserCore.receive`, which validates it and then dispatches or drops
it. On a stream of frame-sized messages the drain loop is `receiveAll` over the messages
(`parseMessages_units`), and feeding the stream in any chunks that fit the buffer gives the
same callbacks and statistics as feeding it whole (`feed_stream`). -/

namespace FeedHandler.Parser
open Protocol

structure Reframer extends ParserCore where
  pending : List UInt8

/-- A complete message at the front: validated, then dispatched or dropped. -/
def ParserCore.receive (c : ParserCore) (msg : List UInt8) : ParserCore × List Invocation :=
  match c.validateMessage msg msg.length with
  | (false, core) => (core, [])
  | (true, core) => core.processMessage (typeOf msg) msg

def Reframer.parseMessage (r : Reframer) : Bool × Reframer × List Invocation :=
  if r.pending.length < MessageHeader.SIZE then (false, r, [])
  else
    let msgSize := getMessageSize (typeOf r.pending)
    if msgSize = 0 then
      (false, { r with
        stats := { r.stats with malformedMessages := r.stats.malformedMessages + 1 }
        pending := r.pending.drop MessageHeader.SIZE }, [])
    else if r.pending.length < msgSize then (false, r, [])
    else
      let p := r.receive (r.pending.take msgSize)
      (true, { toParserCore := p.1, pending := r.pending.drop msgSize }, p.2)

theorem Reframer.parseMessage_lt {r r' : Reframer} {out : List Invocation}
    (h : r.parseMessage = (true, r', out)) : r'.pending.length < r.pending.length := by
  unfold Reframer.parseMessage at h
  dsimp only at h
  split_ifs at h with h16 h0 hlt <;>
    simp only [Prod.mk.injEq, Bool.false_eq_true, false_and, true_and] at h
  rw [← h.1, List.length_drop]
  have := (getMessageSize_bounds h0).1
  simp only [MessageHeader.SIZE] at *
  omega

/-- A `parse_message` call that lets the loop go on has removed a whole message, of the size
its header's type has, from the front. -/
theorem Reframer.parseMessage_true {r r' : Reframer} {out : List Invocation}
    (h : r.parseMessage = (true, r', out)) :
    MessageHeader.SIZE + 4 ≤ getMessageSize (typeOf r.pending) ∧
      getMessageSize (typeOf r.pending) ≤ r.pending.length ∧
      r'.pending = r.pending.drop (getMessageSize (typeOf r.pending)) := by
  unfold Reframer.parseMessage at h
  dsimp only at h
  split_ifs at h with h16 h0 hlt <;>
    simp only [Prod.mk.injEq, Bool.false_eq_true, false_and, true_and] at h
  rw [← h.1]
  exact ⟨(getMessageSize_bounds h0).1, Nat.le_of_not_lt hlt, rfl⟩

def Reframer.parseMessages (r : Reframer) : Reframer × List Invocation :=
  match h : r.parseMessage with
  | (true, r', out) =>
    let t := r'.parseMessages
    (t.1, out ++ t.2)
  | (false, r', out) => (r', out)
termination_by r.pending.length
decreasing_by exact Reframer.parseMessage_lt h

def Reframer.reset (r : Reframer) : Reframer :=
  { r with pending := [], lastSequenceNumber := 0, firstMessage := true }

def Reframer.parse (r : Reframer) (data : List UInt8) : Reframer × Nat × List Invocation :=
  if data.length = 0 then (r, 0, [])
  else
    let bytesToCopy := min data.length (BUFFER_SIZE - r.pending.length)
    if bytesToCopy = 0 then (r.reset, 0, [])
    else
      let t := { r with pending := r.pending ++ data.take bytesToCopy }.parseMessages
      (t.1, bytesToCopy, t.2)

def Reframer.feed (r : Reframer) : List (List UInt8) → Reframer × List Nat × List Invocation
  | [] => (r, [], [])
  | c :: cs =>
    let x := r.parse c
    let y := x.1.feed cs
    (y.1, x.2.1 :: y.2.1, x.2.2 ++ y.2.2)

theorem Reframer.parseMessages_of_true {r r' : Reframer} {out : List Invocation}
    (h : r.parseMessage = (true, r', out)) :
    r.parseMessages = (r'.parseMessages.1, out ++ r'.parseMessages.2) := by
  rw [Reframer.parseMessages]
  split <;> simp_all

theorem Reframer.parseMessages_of_false {r r' : Reframer} {out : List Invocation}
    (h : r.parseMessage = (false, r', out)) : r.parseMessages = (r', out) := by
  rw [Reframer.parseMessages]
  split <;> simp_all

theorem Reframer.parseMessage_pending_le (r : Reframer) :
    r.parseMessage.2.1.pending.length ≤ r.pending.length := by
  unfold Reframer.parseMessage
  dsimp only
  split_ifs <;> simp

theorem Reframer.parseMessages_pending_le (r : Reframer) :
    r.parseMessages.1.pending.length ≤ r.pending.length := by
  induction r using Reframer.parseMessages.induct with
  | case1 r r' out h ih =>
    rw [Reframer.parseMessages_of_true h]
    exact le_trans ih (le_of_lt (Reframer.parseMessage_lt h))
  | case2 r r' out h =>
    have := r.parseMessage_pending_le
    rw [h] at this
    rwa [Reframer.parseMessages_of_false h]

/-- The received bytes never outgrow the buffer. -/
theorem Reframer.parse_pending_le (r : Reframer) (hr : r.pending.length ≤ BUFFER_SIZE)
    (data : List UInt8) : (r.parse data).1.pending.length ≤ BUFFER_SIZE := by
  unfold Reframer.parse
  dsimp only
  split_ifs with h0 h1
  · exact hr
  · simp [Reframer.reset]
  · refine le_trans (Reframer.parseMessages_pending_le _) ?_
    simp only [List.length_append, List.length_take]
    omega

/-- A chunk that fits beside the received bytes is taken whole and drained. -/
theorem Reframer.parse_fits (r : Reframer) {data : List UInt8} (h0 : data ≠ [])
    (hfit : r.pending.length + data.length ≤ BUFFER_SIZE) :
    r.parse data = ({ r with pending := r.pending ++ data }.parseMessages.1, data.length,
      { r with pending := r.pending ++ data }.parseMessages.2) := by
  have hd : data.length ≠ 0 := by simpa using h0
  have hmin : min data.length (BUFFER_SIZE - r.pending.length) = data.length := by omega
  simp only [Reframer.parse, hd, if_false, hmin, List.take_length]

/-! ## One step -/

/-- Received bytes that hold no complete message and no unknown header: the loop waits. -/
def Incomplete (p : List UInt8) : Prop :=
  p.length < MessageHeader.SIZE ∨
    (getMessageSize (typeOf p) ≠ 0 ∧ p.length < getMessageSize (typeOf p))

theorem Reframer.parseMessage_incomplete (r : Reframer) (h : Incomplete r.pending) :
    r.parseMessage = (false, r, []) := by
  unfold Reframer.parseMessage
  rcases h with h | ⟨h0, hlt⟩
  · simp [h]
  · split_ifs <;> simp_all

/-- An unknown type at the front: it is counted as malformed, its 16 bytes are dropped, and the
loop ends whatever follows them. -/
theorem Reframer.parseMessage_invalid (r : Reframer) (h16 : MessageHeader.SIZE ≤ r.pending.length)
    (h0 : getMessageSize (typeOf r.pending) = 0) :
    r.parseMessage = (false, { r with
      stats := { r.stats with malformedMessages := r.stats.malformedMessages + 1 }
      pending := r.pending.drop MessageHeader.SIZE }, []) := by
  unfold Reframer.parseMessage
  simp [h0, not_lt.mpr h16]

theorem Reframer.parseMessage_unit (c : ParserCore) (u rest : List UInt8) (hu : Sized u) :
    Reframer.parseMessage { toParserCore := c, pending := u ++ rest } =
      (true, { toParserCore := (c.receive u).1, pending := rest }, (c.receive u).2) := by
  obtain ⟨h0, hlen⟩ := hu
  have hsz := (getMessageSize_bounds h0).1
  have htype : typeOf (u ++ rest) = typeOf u :=
    typeOf_append rest (by simp only [MessageHeader.SIZE] at hsz; omega)
  unfold Reframer.parseMessage
  simp only [htype, List.length_append]
  rw [if_neg (by omega), if_neg h0, if_neg (by omega), ← hlen, List.take_left, List.drop_left]

/-! ## Frame-sized messages -/

def ParserCore.receiveAll (c : ParserCore) : List (List UInt8) → ParserCore × List Invocation
  | [] => (c, [])
  | m :: ms =>
    let x := c.receive m
    let y := x.1.receiveAll ms
    (y.1, x.2 ++ y.2)

theorem ParserCore.receiveAll_append (c : ParserCore) (ms ns : List (List UInt8)) :
    c.receiveAll (ms ++ ns) =
      (((c.receiveAll ms).1.receiveAll ns).1,
        (c.receiveAll ms).2 ++ ((c.receiveAll ms).1.receiveAll ns).2) := by
  induction ms generalizing c with
  | nil => simp [ParserCore.receiveAll]
  | cons m ms ih => simp [ParserCore.receiveAll, ih]

/-- **The drain loop on frame-sized messages**: every message is received in order, and the
bytes after them stay in the buffer. -/
theorem Reframer.parseMessages_units (c : ParserCore) (units : List (List UInt8))
    (hu : ∀ u ∈ units, Sized u) (p : List UInt8) (hp : Incomplete p) :
    Reframer.parseMessages { toParserCore := c, pending := units.flatten ++ p } =
      ({ toParserCore := (c.receiveAll units).1, pending := p }, (c.receiveAll units).2) := by
  induction units generalizing c with
  | nil =>
    simpa [ParserCore.receiveAll] using
      Reframer.parseMessages_of_false (Reframer.parseMessage_incomplete ⟨c, p⟩ hp)
  | cons u us ih =>
    simp only [List.flatten_cons, List.append_assoc]
    rw [Reframer.parseMessages_of_true (Reframer.parseMessage_unit c u _ (hu u (by simp))),
      ih _ (fun v hv => hu v (by simp [hv]))]
    simp [ParserCore.receiveAll]

/-! ## Any chunking -/

/-- `p` is what has arrived of the first of the messages `us` still to come, and nothing once
none is left. -/
def Waiting (p : List UInt8) : List (List UInt8) → Prop
  | [] => p = []
  | u :: _ => p <+: u ∧ p.length < u.length

theorem incomplete_of_waiting {p : List UInt8} {us : List (List UInt8)}
    (hus : ∀ u ∈ us, Sized u) (hp : Waiting p us) : Incomplete p := by
  cases us with
  | nil =>
    cases hp
    left
    simp [MessageHeader.SIZE]
  | cons u us =>
    obtain ⟨⟨t, rfl⟩, hlt⟩ := hp
    by_cases h16 : p.length < MessageHeader.SIZE
    · exact .inl h16
    obtain ⟨h0, hlen⟩ := hus _ (List.mem_cons_self _ _)
    rw [typeOf_append t (by simp only [MessageHeader.SIZE] at h16; omega)] at h0 hlen
    exact .inr ⟨h0, hlen ▸ hlt⟩

theorem waiting_length_lt {p : List UInt8} {us : List (List UInt8)}
    (hus : ∀ u ∈ us, Sized u) (hp : Waiting p us) : p.length < QuoteMessage.SIZE := by
  cases us with
  | nil =>
    cases hp
    simp [QuoteMessage.SIZE]
  | cons u us =>
    obtain ⟨h0, hlen⟩ := hus _ (List.mem_cons_self _ _)
    exact lt_of_lt_of_le (hlen ▸ hp.2) (getMessageSize_bounds h0).2

/-- Bytes that begin a stream of messages are whole messages and then what has arrived of the
next one. -/
theorem waiting_split (us : List (List UInt8)) (hus : ∀ u ∈ us, u ≠ []) (q rest : List UInt8)
    (h : q ++ rest = us.flatten) :
    ∃ m p, q = (us.take m).flatten ++ p ∧ Waiting p (us.drop m) := by
  induction us generalizing q with
  | nil =>
    obtain ⟨rfl, -⟩ := List.append_eq_nil.mp h
    exact ⟨0, [], rfl, rfl⟩
  | cons u us ih =>
    have hpre : q <+: u ++ us.flatten := ⟨rest, by simpa using h⟩
    by_cases hq : q.length < u.length
    · exact ⟨0, q, by simp,
        List.prefix_of_prefix_length_le hpre (List.prefix_append _ _) hq.le, hq⟩
    · obtain ⟨q', rfl⟩ := List.prefix_of_prefix_length_le (List.prefix_append _ _) hpre (by omega)
      have h' : q' ++ rest = us.flatten := by simpa using h
      obtain ⟨m, p, rfl, hp⟩ := ih (fun v hv => hus v (by simp [hv])) q' h'
      exact ⟨m + 1, p, by simp, hp⟩

theorem waiting_nil {us : List (List UInt8)} (hus : ∀ u ∈ us, Sized u) : Waiting [] us := by
  cases us with
  | nil => rfl
  | cons u us =>
    have := (hus u (List.mem_cons_self _ _)).length_ge
    exact ⟨List.nil_prefix, by simp only [MessageHeader.SIZE] at this; simp; omega⟩

/-- A split of a stream's beginning into whole messages and a proper part of the next is
unique. -/
theorem waiting_unique {us : List (List UInt8)} {m m' : Nat} {p p' : List UInt8}
    (h : (us.take m).flatten ++ p = (us.take m').flatten ++ p') (hp : Waiting p (us.drop m))
    (hp' : Waiting p' (us.drop m')) : us.take m = us.take m' ∧ p = p' := by
  induction us generalizing m m' with
  | nil =>
    simp only [List.drop_nil, Waiting] at hp hp'
    exact ⟨by simp, hp.trans hp'.symm⟩
  | cons u us ih =>
    have whole : ∀ {q q' : List UInt8} {k : Nat}, Waiting q (u :: us) →
        q ≠ (u :: us.take k).flatten ++ q' := fun hq he => by
      have := congrArg List.length he
      simp only [List.flatten_cons, List.append_assoc, List.length_append] at this
      exact absurd hq.2 (by omega)
    rcases m with _ | m <;> rcases m' with _ | m'
    · simpa using h
    · exact absurd (by simpa using h) (whole hp)
    · exact absurd (by simpa using h.symm) (whole hp')
    · simp only [List.take_succ_cons, List.flatten_cons, List.append_assoc, List.drop_succ_cons]
        at h hp hp'
      obtain ⟨h1, h2⟩ := ih (List.append_cancel_left h) hp hp'
      exact ⟨by simp [h1], h2⟩

theorem Waiting.exists_rest {p : List UInt8} {us : List (List UInt8)} (hp : Waiting p us) :
    ∃ rest, p ++ rest = us.flatten := by
  cases us with
  | nil => exact ⟨[], by simpa using hp⟩
  | cons u us =>
    obtain ⟨⟨t, rfl⟩, -⟩ := hp
    exact ⟨t ++ us.flatten, by simp⟩

/-- **Chunking does not matter on a stream of frame-sized messages.** Fed the beginning of the
stream in chunks that fit the buffer beside any partial message, every call takes its whole
chunk, and the whole messages that have arrived are received in order; the rest of the last one
stays in the buffer. -/
theorem Reframer.feed_stream (c : ParserCore) (us : List (List UInt8)) (hus : ∀ u ∈ us, Sized u)
    (p : List UInt8) (hp : Waiting p us) (cs : List (List UInt8)) (rest : List UInt8)
    (hcs : p ++ cs.flatten ++ rest = us.flatten) (hsmall : ∀ x ∈ cs, x.length ≤ 8149) :
    ∃ m p', p ++ cs.flatten = (us.take m).flatten ++ p' ∧ Waiting p' (us.drop m) ∧
      Reframer.feed { toParserCore := c, pending := p } cs =
        ({ toParserCore := (c.receiveAll (us.take m)).1, pending := p' }, cs.map List.length,
          (c.receiveAll (us.take m)).2) := by
  induction cs generalizing c p us with
  | nil => exact ⟨0, p, by simp, by simpa using hp, by simp [Reframer.feed, ParserCore.receiveAll]⟩
  | cons x xs ih =>
    have hxs : ∀ y ∈ xs, y.length ≤ 8149 := fun y hy => hsmall y (by simp [hy])
    by_cases hx : x = []
    · subst hx
      obtain ⟨m, p', he, hw, hfeed⟩ := ih c us hus p hp (by simpa using hcs) hxs
      exact ⟨m, p', by simpa using he, hw, by simp [Reframer.feed, Reframer.parse, hfeed]⟩
    have hplen := waiting_length_lt hus hp
    have hxlen := hsmall x (by simp)
    have hcopy : min x.length (BUFFER_SIZE - p.length) = x.length := by
      simp only [QuoteMessage.SIZE, MessageHeader.SIZE, QuotePayload.SIZE, BUFFER_SIZE] at *
      omega
    obtain ⟨m, p1, hsplit, hp1⟩ := waiting_split us (fun u hu h => by
      have := (hus u hu).length_ge; simp [h] at this) (p ++ x) (xs.flatten ++ rest)
      (by simpa using hcs)
    have hrest : p1 ++ xs.flatten ++ rest = (us.drop m).flatten := by
      have : (us.take m).flatten ++ (p1 ++ xs.flatten ++ rest) =
          (us.take m).flatten ++ (us.drop m).flatten := by
        rw [← List.flatten_append, List.take_append_drop, ← hcs]
        simp only [List.flatten_cons, ← List.append_assoc, hsplit]
      exact List.append_cancel_left this
    have hdrop : ∀ u ∈ us.drop m, Sized u := fun u hu => hus u (List.mem_of_mem_drop hu)
    have hloop := Reframer.parseMessages_units c (us.take m)
      (fun u hu => hus u (List.mem_of_mem_take hu)) p1 (incomplete_of_waiting hdrop hp1)
    obtain ⟨m2, p2, he, hw, hfeed⟩ := ih _ _ hdrop p1 hp1 hrest hxs
    have hx0 : x.length ≠ 0 := by simpa using hx
    refine ⟨m + m2, p2, ?_, by rwa [← List.drop_drop], ?_⟩
    · rw [List.take_add, List.flatten_append, List.append_assoc, ← he, ← List.append_assoc,
        ← hsplit]
      simp
    · simp only [Reframer.feed, Reframer.parse, hx0, if_false, hcopy, List.take_length]
      rw [show ({ toParserCore := c, pending := p ++ x } : Reframer) =
        { toParserCore := c, pending := (us.take m).flatten ++ p1 } by rw [hsplit]]
      rw [hloop, hfeed, List.take_add, ParserCore.receiveAll_append]
      simp [hx0]

/-- The parser from an empty buffer, fed in chunks that fit it the first `k` messages of a stream
and then a proper part `p` of the next: the `k` messages are received, `p` waits. -/
theorem Reframer.feed_prefix (c : ParserCore) (us : List (List UInt8)) (hus : ∀ u ∈ us, Sized u)
    (k : Nat) (p : List UInt8) (hp : Waiting p (us.drop k)) (cs : List (List UInt8))
    (hcs : cs.flatten = (us.take k).flatten ++ p) (hsmall : ∀ x ∈ cs, x.length ≤ 8149) :
    Reframer.feed { toParserCore := c, pending := [] } cs =
      ({ toParserCore := (c.receiveAll (us.take k)).1, pending := p }, cs.map List.length,
        (c.receiveAll (us.take k)).2) := by
  obtain ⟨rest, hrest⟩ := hp.exists_rest
  obtain ⟨m, p', he, hw, hfeed⟩ := Reframer.feed_stream c us hus [] (waiting_nil hus) cs rest
    (by rw [List.nil_append, hcs, List.append_assoc, hrest, ← List.flatten_append,
      List.take_append_drop]) hsmall
  obtain ⟨htake, rfl⟩ := waiting_unique (he.symm.trans (by rw [List.nil_append, hcs])) hw hp
  rw [hfeed, htake]

end FeedHandler.Parser

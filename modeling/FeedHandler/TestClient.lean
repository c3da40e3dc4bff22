import FeedHandler.Session
import FeedHandler.Server.Args

/-! The test client (`simple_test_client.cpp`): one blocking `recv` for a message's header,
a second for the rest of it, and the trades and quotes counted, until it has `num_messages`
messages or a read fails.

A `recv` may hand over fewer bytes than it asks for, and the client then stops. So from the
bytes the simulator sends a client, it takes the first delivered messages in order, never a
misframed one and never the part of a cut one, and when every `recv` hands over what it asks
for it takes all of them, up to `num_messages` (`simpleClient_session`). -/

namespace FeedHandler.Server
open Protocol Parser

/-! ## One message -/

/-- The kernel's answer to one `recv(sock_fd_, buf, n, 0)` on the client's blocking socket:
`data extra` when bytes have arrived and it hands over at most `extra + 1` of them, `error` for
`-1`. Once the stream is used up the server has closed, and `recv` returns `0`. -/
inductive RecvAnswer
  | data (extra : Nat)
  | error
  deriving DecidableEq, Repr

/-- `recv(sock_fd_, buf, n, 0)` on what is left of the stream: the count returned, and the
bytes. -/
def recv (stream : List UInt8) (n : Nat) : RecvAnswer → Int × List UInt8
  | .data extra =>
    let count := min n (min (extra + 1) stream.length)
    (count, stream.take count)
  | .error => (-1, [])

/-- A `recv` that returns the count it asked for handed over the next bytes of the stream. -/
theorem recv_count {stream : List UInt8} {n : Nat} {a : RecvAnswer} (h : (recv stream n a).1 = n) :
    n ≤ stream.length ∧ (recv stream n a).2 = stream.take n := by
  cases a with
  | data extra =>
    simp only [recv, Nat.cast_inj] at h ⊢
    exact ⟨by omega, by rw [h]⟩
  | error =>
    simp only [recv] at h
    omega

/-- An answer that hands over every byte asked for, up to a whole quote, once they have
arrived. -/
def RecvAnswer.Full : RecvAnswer → Prop
  | .data extra => QuoteMessage.SIZE ≤ extra + 1
  | .error => False

instance (a : RecvAnswer) : Decidable a.Full := by
  cases a <;> unfold RecvAnswer.Full <;> infer_instance

theorem recv_full {stream : List UInt8} {n : Nat} {a : RecvAnswer} (ha : a.Full)
    (hn : n ≤ QuoteMessage.SIZE) (hs : n ≤ stream.length) :
    recv stream n a = ((n : Int), stream.take n) := by
  cases a with
  | data extra =>
    have : min n (min (extra + 1) stream.length) = n := by
      simp only [RecvAnswer.Full] at ha
      omega
    simp only [recv, this]
  | error => exact ha.elim

/-- Why `receive_message` returned `false`, by the text it writes: `Server closed connection`
(`closed`), `recv() error: …` (`recvError`), `Partial header received` (`partialHeader`),
`Invalid message size: <size>` (`invalidSize`), `Failed to receive full message` (`incomplete`). -/
inductive ReceiveFault
  | closed
  | recvError
  | partialHeader
  | invalidSize (size : Nat)
  | incomplete
  deriving DecidableEq, Repr

/-- `receive_message(buffer, buffer_size, bytes_received)`, the kernel answering its two
`recv` calls with `answers`: the bytes left in `buffer` and what is left of the stream. -/
def SimpleClient.receiveMessage (bufferSize : Nat) (stream : List UInt8)
    (answers : RecvAnswer × RecvAnswer) : Except ReceiveFault (List UInt8 × List UInt8) :=
  let header := recv stream MessageHeader.SIZE answers.1
  if header.1 ≤ 0 then .error (if header.1 = 0 then .closed else .recvError)
  else if header.1 ≠ MessageHeader.SIZE then .error .partialHeader
  else
    let msgSize := getMessageSize (MessageHeader.ofBytes header.2).msgType
    if msgSize = 0 ∨ bufferSize < msgSize then .error (.invalidSize msgSize)
    else
      let stream := stream.drop MessageHeader.SIZE
      let remaining := msgSize - MessageHeader.SIZE
      let body := recv stream remaining answers.2
      if body.1 ≠ remaining then .error .incomplete
      else .ok (header.2 ++ body.2, stream.drop remaining)

/-! ## The loop of `main` -/

/-- The counters of `main`, and the message in `buffer` at each pass. -/
structure ClientRun where
  messagesReceived : Nat
  tradeCount : Nat
  quoteCount : Nat
  messages : List (List UInt8)
  deriving DecidableEq, Repr

/-- One pass after a message is received: counted as a trade, a quote or neither, by the type in
its header. -/
def ClientRun.count (r : ClientRun) (msg : List UInt8) : ClientRun :=
  { messagesReceived := r.messagesReceived + 1
    tradeCount := if typeOf msg = MessageType.TRADE then r.tradeCount + 1 else r.tradeCount
    quoteCount :=
      if typeOf msg = MessageType.TRADE then r.quoteCount
      else if typeOf msg = MessageType.QUOTE then r.quoteCount + 1 else r.quoteCount
    messages := r.messages ++ [msg] }

/-- `while (messages_received < num_messages)` with `k` passes left, the kernel answering the
`recv` calls for the `i`-th message with `answer i`; a failed `receive_message` ends it. -/
def SimpleClient.loop (answer : Nat → RecvAnswer × RecvAnswer) :
    Nat → List UInt8 → ClientRun → ClientRun
  | 0, _, r => r
  | k + 1, stream, r =>
    match SimpleClient.receiveMessage 1024 stream (answer r.messagesReceived) with
    | .error _ => r
    | .ok (msg, stream) => SimpleClient.loop answer k stream (r.count msg)

/-- `main` after it connected, reading `num_messages` messages into `uint8_t buffer[1024]`. -/
def SimpleClient.main (numMessages : Nat) (stream : List UInt8)
    (answer : Nat → RecvAnswer × RecvAnswer) : ClientRun :=
  SimpleClient.loop answer numMessages stream ⟨0, 0, 0, []⟩

/-- `strtol(str, nullptr, 10)`: `0` when nothing is converted, and `LONG_MIN` or `LONG_MAX`
when the value overflows `long`. -/
def strtol (str : String) : Int :=
  match scanDecimal str.toList with
  | none => 0
  | some (negative, magnitude) =>
    max (-9223372036854775808) (min (if negative then -magnitude else magnitude) 9223372036854775807)

/-- `strtoul(str, nullptr, 10)`: `0` when nothing is converted, `ULONG_MAX` when the digits
exceed it, and otherwise the value, negated in `unsigned long` after a minus sign. -/
def strtoul (str : String) : UInt64 :=
  match scanDecimal str.toList with
  | none => 0
  | some (negative, magnitude) =>
    if 18446744073709551615 < magnitude then 18446744073709551615
    else if negative then -UInt64.ofNat magnitude else UInt64.ofNat magnitude

/-- The client's settings from `argv[1]`, `argv[2]`, `argv[3]`: host, port and `num_messages`,
with the defaults `127.0.0.1`, `9876` and `100`. -/
def SimpleClient.arguments (args : List String) : String × UInt16 × UInt64 :=
  (args.getD 0 "127.0.0.1",
    if 1 < args.length then narrowToUInt16 (strtol (args.getD 1 "")) else 9876,
    if 2 < args.length then strtoul (args.getD 2 "") else 100)

/-! ## Framing -/

/-- Two sized messages in front of one stream are the same message. -/
theorem sized_append_inj {a b x y : List UInt8} (ha : Sized a) (hb : Sized b)
    (h : a ++ x = b ++ y) : a = b ∧ x = y := by
  have two : ∀ {c : List UInt8}, Sized c → 2 ≤ c.length := fun hc => by
    have := hc.length_ge
    simp only [MessageHeader.SIZE] at this
    omega
  have ht : typeOf a = typeOf b := by
    rw [← typeOf_append x (two ha), h, typeOf_append y (two hb)]
  exact List.append_inj h (by rw [ha.2, hb.2, ht])

/-- What has arrived of the next message does not hold a whole one. -/
theorem waiting_ne_sized_append {p a x : List UInt8} {more : List (List UInt8)}
    (hmore : ∀ u ∈ more, Sized u) (hp : Waiting p more) (ha : Sized a) : p ≠ a ++ x := by
  rintro rfl
  cases more with
  | nil =>
    have hl := ha.length_ge
    rw [(List.append_eq_nil.mp hp).1] at hl
    exact absurd hl (by decide)
  | cons u more =>
    obtain ⟨⟨t, ht⟩, hlt⟩ := hp
    obtain ⟨rfl, -⟩ := sized_append_inj ha (hmore u (List.mem_cons_self _ _))
      (by rw [List.append_assoc] at ht; rw [ht, List.append_nil])
    simp at hlt

/-- `receive_message` only ever takes a sized message off the front of the stream. -/
theorem SimpleClient.receiveMessage_ok {bufferSize : Nat} {stream msg rest : List UInt8}
    {answers : RecvAnswer × RecvAnswer}
    (h : SimpleClient.receiveMessage bufferSize stream answers = .ok (msg, rest)) :
    Sized msg ∧ stream = msg ++ rest := by
  simp only [SimpleClient.receiveMessage] at h
  generalize hH : recv stream MessageHeader.SIZE answers.1 = H at h
  obtain ⟨n, header⟩ := H
  split_ifs at h with h₁ h₂ h₃ h₄
  all_goals cases h
  obtain ⟨hs, hH2⟩ := recv_count (hH ▸ not_not.mp h₂)
  rw [hH] at hH2
  subst hH2
  dsimp only at h₃ h₄ ⊢
  obtain ⟨hb, hB2⟩ := recv_count (not_not.mp h₄)
  obtain ⟨h0, -⟩ := not_or.mp h₃
  have hsize := (getMessageSize_bounds h0).1
  have h2 : 2 ≤ (stream.take MessageHeader.SIZE).length := by
    simp only [List.length_take, MessageHeader.SIZE] at hs ⊢
    omega
  rw [hB2, Sized, typeOf_append _ h2, List.length_append, List.length_take, List.length_take,
    List.append_assoc, List.take_append_drop, List.take_append_drop]
  exact ⟨⟨h0, by unfold typeOf; omega⟩, rfl⟩

/-- With answers that hand over what is asked for, `receive_message` takes the next message. -/
theorem SimpleClient.receiveMessage_full {u : List UInt8} (hu : Sized u) (rest : List UInt8)
    {bufferSize : Nat} (hbuf : QuoteMessage.SIZE ≤ bufferSize) {answers : RecvAnswer × RecvAnswer}
    (h1 : answers.1.Full) (h2 : answers.2.Full) :
    SimpleClient.receiveMessage bufferSize (u ++ rest) answers = .ok (u, rest) := by
  have hl := hu.length_ge
  have hsize : u.length ≤ QuoteMessage.SIZE := hu.2 ▸ (getMessageSize_bounds hu.1).2
  have hT : (MessageHeader.ofBytes (u.take MessageHeader.SIZE)).msgType = typeOf u :=
    typeOf_take u (by decide)
  simp only [SimpleClient.receiveMessage]
  rw [recv_full h1 (by decide) (by simp only [List.length_append]; omega),
    List.take_append_of_le_length (by omega), hT, ← hu.2, List.drop_append_of_le_length (by omega),
    recv_full h2 (by omega) (by simp only [List.length_append, List.length_drop]; omega),
    List.take_left' (by simp), List.drop_left' (by simp), List.take_append_drop,
    if_neg (show ¬(MessageHeader.SIZE : Int) ≤ 0 by decide), if_neg (not_not.mpr rfl),
    if_neg (by omega), if_neg (not_not.mpr rfl)]

/-! ## The loop over a stream -/

theorem ClientRun.foldl_count (r : ClientRun) (ms : List (List UInt8)) :
    ms.foldl ClientRun.count r =
      { messagesReceived := r.messagesReceived + ms.length
        tradeCount := r.tradeCount + ms.countP (typeOf · = MessageType.TRADE)
        quoteCount := r.quoteCount + ms.countP (typeOf · = MessageType.QUOTE)
        messages := r.messages ++ ms } := by
  induction ms generalizing r with
  | nil => simp
  | cons m ms ih =>
    have hne : MessageType.TRADE ≠ MessageType.QUOTE := by decide
    rw [List.foldl_cons, ih]
    by_cases ht : typeOf m = MessageType.TRADE
    · simp [ClientRun.count, ht, hne, List.countP_cons]
      omega
    · by_cases hq : typeOf m = MessageType.QUOTE <;>
        simp [ClientRun.count, ht, hq, hne.symm, List.countP_cons] <;> omega

/-- **The client's loop over a stream of messages.** On sized messages followed by what has
arrived of the next, whatever the kernel answers, the client takes the first `j` messages, no
more than it asked for, and counts them by the types in their headers; if every `recv` hands
over what it asks for, it takes as many as it asked for or all there are. -/
theorem SimpleClient.loop_sized (answer : Nat → RecvAnswer × RecvAnswer) (us : List (List UInt8))
    (hus : ∀ u ∈ us, Sized u) {more : List (List UInt8)} (hmore : ∀ u ∈ more, Sized u)
    {p : List UInt8} (hp : Waiting p more) (k : Nat) (r : ClientRun) :
    ∃ j ≤ min k us.length,
      SimpleClient.loop answer k (us.flatten ++ p) r = (us.take j).foldl ClientRun.count r ∧
        ((∀ i, (answer i).1.Full ∧ (answer i).2.Full) → j = min k us.length) := by
  induction us generalizing k r with
  | nil =>
    refine ⟨0, Nat.zero_le _, ?_, fun _ => by simp⟩
    cases k with
    | zero => rfl
    | succ k =>
      simp only [SimpleClient.loop, List.flatten_nil, List.nil_append]
      split
      · rfl
      · rename_i h
        obtain ⟨hs, he⟩ := SimpleClient.receiveMessage_ok h
        exact absurd he (waiting_ne_sized_append hmore hp hs)
  | cons u us ih =>
    cases k with
    | zero => exact ⟨0, Nat.zero_le _, rfl, fun _ => by simp⟩
    | succ k =>
      have hu := hus u (List.mem_cons_self _ _)
      simp only [SimpleClient.loop, List.flatten_cons, List.append_assoc]
      split
      · rename_i h
        refine ⟨0, Nat.zero_le _, rfl, fun hfull => ?_⟩
        rw [SimpleClient.receiveMessage_full hu _ (by decide) (hfull _).1 (hfull _).2] at h
        cases h
      · rename_i msg rest h
        obtain ⟨hs, he⟩ := SimpleClient.receiveMessage_ok h
        obtain ⟨rfl, rfl⟩ := sized_append_inj hu hs he
        obtain ⟨j, hj, hrun, hfull⟩ :=
          ih (fun v hv => hus v (List.mem_cons_of_mem _ hv)) k (r.count u)
        refine ⟨j + 1, ?_, by rw [hrun]; rfl, fun h => ?_⟩
        · simp only [List.length_cons] at hj ⊢
          omega
        · simp only [hfull h, List.length_cons, Nat.succ_min_succ]

/-! ## The simulator's bytes through the client -/

/-- The counters of a client that has received the messages `ms`, by the types in their
headers. -/
def ClientRun.after (ms : List Message) : ClientRun :=
  { messagesReceived := ms.length
    tradeCount := ms.countP (·.header.msgType = MessageType.TRADE)
    quoteCount := ms.countP (·.header.msgType = MessageType.QUOTE)
    messages := ms.map Message.toBytes }

theorem Message.typeOf_toBytes (m : Message) : typeOf m.toBytes = m.header.msgType := by
  unfold typeOf
  rw [m.ofBytes_toBytes.1]

theorem ClientRun.foldl_count_toBytes (ms : List Message) :
    (ms.map Message.toBytes).foldl ClientRun.count ⟨0, 0, 0, []⟩ = ClientRun.after ms := by
  simp [ClientRun.foldl_count, ClientRun.after, Function.comp_def, Message.typeOf_toBytes]

/-- Every message whose header names its type is counted as a trade or as a quote. -/
theorem ClientRun.after_trade_add_quote (ms : List Message) (h : ∀ m ∈ ms, m.Typed) :
    (ClientRun.after ms).tradeCount + (ClientRun.after ms).quoteCount = ms.length := by
  have hne : MessageType.TRADE ≠ MessageType.QUOTE := by decide
  induction ms with
  | nil => rfl
  | cons m ms ih =>
    have hm : m.header.msgType = MessageType.TRADE ∨ m.header.msgType = MessageType.QUOTE := by
      have := h m (List.mem_cons_self _ _)
      cases m
      exacts [.inl this, .inr this]
    have := ih fun m' hm' => h m' (List.mem_cons_of_mem _ hm')
    simp only [ClientRun.after, List.countP_cons, List.length_cons] at this ⊢
    rcases hm with hm | hm <;> simp [hm, hne, hne.symm] <;> omega

/-- **The simulator's bytes through the test client.** Take a simulator of `N ≥ 1` symbols, a
client that connected after the ticks `before`, and the ticks since, each with the kernel's
answer to its send to that client. Whatever the client's `recv` calls hand over, it receives the
first `j` delivered messages, no more than `num_messages`, and counts each as the trade or the
quote it is; when every `recv` hands over what it asks for, it receives `num_messages` of them
or all that were delivered. -/
theorem simpleClient_session (numSymbols : Nat) (hN : 0 < numSymbols) (before : List TickValues)
    (ticks : List (TickValues × SendResult))
    (hkernel : ∀ x ∈ clientCourse numSymbols before ticks, x.2.written ≤ x.1.toBytes.length)
    (numMessages : Nat) (answer : Nat → RecvAnswer × RecvAnswer) :
    ∃ j ≤ min numMessages (delivered (clientCourse numSymbols before ticks)).length,
      SimpleClient.main numMessages (received (clientCourse numSymbols before ticks)) answer =
          ClientRun.after ((delivered (clientCourse numSymbols before ticks)).take j) ∧
        (ClientRun.after ((delivered (clientCourse numSymbols before ticks)).take j)).tradeCount +
          (ClientRun.after ((delivered (clientCourse numSymbols before ticks)).take j)).quoteCount = j ∧
        ((∀ i, (answer i).1.Full ∧ (answer i).2.Full) →
          j = min numMessages (delivered (clientCourse numSymbols before ticks)).length) := by
  have ht := (Ticker.run_of_valid (Ticker.new_valid hN) before).1
  set course := clientCourse numSymbols before ticks
  have htyped : ∀ m ∈ course.map Prod.fst, m.Typed := fun m hm => mem_course_typed ht hm
  obtain ⟨more, p, hrecv, hwait, hmore⟩ := received_eq course hkernel
  have hsized : ∀ m ∈ course.map Prod.fst, Sized m.toBytes := fun m hm => (m.toFrame (htyped m hm)).sized
  obtain ⟨j, hj, hrun, hfull⟩ := SimpleClient.loop_sized answer ((delivered course).map Message.toBytes)
    (by simpa using fun m hm => hsized m (mem_delivered hm)) (by simpa using fun m hm => hsized m (hmore m hm))
    hwait numMessages ⟨0, 0, 0, []⟩
  rw [List.length_map] at hj hfull
  refine ⟨j, hj, ?_, ?_, hfull⟩
  · rw [SimpleClient.main, hrecv, hrun, ← List.map_take, ClientRun.foldl_count_toBytes]
  · rw [ClientRun.after_trade_add_quote _ fun m hm => htyped m (mem_delivered (List.mem_of_mem_take hm)),
      List.length_take]
    omega

/-- A trade delivered, a quote dropped, a quote delivered and a trade cut: the client takes the two
delivered messages and stops at the cut one. -/
theorem simpleClient_session_gap :
    SimpleClient.main 100 (received (clientCourse 1 [] gapTicks)) (fun _ => (.data 43, .data 43)) =
      ⟨2, 1, 1, (delivered (clientCourse 1 [] gapTicks)).map Message.toBytes⟩ := by
  obtain ⟨j, -, hrun, -, hfull⟩ := simpleClient_session 1 (by decide) [] gapTicks (by decide) 100
    fun _ => (.data 43, .data 43)
  rw [hrun, hfull fun _ => ⟨by decide, by decide⟩]
  decide

end FeedHandler.Server

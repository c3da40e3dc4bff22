import FeedHandler.Parser.Stream
import FeedHandler.Server.Simulator

/-! One client's session, from the simulator's ticks to the callbacks of its parser.

From the moment a client connects, every tick broadcasts a message and the client is sent it
once while it stays connected (`serve_own_courses`). In a run of the simulator each client it
connects is sent, in order, the messages of its `clientCourse` up to the send that cuts it
(`connection_course`, `Simulator.exec_connections`). The kernel's answer to each send decides
what the client gets: a full write delivers the message, a would-block drops it, and a partial
write or another error cuts the connection, after the bytes it wrote (`Delivery`). The client
receives the delivered messages and then, if a partial write cut it, a proper prefix of one more
(`received_eq`).

Fed to a parser in any chunks that fit its buffer, those bytes reach the callbacks as exactly
the delivered messages, with the fields the generator produced, and nothing is counted as an
error; the sequence gaps counted are the runs of dropped messages between two delivered ones,
save those whose length is a multiple of `2 ^ 32`, which the 32-bit sequence numbers cannot
see (`client_stream_parsed`). -/

namespace FeedHandler.Protocol
open Parser

/-- The callback of the message's type, handed the message's bytes. -/
def Message.invocation (m : Message) : Invocation :=
  match m with
  | .trade _ _ => .trade m.toBytes
  | .quote _ _ => .quote m.toBytes

theorem Message.toFrame_invocation (m : Message) (h : m.Typed) :
    (m.toFrame h).invocation = m.invocation := by
  have htype := m.typeOf_body
  cases m <;> simp only [Message.Typed, Message.header] at h htype <;>
    simp [Frame.invocation, Message.invocation, htype, h, MessageType.TRADE, MessageType.QUOTE]

end FeedHandler.Protocol

namespace FeedHandler.Parser
open Protocol

/-- What a callback reads from the bytes it is handed, through the struct of its type. -/
def Invocation.message : Invocation → Option Message
  | .trade msg =>
    some (.trade (MessageHeader.ofBytes msg) (TradePayload.ofBytes (msg.drop MessageHeader.SIZE)))
  | .quote msg =>
    some (.quote (MessageHeader.ofBytes msg) (QuotePayload.ofBytes (msg.drop MessageHeader.SIZE)))
  | .heartbeat _ => none

/-- A callback reads the message it is handed the bytes of, field for field. -/
theorem message_invocation (m : Message) : m.invocation.message = some m := by
  obtain ⟨h1, h2⟩ := m.ofBytes_toBytes
  cases m <;> simp_all [Message.invocation, Invocation.message, Message.header]

end FeedHandler.Parser

namespace FeedHandler.Server
open Protocol Parser
open scoped UInt32.CommRing

/-! ## What a client receives -/

/-- How a send ended for the client. -/
inductive Delivery
  | delivered
  | dropped
  | cut
  deriving DecidableEq, Repr

/-- The kernel's answer to the send of a message of `len` bytes, as `send_to_client` reads it:
a full write, a would-block, or a partial write or another error. -/
def SendResult.delivery (len : Nat) : SendResult → Delivery
  | .sent bytes => if bytes = len then .delivered else .cut
  | .failed wouldBlock => if wouldBlock then .dropped else .cut

/-- The bytes the kernel took. -/
def SendResult.written : SendResult → Nat
  | .sent bytes => bytes
  | .failed _ => 0

/-- The classification is the one the client list keeps: a cut client is removed. -/
theorem afterSend_eq_none_iff (len : Nat) (client : ClientConnection) (call : SendCall) :
    afterSend len client call = none ↔ call.result.delivery len = .cut := by
  rcases call with ⟨wouldBlock | bytes, now⟩ <;> simp only [afterSend, SendResult.delivery] <;>
    split_ifs <;> simp

theorem SendResult.written_lt_of_cut {r : SendResult} {len : Nat} (h : r.delivery len = .cut)
    (hlen : 0 < len) (hw : r.written ≤ len) : r.written < len := by
  cases r with
  | sent bytes =>
    simp only [SendResult.delivery] at h
    split_ifs at h with heq
    exact lt_of_le_of_ne hw heq
  | failed wouldBlock => exact hlen

/-- The ticks from `t` on, each message with the kernel's answer to its send to the client. -/
def Ticker.course (t : Ticker) : List (TickValues × SendResult) → List (Message × SendResult)
  | [] => []
  | (v, r) :: ticks =>
    let x := t.generateAndBroadcastTick v
    (x.2, r) :: x.1.course ticks

/-- The messages a full write delivered, up to the cut. -/
def delivered : List (Message × SendResult) → List Message
  | [] => []
  | (m, r) :: course =>
    match r.delivery m.toBytes.length with
    | .delivered => m :: delivered course
    | .dropped => delivered course
    | .cut => []

/-- The bytes the client received: the delivered messages, and what a cutting send wrote. -/
def received : List (Message × SendResult) → List UInt8
  | [] => []
  | (m, r) :: course =>
    match r.delivery m.toBytes.length with
    | .delivered => m.toBytes ++ received course
    | .dropped => received course
    | .cut => m.toBytes.take r.written

def deliveries (course : List (Message × SendResult)) : List Delivery :=
  course.map fun x => x.2.delivery x.1.toBytes.length

/-- The lengths of the maximal runs of dropped messages between two delivered ones, from `none`
(nothing delivered yet) or `some n` (`n` dropped since the last delivery); a cut ends them. -/
def dropRunsFrom : Option Nat → List Delivery → List Nat
  | _, [] => []
  | none, .delivered :: ds => dropRunsFrom (some 0) ds
  | some n, .delivered :: ds => (if n = 0 then [] else [n]) ++ dropRunsFrom (some 0) ds
  | st, .dropped :: ds => dropRunsFrom (st.map (· + 1)) ds
  | _, .cut :: _ => []

def dropRuns (ds : List Delivery) : List Nat := dropRunsFrom none ds

theorem mem_delivered {course : List (Message × SendResult)} {m : Message}
    (h : m ∈ delivered course) : m ∈ course.map Prod.fst := by
  induction course with
  | nil => cases h
  | cons x course ih =>
    obtain ⟨m', r⟩ := x
    simp only [delivered] at h
    split at h
    · rcases List.mem_cons.mp h with rfl | h
      · exact List.mem_cons_self _ _
      · exact List.mem_cons_of_mem _ (ih h)
    · exact List.mem_cons_of_mem _ (ih h)
    · cases h

/-- **What the client receives**: the delivered messages, then a proper part of at most one
more, if the kernel never reports more bytes written than asked. -/
theorem received_eq (course : List (Message × SendResult))
    (hk : ∀ x ∈ course, x.2.written ≤ x.1.toBytes.length) :
    ∃ (more : List Message) (p : List UInt8),
      received course = ((delivered course).map Message.toBytes).flatten ++ p ∧
        Waiting p (more.map Message.toBytes) ∧ ∀ m ∈ more, m ∈ course.map Prod.fst := by
  induction course with
  | nil => exact ⟨[], [], rfl, rfl, by simp⟩
  | cons x course ih =>
    obtain ⟨m, r⟩ := x
    obtain ⟨more, p, h1, h2, h3⟩ := ih fun y hy => hk y (List.mem_cons_of_mem _ hy)
    have h3' : ∀ m' ∈ more, m' ∈ ((m, r) :: course).map Prod.fst :=
      fun m' hm => List.mem_cons_of_mem _ (h3 m' hm)
    cases hd : r.delivery m.toBytes.length
    case delivered =>
      exact ⟨more, p, by simp only [received, delivered, hd, h1, List.map_cons, List.flatten_cons,
        List.append_assoc], h2, h3'⟩
    case dropped => exact ⟨more, p, by simp only [received, delivered, hd, h1], h2, h3'⟩
    case cut =>
      have hlt := r.written_lt_of_cut hd (List.length_pos.mpr m.toBytes_ne_nil)
        (hk (m, r) (List.mem_cons_self _ _))
      refine ⟨[m], m.toBytes.take r.written, by simp only [received, delivered, hd, List.map_nil,
        List.flatten_nil, List.nil_append],
        ⟨List.take_prefix _ _, ?_⟩, by simp⟩
      simpa using hlt

/-! ## Sequence gaps -/

theorem uint32_add_ofNat_eq_iff (last : UInt32) (n : Nat) :
    last + UInt32.ofNat n + 1 = last + 1 ↔ n % 2 ^ 32 = 0 := by
  rw [add_right_comm, add_right_eq_self]
  constructor
  · intro h
    simpa using congrArg UInt32.toNat h
  · intro h
    exact UInt32.toNat.inj (by simpa using h)

/-- A delivery after `n` drops counts a gap exactly when `n` is not a multiple of `2 ^ 32`. -/
theorem gap_count (last : UInt32) (n : Nat) :
    (if (!false && last + UInt32.ofNat n + 1 != last + 1) = true then 1 else 0) =
      (if n = 0 then [] else [n]).countP fun n => n % 2 ^ 32 ≠ 0 := by
  by_cases h0 : n % 2 ^ 32 = 0
  · have h := (uint32_add_ofNat_eq_iff last n).mpr h0
    split_ifs <;> simp_all
  · have h := (uint32_add_ofNat_eq_iff last n).not.mpr h0
    have hn : n ≠ 0 := by rintro rfl; exact h0 rfl
    simp [h, hn, show n % 4294967296 ≠ 0 from h0]

/-- **The gaps the parser counts over the delivered messages**: with the parser's sequence state
tracking the course (nothing delivered yet, or `n` dropped since the last delivery), the gaps
are the runs of drops not a multiple of `2 ^ 32` long. -/
theorem seqGaps_course (t : Ticker) (ht : t.Valid) (ticks : List (TickValues × SendResult))
    (first : Bool) (last : UInt32) (st : Option Nat)
    (hst : st = none ∧ first = true ∨
      ∃ n, st = some n ∧ first = false ∧ last + UInt32.ofNat n = t.generator.sequenceNumber) :
    seqGaps first last ((delivered (t.course ticks)).map fun m => m.header.sequenceNumber) =
      (dropRunsFrom st (deliveries (t.course ticks))).countP fun n => n % 2 ^ 32 ≠ 0 := by
  induction ticks generalizing t first last st with
  | nil => simp [Ticker.course, delivered, deliveries, seqGaps, dropRunsFrom]
  | cons x ticks ih =>
    obtain ⟨v, r⟩ := x
    have hx := t.generateAndBroadcastTick_of_valid ht v
    have ht' := t.generateAndBroadcastTick_valid ht v
    have hseq : (t.generateAndBroadcastTick v).1.generator.sequenceNumber =
        t.generator.sequenceNumber + 1 := by rw [hx]
    have hm : (t.generateAndBroadcastTick v).2.header.sequenceNumber =
        t.generator.sequenceNumber + 1 := by rw [hx]; simp
    simp only [Ticker.course, delivered, deliveries, List.map_cons]
    cases hd : r.delivery (t.generateAndBroadcastTick v).2.toBytes.length
    case delivered =>
      have ih' := ih _ ht' false (t.generator.sequenceNumber + 1) (some 0)
        (.inr ⟨0, rfl, rfl, by rw [hseq]; simp⟩)
      simp only [deliveries] at ih'
      rcases hst with ⟨rfl, rfl⟩ | ⟨n, rfl, rfl, hn⟩
      · simp [seqGaps, dropRunsFrom, hm, ih']
      · simp only [List.map_cons, seqGaps, dropRunsFrom, hm, ih', List.countP_append]
        rw [← hn, gap_count]
    case dropped =>
      have ih' := ih _ ht' first last (st.map (· + 1)) (by
        rcases hst with ⟨rfl, rfl⟩ | ⟨n, rfl, rfl, hn⟩
        · exact .inl ⟨rfl, rfl⟩
        · exact .inr ⟨n + 1, rfl, rfl, by rw [hseq, ← hn, add_assoc]; exact congrArg _ (Nat.cast_succ n)⟩)
      simp only [deliveries] at ih'
      simp only [dropRunsFrom, ih']
    case cut =>
      simp [seqGaps, dropRunsFrom]

/-! ## The client's parser -/

/-- The messages broadcast after a client connected, each with the kernel's answer to its send to
the client: `before` are the ticks before it connected, to a simulator of `numSymbols`
symbols. -/
def clientCourse (numSymbols : Nat) (before : List TickValues)
    (ticks : List (TickValues × SendResult)) : List (Message × SendResult) :=
  ((Ticker.new numSymbols).run before).1.course ticks

/-! ## A connection's course in a run -/

/-- A step as the client with descriptor `fd` sees it: a tick's draw, and the kernel's answer to
the send to `fd`. -/
def Step.tickFor (fd : Int) : Step → Option (TickValues × SendResult)
  | .accept _ => none
  | .tick draw send => some (draw, (send fd).result)

/-- The part of a course the client is sent: every message up to the one whose send cuts it. -/
def sentCourse : List (Message × SendResult) → List (Message × SendResult)
  | [] => []
  | (m, r) :: course =>
    if r.delivery m.toBytes.length = .cut then [(m, r)] else (m, r) :: sentCourse course

/-- What the client receives is decided by the part of its course it is sent. -/
theorem received_delivered_sentCourse (course : List (Message × SendResult)) :
    received (sentCourse course) = received course ∧
      delivered (sentCourse course) = delivered course := by
  induction course with
  | nil => exact ⟨rfl, rfl⟩
  | cons x course ih =>
    obtain ⟨m, r⟩ := x
    cases hd : r.delivery m.toBytes.length <;>
      simp only [sentCourse, hd, reduceCtorEq, if_true, if_false, received, delivered, ih, and_self,
        List.append_nil]

/-- **An active client follows the course of its ticks.** Over the events of `steps` from tick
source `t`, numbered from `e` and answered as the steps say, an active client's sends are
answered as the course of its ticks says, one per message up to the cut, and it leaves the list
exactly when the course cuts it. -/
theorem follow_events (t : Ticker) (steps : List Step) (a : Nat → Int → SendCall) (e : Nat)
    (ha : ∀ i, a (e + i) = stepAnswer steps i) (c : ClientConnection) (hc : c.active = true) :
    (follow a c e (t.events steps)).1.map (fun x => x.2.2.result) =
        (sentCourse (t.course (steps.filterMap (Step.tickFor c.fd)))).map Prod.snd ∧
      ((follow a c e (t.events steps)).2 = none ↔
        ∃ x ∈ t.course (steps.filterMap (Step.tickFor c.fd)), x.2.delivery x.1.toBytes.length = .cut) := by
  induction steps generalizing t e c with
  | nil => simp [Ticker.events, follow, Ticker.course, sentCourse]
  | cons step steps ih =>
    have ha' : ∀ i, a (e + 1 + i) = stepAnswer steps i := fun i => by
      rw [Nat.add_assoc, Nat.add_comm 1 i, ha]
      simp [stepAnswer]
    cases step with
    | accept accepted => exact ih t (e + 1) ha' c hc
    | tick draw send =>
      have h0 : a e c.fd = send c.fd := by simpa [stepAnswer] using congrFun (ha 0) c.fd
      simp only [Ticker.events, follow, hc, if_true, h0, List.filterMap_cons, Step.tickFor, Ticker.course]
      cases hs : afterSend (t.generateAndBroadcastTick draw).2.toBytes.length c (send c.fd) with
      | none =>
        have hcut := (afterSend_eq_none_iff _ _ _).mp hs
        simp only [sentCourse, hcut, if_true, List.map_cons, List.map_nil, true_iff, true_and]
        exact ⟨_, List.mem_cons_self _ _, hcut⟩
      | some c' =>
        have hnc : (send c.fd).result.delivery (t.generateAndBroadcastTick draw).2.toBytes.length ≠ .cut :=
          fun h => by rw [(afterSend_eq_none_iff _ _ _).mpr h] at hs; cases hs
        obtain ⟨hfd, hact⟩ := afterSend_fd_active hs
        obtain ⟨ih1, ih2⟩ := ih (t.generateAndBroadcastTick draw).1 (e + 1) ha' c' (hact.trans hc)
        rw [hfd] at ih1 ih2
        simp only [sentCourse, hnc, if_false, List.map_cons, ih1, ih2, List.mem_cons, exists_eq_or_imp,
          false_or, and_self]

theorem stepAnswer_drop (steps : List Step) (n i : Nat) :
    stepAnswer (steps.drop n) i = stepAnswer steps (n + i) := by
  simp only [stepAnswer, List.getElem?_drop]

/-- A client the run connects was accepted at some step `k`: its events are those of the steps
after `k`, from the tick source as the ticks before left it. -/
theorem mem_connectionsFrom_events (t : Ticker) (steps : List Step) (e₀ : Nat) {fd : Int} {e : Nat}
    {events : List Event} (h : (fd, e, events) ∈ connectionsFrom e₀ (t.events steps)) :
    ∃ k < steps.length, e = e₀ + k + 1 ∧
      events = (t.run ((steps.take (k + 1)).filterMap Step.draw?)).1.events (steps.drop (k + 1)) := by
  induction steps generalizing t e₀ with
  | nil => cases h
  | cons step steps ih =>
    cases step with
    | accept accepted =>
      rcases List.mem_append.mp h with h | h
      · obtain ⟨_, -, hc⟩ := List.mem_map.mp h
        simp only [Prod.mk.injEq] at hc
        obtain ⟨-, rfl, rfl⟩ := hc
        exact ⟨0, Nat.zero_lt_succ _, rfl, rfl⟩
      · obtain ⟨k, hk, rfl, rfl⟩ := ih t (e₀ + 1) h
        exact ⟨k + 1, Nat.succ_lt_succ hk, by omega, rfl⟩
    | tick draw send =>
      obtain ⟨k, hk, rfl, rfl⟩ := ih _ (e₀ + 1) h
      exact ⟨k + 1, Nat.succ_lt_succ hk, by omega, rfl⟩

/-- **Each connection of a run is sent its course.** Over any steps of a simulator of
`numSymbols` symbols, a client the run connects, whose events are numbered from `e`, follows
`clientCourse` of the ticks of the first `e` steps and the ticks since, answered as the steps
answer its descriptor: its sends are answered as the course says, one per message up to the cut,
it leaves the list exactly when the course cuts it, and the course's `received` and `delivered`
are those of the part it was sent. -/
theorem connection_course (numSymbols : Nat) (steps : List Step) {fd : Int} {e : Nat}
    {events : List Event} (h : (fd, e, events) ∈ connectionsFrom 0 ((Ticker.new numSymbols).events steps)) :
    let course := clientCourse numSymbols ((steps.take e).filterMap Step.draw?)
      ((steps.drop e).filterMap (Step.tickFor fd))
    (follow (stepAnswer steps) (.new fd) e events).1.map (fun x => x.2.2.result) =
        (sentCourse course).map Prod.snd ∧
      ((follow (stepAnswer steps) (.new fd) e events).2 = none ↔
        ∃ x ∈ course, x.2.delivery x.1.toBytes.length = .cut) ∧
      received (sentCourse course) = received course ∧
      delivered (sentCourse course) = delivered course := by
  obtain ⟨k, -, rfl, rfl⟩ := mem_connectionsFrom_events _ steps 0 h
  rw [Nat.zero_add]
  obtain ⟨h1, h2⟩ := follow_events _ (steps.drop (k + 1)) (stepAnswer steps) (k + 1)
    (fun i => (stepAnswer_drop steps (k + 1) i).symm) (.new fd) rfl
  exact ⟨h1, h2, received_delivered_sentCourse _⟩

/-- **The clients and sends of a run are its connections' courses.** A simulator of `numSymbols`
symbols, started at `now`, after any calls that complete: the clients left and the sends made
are, up to order, those of the clients the run connected, each following its own course, which
`connection_course` reads as its `clientCourse`. -/
theorem Simulator.exec_connections (numSymbols : Nat) (now : UInt64) (calls : List SimulatorCall)
    {r : Simulator × List (ClientConnection × SendCall)}
    (hr : ((Simulator.new numSymbols).start now).exec calls = some r) :
    let steps := (Pacer.new.start now).steps calls
    let conns := connectionsFrom 0 ((Ticker.new numSymbols).events steps)
    r.1.clients.clients.Perm
        (conns.filterMap fun c => (follow (stepAnswer steps) (.new c.1) c.2.1 c.2.2).2) ∧
      r.2.Perm (conns.flatMap fun c => (follow (stepAnswer steps) (.new c.1) c.2.1 c.2.2).1.map Prod.snd) := by
  intro steps conns
  obtain rfl := Simulator.exec_eq_some hr
  obtain ⟨hclients, hsends⟩ := serve_own_courses (stepAnswer steps) .init 0
    ((Ticker.new numSymbols).events steps)
  simp only [ownCourses, ExchangeSimulator.init, List.map_nil, List.nil_append,
    List.filterMap_map, List.flatMap_map, Function.comp_def] at hclients hsends
  exact ⟨hclients, (hsends.map Prod.snd).trans (.of_eq (List.map_flatMap _ _ _))⟩

theorem mem_course_typed {t : Ticker} (ht : t.Valid) {ticks : List (TickValues × SendResult)}
    {m : Message} (h : m ∈ (t.course ticks).map Prod.fst) : m.Typed := by
  induction ticks generalizing t with
  | nil => cases h
  | cons x ticks ih =>
    simp only [Ticker.course, List.map_cons, List.mem_cons] at h
    rcases h with rfl | h
    · rw [t.generateAndBroadcastTick_of_valid ht]
      exact tickMessage_typed _ _ _
    · exact ih (t.generateAndBroadcastTick_valid ht x.1) h

/-- Messages whose headers name their types are frames, handed to the callbacks of their types
with the sequence numbers of their headers. -/
theorem exists_frames (D : List Message) (hD : ∀ m ∈ D, m.Typed) :
    ∃ frames : List Frame, frames.map Frame.bytes = D.map Message.toBytes ∧
      frames.map Frame.invocation = D.map Message.invocation ∧
      frames.map (fun f => (MessageHeader.ofBytes f.bytes).sequenceNumber) =
        D.map fun m => m.header.sequenceNumber := by
  induction D with
  | nil => exact ⟨[], rfl, rfl, rfl⟩
  | cons m D ih =>
    obtain ⟨frames, h1, h2, h3⟩ := ih fun m' hm => hD m' (List.mem_cons_of_mem _ hm)
    have hm := hD m (List.mem_cons_self _ _)
    refine ⟨m.toFrame hm :: frames, by simp [h1], by simp [h2, m.toFrame_invocation hm], ?_⟩
    simp [h3, m.ofBytes_toBytes.1]

/-- **A client's bytes through its parser.** Take a simulator of `N ≥ 1` symbols, a client that
connected after the ticks `before`, and the ticks since, each with the kernel's answer to its
send to that client. Whatever chunks of at most 8149 bytes the client's parser (all callbacks
set, both validations on) is fed the received bytes in, it hands exactly the delivered messages,
in order, to the callbacks of their types, which read back every field the generator produced;
no checksum error and no malformed message is counted, and the sequence gaps are the runs of
dropped messages between two delivered ones whose length is not a multiple of `2 ^ 32`. -/
theorem client_stream_parsed (numSymbols : Nat) (hN : 0 < numSymbols) (before : List TickValues)
    (ticks : List (TickValues × SendResult))
    (hkernel : ∀ x ∈ clientCourse numSymbols before ticks, x.2.written ≤ x.1.toBytes.length)
    (chunks : List (List UInt8))
    (hjoin : chunks.flatten = received (clientCourse numSymbols before ticks))
    (hsmall : ∀ c ∈ chunks, c.length ≤ 8149) :
    ∃ s, (MessageParser.configured true true true true true).feed chunks =
        .ok (s, chunks.map List.length,
          (delivered (clientCourse numSymbols before ticks)).map Message.invocation) ∧
      (delivered (clientCourse numSymbols before ticks)).map (fun m => m.invocation.message) =
        (delivered (clientCourse numSymbols before ticks)).map some ∧
      s.stats.checksumErrors = 0 ∧ s.stats.malformedMessages = 0 ∧
      s.stats.sequenceGaps = UInt64.ofNat
        ((dropRuns (deliveries (clientCourse numSymbols before ticks))).countP
          fun n => n % 2 ^ 32 ≠ 0) := by
  have ht := (Ticker.run_of_valid (Ticker.new_valid hN) before).1
  set course := clientCourse numSymbols before ticks
  have htyped : ∀ m ∈ course.map Prod.fst, m.Typed := fun m hm => mem_course_typed ht hm
  obtain ⟨more, p, hrecv, hwait, hmore⟩ := received_eq course hkernel
  set D := delivered course
  obtain ⟨frames, hbytes, hout, hseqs⟩ :=
    exists_frames D fun m hm => htyped m (mem_delivered hm)
  have hsized : ∀ u ∈ (D ++ more).map Message.toBytes, Sized u := by
    simp only [List.mem_map, List.mem_append]
    rintro _ ⟨m, hm, rfl⟩
    exact (m.toFrame (htyped m (hm.elim mem_delivered (hmore m)))).sized
  have htake : ((D ++ more).map Message.toBytes).take D.length = frames.map Frame.bytes := by
    rw [hbytes, List.map_append, List.take_left' (by simp)]
  have hdrop : ((D ++ more).map Message.toBytes).drop D.length = more.map Message.toBytes := by
    rw [List.map_append, List.drop_left' (by simp)]
  obtain ⟨s, hfeed, hcore, -⟩ := MessageParser.configured_feed_prefix true true true true true
    _ hsized D.length p (by rwa [hdrop]) chunks (by rw [htake, hbytes, hjoin, hrecv]) hsmall
  rw [htake] at hfeed hcore
  have hc := congrArg ParserCore.stats hcore
  obtain ⟨-, h2, h3⟩ := ParserCore.receiveAll_frames_stats
    (MessageParser.configured true true true true true).toParserCore frames
  have hgaps := ParserCore.receiveAll_frames_gaps
    (MessageParser.configured true true true true true).toParserCore rfl frames
  rw [ParserCore.receiveAll_frames_out _ (by simp [MessageParser.configured]), hout] at hfeed
  refine ⟨s, hfeed, by simp [message_invocation], by rw [hc, h2]; rfl, by rw [hc, h3]; rfl, ?_⟩
  rw [hc, hgaps, hseqs]
  exact (zero_add _).trans
    (congrArg UInt64.ofNat (seqGaps_course _ ht ticks true 0 none (.inl ⟨rfl, rfl⟩)))

/-- A client's ticks: a trade delivered, a quote dropped, a quote delivered, and a trade cut
after 10 of its bytes. -/
def gapTicks : List (TickValues × SendResult) :=
  [(⟨true, 7, ⟨⟨1⟩, 2⟩, ⟨⟨3⟩, 4, ⟨5⟩, 6⟩, ⟨⟨0⟩, 0⟩, ⟨⟨0⟩, 0, ⟨0⟩, 0⟩⟩, .sent 32),
   (⟨false, 8, ⟨⟨1⟩, 2⟩, ⟨⟨3⟩, 4, ⟨5⟩, 6⟩, ⟨⟨0⟩, 0⟩, ⟨⟨0⟩, 0, ⟨0⟩, 0⟩⟩, .failed true),
   (⟨false, 9, ⟨⟨1⟩, 2⟩, ⟨⟨3⟩, 4, ⟨5⟩, 6⟩, ⟨⟨0⟩, 0⟩, ⟨⟨0⟩, 0, ⟨0⟩, 0⟩⟩, .sent 44),
   (⟨true, 10, ⟨⟨1⟩, 2⟩, ⟨⟨3⟩, 4, ⟨5⟩, 6⟩, ⟨⟨0⟩, 0⟩, ⟨⟨0⟩, 0, ⟨0⟩, 0⟩⟩, .sent 10)]

theorem client_stream_parsed_gap :
    ∃ s, (MessageParser.configured true true true true true).feed
        [(received (clientCourse 1 [] gapTicks)).take 40,
          (received (clientCourse 1 [] gapTicks)).drop 40] =
      .ok (s, [40, 46], (delivered (clientCourse 1 [] gapTicks)).map Message.invocation) ∧
      s.stats.sequenceGaps = 1 := by
  obtain ⟨s, h1, -, -, -, h5⟩ := client_stream_parsed 1 (by decide) [] gapTicks (by decide)
    [(received (clientCourse 1 [] gapTicks)).take 40,
      (received (clientCourse 1 [] gapTicks)).drop 40] (by simp) (by decide)
  have hlen : [(received (clientCourse 1 [] gapTicks)).take 40,
      (received (clientCourse 1 [] gapTicks)).drop 40].map List.length = [40, 46] := by decide
  exact ⟨s, by rw [h1, hlen], h5.trans (by decide)⟩

end FeedHandler.Server

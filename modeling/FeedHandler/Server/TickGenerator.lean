import FeedHandler.Protocol

/-! The tick source of `server::ExchangeSimulator`: `TickGenerator::generate_tick`, the payload
fills, `generate_tick_for_symbol`, which packs a message with its checksum, and the round robin
of `generate_and_broadcast_tick`. What the generator draws (the GBM step of the price, the
trade or quote draw, the volumes) and the clock are inputs, one `TickValues` per tick.

With `N ≥ 1` symbols every tick is for a symbol the generator has (`Ticker.Valid`), so each
tick broadcasts the trade or quote drawn, under the next sequence number
(`Ticker.generateAndBroadcastTick_of_valid`, and over a run `Ticker.run_of_valid`). Such a
message is a well-formed frame (`Message.toFrame`) whose fields read back as packed
(`Message.ofBytes_toBytes`). -/

namespace FeedHandler.Protocol

/-- `MessageHeader()`. -/
def MessageHeader.new : MessageHeader := ⟨MessageType.HEARTBEAT, 0, 0, 0⟩

/-- A `TradeMessage` or a `QuoteMessage`: a header and a payload, packed with a checksum. -/
inductive Message
  | trade (header : MessageHeader) (payload : TradePayload)
  | quote (header : MessageHeader) (payload : QuotePayload)
  deriving DecidableEq, Repr

def Message.header : Message → MessageHeader
  | .trade header _ => header
  | .quote header _ => header

/-- The packed header and payload, which the checksum covers. -/
def Message.body : Message → List UInt8
  | .trade header payload => header.toBytes ++ payload.toBytes
  | .quote header payload => header.toBytes ++ payload.toBytes

/-- The `SIZE` bytes of the message, its checksum field set to
`calculate_checksum(&msg, sizeof(msg.header) + sizeof(msg.payload))`. -/
def Message.toBytes (m : Message) : List UInt8 :=
  m.body ++ encodeLE 4 (calculateChecksum m.body).toNat

/-- The header names the type of the struct it heads. -/
def Message.Typed : Message → Prop
  | .trade header _ => header.msgType = MessageType.TRADE
  | .quote header _ => header.msgType = MessageType.QUOTE

theorem Message.typeOf_body (m : Message) : typeOf m.body = m.header.msgType := by
  cases m <;> simp only [Message.body, Message.header, typeOf, MessageHeader.ofBytes_toBytes_append]

theorem Message.length_body_add (m : Message) (h : m.Typed) :
    m.body.length + 4 = getMessageSize (typeOf m.body) := by
  rw [m.typeOf_body]
  cases m <;> simp only [Message.Typed] at h <;> simp [Message.body, Message.header, h,
    getMessageSize, TradeMessage.SIZE, QuoteMessage.SIZE, MessageHeader.SIZE, TradePayload.SIZE,
    QuotePayload.SIZE, MessageType.TRADE, MessageType.QUOTE]

/-- A message whose header names its type is a frame as the parser expects it. -/
def Message.toFrame (m : Message) (h : m.Typed) : Frame where
  body := m.body
  known := by rw [← m.length_body_add h]; omega
  length_body := m.length_body_add h

@[simp] theorem Message.body_toFrame (m : Message) (h : m.Typed) : (m.toFrame h).body = m.body :=
  rfl

@[simp] theorem Message.bytes_toFrame (m : Message) (h : m.Typed) :
    (m.toFrame h).bytes = m.toBytes := rfl

theorem Message.toBytes_ne_nil (m : Message) : m.toBytes ≠ [] := by
  simp only [Message.toBytes, ne_eq, List.append_eq_nil, not_and]
  exact fun _ h => by simpa using congrArg List.length h

/-- The message read back from its bytes, header first and the payload after its 16 bytes,
as a `reinterpret_cast` to its struct reads it. -/
theorem Message.ofBytes_toBytes (m : Message) :
    MessageHeader.ofBytes m.toBytes = m.header ∧
      match m with
      | .trade _ payload => TradePayload.ofBytes (m.toBytes.drop MessageHeader.SIZE) = payload
      | .quote _ payload => QuotePayload.ofBytes (m.toBytes.drop MessageHeader.SIZE) = payload := by
  cases m <;> simp only [Message.toBytes, Message.body, Message.header, List.append_assoc,
    MessageHeader.ofBytes_toBytes_append, true_and] <;>
    rw [← length_header_toBytes, List.drop_left] <;>
    simp only [TradePayload.ofBytes_toBytes_append, QuotePayload.ofBytes_toBytes_append]

end FeedHandler.Protocol

namespace FeedHandler.Server
open Protocol

/-! ## The generator -/

/-- What one tick draws: whether it is a trade (`uniform_dist_(rng_) < 0.3`), the clock
`get_timestamp_ns()`, the payloads the fills write from the symbol's price after its GBM step
and from `generate_volume`, and what the payload of the message on the stack holds before a
fill (it is not initialised). -/
structure TickValues where
  isTrade : Bool
  timestampNs : UInt64
  trade : TradePayload
  quote : QuotePayload
  staleTrade : TradePayload
  staleQuote : QuotePayload
  deriving DecidableEq, Repr

/-- The state of `market::TickGenerator` that the messages depend on: the number of symbols
`initialize` made, and `sequence_number_` (the header keeps its low 32 bits). -/
structure TickGenerator where
  numSymbols : Nat
  sequenceNumber : UInt32
  deriving DecidableEq, Repr

/-- `generate_tick(symbol_id, header)`: the header of the symbol's next tick, and whether it
is a trade. For a symbol the generator does not have, nothing changes and `false` is
returned. -/
def TickGenerator.generateTick (g : TickGenerator) (symbolId : UInt16) (v : TickValues)
    (header : MessageHeader) : TickGenerator × MessageHeader × Bool :=
  if g.numSymbols ≤ symbolId.toNat then (g, header, false)
  else
    let sequenceNumber := g.sequenceNumber + 1
    ({ g with sequenceNumber },
      { msgType := if v.isTrade then MessageType.TRADE else MessageType.QUOTE
        sequenceNumber
        timestampNs := v.timestampNs
        symbolId },
      v.isTrade)

/-- `fill_trade_payload(symbol_id, payload)`: the drawn payload, if the symbol exists. -/
def TickGenerator.fillTradePayload (g : TickGenerator) (symbolId : UInt16) (drawn : TradePayload)
    (payload : TradePayload) : TradePayload :=
  if g.numSymbols ≤ symbolId.toNat then payload else drawn

/-- `fill_quote_payload(symbol_id, payload)`: the drawn payload, if the symbol exists. -/
def TickGenerator.fillQuotePayload (g : TickGenerator) (symbolId : UInt16) (drawn : QuotePayload)
    (payload : QuotePayload) : QuotePayload :=
  if g.numSymbols ≤ symbolId.toNat then payload else drawn

/-- `generate_tick_for_symbol(symbol_id)`: the message it fills and broadcasts. -/
def TickGenerator.generateTickForSymbol (g : TickGenerator) (symbolId : UInt16) (v : TickValues) :
    TickGenerator × Message :=
  let r := g.generateTick symbolId v MessageHeader.new
  if r.2.2 then (r.1, .trade r.2.1 (r.1.fillTradePayload symbolId v.trade v.staleTrade))
  else (r.1, .quote r.2.1 (r.1.fillQuotePayload symbolId v.quote v.staleQuote))

/-! ## The round robin -/

/-- The simulator's side of the ticks: its generator, `num_symbols_` and
`next_symbol_index_`. -/
structure Ticker where
  generator : TickGenerator
  numSymbols : Nat
  nextSymbolIndex : Nat
  deriving DecidableEq, Repr

/-- The constructor: `next_symbol_index_(0)`, then `tick_generator_->initialize(num_symbols_)`. -/
def Ticker.new (numSymbols : Nat) : Ticker := ⟨⟨numSymbols, 0⟩, numSymbols, 0⟩

/-- `generate_and_broadcast_tick()`: the message of the next symbol in turn, which is then
broadcast. -/
def Ticker.generateAndBroadcastTick (t : Ticker) (v : TickValues) : Ticker × Message :=
  let symbolId : UInt16 := UInt16.ofNat t.nextSymbolIndex
  let nextSymbolIndex := (t.nextSymbolIndex + 1) % t.numSymbols
  let r := t.generator.generateTickForSymbol symbolId v
  ({ t with generator := r.1, nextSymbolIndex }, r.2)

/-- `generate_and_broadcast_tick()` with its division checked: with no symbols,
`% num_symbols_` divides by zero, which C++ leaves undefined (`none`). Lean's `%` returns the
dividend there, which `generateAndBroadcastTick` keeps. -/
def Ticker.generateAndBroadcastTick? (t : Ticker) (v : TickValues) : Option (Ticker × Message) :=
  if t.numSymbols = 0 then none else some (t.generateAndBroadcastTick v)

/-- Ticks in a row: the ticker after them and the messages broadcast. -/
def Ticker.run (t : Ticker) : List TickValues → Ticker × List Message
  | [] => (t, [])
  | v :: vs =>
    let x := t.generateAndBroadcastTick v
    let y := x.1.run vs
    (y.1, x.2 :: y.2)

/-- The message of a tick for a symbol the generator has: the trade or quote drawn. -/
def tickMessage (sequenceNumber : UInt32) (symbolId : UInt16) (v : TickValues) : Message :=
  if v.isTrade then .trade ⟨MessageType.TRADE, sequenceNumber, v.timestampNs, symbolId⟩ v.trade
  else .quote ⟨MessageType.QUOTE, sequenceNumber, v.timestampNs, symbolId⟩ v.quote

theorem tickMessage_typed (s : UInt32) (symbolId : UInt16) (v : TickValues) :
    (tickMessage s symbolId v).Typed := by
  unfold tickMessage
  split <;> rfl

@[simp] theorem header_tickMessage (s : UInt32) (symbolId : UInt16) (v : TickValues) :
    (tickMessage s symbolId v).header.sequenceNumber = s := by
  unfold tickMessage
  split <;> rfl

@[simp] theorem symbolId_tickMessage (s : UInt32) (symbolId : UInt16) (v : TickValues) :
    (tickMessage s symbolId v).header.symbolId = symbolId := by
  unfold tickMessage
  split <;> rfl

/-- Every tick is for a symbol the generator has. -/
structure Ticker.Valid (t : Ticker) : Prop where
  numSymbols_eq : t.generator.numSymbols = t.numSymbols
  index_lt : t.nextSymbolIndex < t.numSymbols

theorem Ticker.new_valid {numSymbols : Nat} (h : 0 < numSymbols) : (Ticker.new numSymbols).Valid :=
  ⟨rfl, h⟩

/-- A tick of a valid ticker: the drawn message of the symbol in turn, under the next sequence
number. -/
theorem Ticker.generateAndBroadcastTick_of_valid {t : Ticker} (ht : t.Valid) (v : TickValues) :
    t.generateAndBroadcastTick v =
      ({ t with
          generator := { t.generator with sequenceNumber := t.generator.sequenceNumber + 1 }
          nextSymbolIndex := (t.nextSymbolIndex + 1) % t.numSymbols },
        tickMessage (t.generator.sequenceNumber + 1) (UInt16.ofNat t.nextSymbolIndex) v) := by
  have hsym : ¬t.generator.numSymbols ≤ (UInt16.ofNat t.nextSymbolIndex).toNat := by
    have := ht.index_lt
    rw [ht.numSymbols_eq, uint16_toNat_ofNat]
    omega
  simp only [Ticker.generateAndBroadcastTick, TickGenerator.generateTickForSymbol,
    TickGenerator.generateTick, TickGenerator.fillTradePayload, TickGenerator.fillQuotePayload,
    hsym, if_false, tickMessage]
  cases v.isTrade <;> rfl

theorem Ticker.generateAndBroadcastTick_valid {t : Ticker} (ht : t.Valid) (v : TickValues) :
    (t.generateAndBroadcastTick v).1.Valid := by
  rw [t.generateAndBroadcastTick_of_valid ht]
  exact ⟨ht.numSymbols_eq, Nat.mod_lt _ (by have := ht.index_lt; omega)⟩

/-- The messages of `n` ticks from sequence number `s` and symbol index `i`, of `N`. -/
def tickMessages (s : UInt32) (i N : Nat) : List TickValues → List Message
  | [] => []
  | v :: vs => tickMessage (s + 1) (UInt16.ofNat i) v :: tickMessages (s + 1) ((i + 1) % N) N vs

/-- **The ticks of a valid ticker**: the symbols in turn, with consecutive sequence numbers,
each message the trade or quote drawn. -/
theorem Ticker.run_of_valid {t : Ticker} (ht : t.Valid) (vs : List TickValues) :
    (t.run vs).1.Valid ∧
      (t.run vs).2 = tickMessages t.generator.sequenceNumber t.nextSymbolIndex t.numSymbols vs := by
  induction vs generalizing t with
  | nil => exact ⟨ht, rfl⟩
  | cons v vs ih =>
    obtain ⟨h1, h2⟩ := ih (t.generateAndBroadcastTick_valid ht v)
    simp only [Ticker.run, h1, h2, true_and]
    rw [t.generateAndBroadcastTick_of_valid ht]
    rfl

section
open scoped UInt32.CommRing

theorem getElem?_tickMessages (s : UInt32) {i N : Nat} (hi : i < N) (vs : List TickValues)
    (k : Nat) :
    (tickMessages s i N vs)[k]? =
      vs[k]?.map (tickMessage (s + UInt32.ofNat (k + 1)) (UInt16.ofNat ((i + k) % N))) := by
  induction vs generalizing s i k with
  | nil => rfl
  | cons v vs ih =>
    cases k with
    | zero => simp [tickMessages, Nat.mod_eq_of_lt hi]
    | succ k =>
      have hs : s + 1 + UInt32.ofNat (k + 1) = s + UInt32.ofNat (k + 1 + 1) := by
        rw [show UInt32.ofNat (k + 1 + 1) = UInt32.ofNat (k + 1) + 1 from Nat.cast_succ _]
        ring
      simp only [tickMessages, List.getElem?_cons_succ, ih _ (Nat.mod_lt _ (by omega)), hs,
        Nat.mod_add_mod, Nat.add_right_comm i 1 k, Nat.add_assoc]

end

/-- **Round robin from the constructor**: with `N ≥ 1` symbols, the `k`-th tick broadcasts the
trade or quote drawn for symbol `k mod N`, under sequence number `k + 1` (mod `2^32`). -/
theorem ticks_round_robin (numSymbols : Nat) (hN : 0 < numSymbols) (vs : List TickValues)
    (k : Nat) :
    ((Ticker.new numSymbols).run vs).2[k]? =
      vs[k]?.map (tickMessage (UInt32.ofNat (k + 1)) (UInt16.ofNat (k % numSymbols))) := by
  rw [(Ticker.run_of_valid (Ticker.new_valid hN) vs).2]
  exact (getElem?_tickMessages 0 hN vs k).trans (by simp)

theorem ticks_round_robin_third :
    ((Ticker.new 2).run [⟨true, 5, ⟨⟨1⟩, 2⟩, ⟨⟨3⟩, 4, ⟨5⟩, 6⟩, ⟨⟨0⟩, 0⟩, ⟨⟨0⟩, 0, ⟨0⟩, 0⟩⟩,
        ⟨false, 6, ⟨⟨1⟩, 2⟩, ⟨⟨3⟩, 4, ⟨5⟩, 6⟩, ⟨⟨0⟩, 0⟩, ⟨⟨0⟩, 0, ⟨0⟩, 0⟩⟩,
        ⟨false, 7, ⟨⟨1⟩, 2⟩, ⟨⟨3⟩, 4, ⟨5⟩, 6⟩, ⟨⟨0⟩, 0⟩, ⟨⟨0⟩, 0, ⟨0⟩, 0⟩⟩]).2[2]? =
      some (.quote ⟨MessageType.QUOTE, 3, 7, 0⟩ ⟨⟨3⟩, 4, ⟨5⟩, 6⟩) :=
  (ticks_round_robin 2 (by decide) _ 2).trans (by decide)

/-- **The round robin is not `k mod N` at the boundaries.** With no symbols (`-s 0`) the first
tick divides by zero. With `65537` symbols the index is narrowed to `uint16_t`: tick `65536` is
for symbol `0` again, as tick `0` was, so the first `65537` ticks never reach symbol `65536`. -/
theorem round_robin_breaks_at_boundaries (v : TickValues) (vs : List TickValues)
    (hvs : 65536 < vs.length) :
    (Ticker.new 0).generateAndBroadcastTick? v = none ∧
      (((Ticker.new 65537).run vs).2[0]?).map (·.header.symbolId) = some 0 ∧
      (((Ticker.new 65537).run vs).2[65536]?).map (·.header.symbolId) = some 0 := by
  have hrun : ((Ticker.new 65537).run vs).2 = tickMessages 0 0 65537 vs :=
    (Ticker.run_of_valid (Ticker.new_valid (show 0 < 65537 by decide)) vs).2
  have hsym : ∀ k, k < vs.length → (((Ticker.new 65537).run vs).2[k]?).map (·.header.symbolId) =
      some (UInt16.ofNat (k % 65537)) := by
    intro k hk
    rw [hrun, getElem?_tickMessages 0 (show 0 < 65537 by decide) vs k,
      List.getElem?_eq_getElem hk, Option.map_some', Option.map_some', symbolId_tickMessage,
      Nat.zero_add]
  exact ⟨rfl, hsym 0 (by omega), hsym 65536 hvs⟩

theorem round_robin_breaks_at_boundaries_replicate :
    let v : TickValues := ⟨true, 5, ⟨⟨1⟩, 2⟩, ⟨⟨3⟩, 4, ⟨5⟩, 6⟩, ⟨⟨0⟩, 0⟩, ⟨⟨0⟩, 0, ⟨0⟩, 0⟩⟩
    65536 < (List.replicate 65537 v).length ∧
      (Ticker.new 0).generateAndBroadcastTick? v = none ∧
      (((Ticker.new 65537).run (List.replicate 65537 v)).2[0]?).map (·.header.symbolId) = some 0 ∧
      (((Ticker.new 65537).run (List.replicate 65537 v)).2[65536]?).map (·.header.symbolId) =
        some 0 := by
  intro v
  have hlen : 65536 < (List.replicate 65537 v).length := by rw [List.length_replicate]; decide
  exact ⟨hlen, round_robin_breaks_at_boundaries v _ hlen⟩

end FeedHandler.Server

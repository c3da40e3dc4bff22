import FeedHandler.Protocol

/-! `cache::SymbolCache` (`cache.h`, `parser.cpp`) as one thread runs it. A slot is an
`AtomicMarketState`: its sequence counter and its `MarketState`. Each `update_*` is the same
program on a slot (`AtomicMarketState.write`): bump the counter to odd, store the fields the
call sets, the timestamp and `update_count + 1`, bump the counter to even. The writer's stores
are listed once (`Update.stores`), so the concurrent model of the seqlock runs the very same
stores one at a time.

`expectedState` says what the spec says a symbol's state is after a list of calls: each side of
the book holds the arguments of the last call that set it. `symbolCache_reference` proves the
cache agrees with it after every sequence of calls. -/

namespace FeedHandler.Cache
open Protocol
open scoped UInt64.CommRing

/-! ## State -/

structure MarketState where
  bestBid : Double
  bestAsk : Double
  bidQuantity : UInt32
  askQuantity : UInt32
  lastTradedPrice : Double
  lastTradedQuantity : UInt32
  lastUpdateTime : UInt64
  updateCount : UInt64
  deriving DecidableEq, Repr

/-- `MarketState()`: every field zero. -/
def MarketState.init : MarketState := ⟨⟨0⟩, ⟨0⟩, 0, 0, ⟨0⟩, 0, 0, 0⟩

structure AtomicMarketState where
  sequence : UInt64
  data : MarketState
  deriving DecidableEq, Repr

def AtomicMarketState.init : AtomicMarketState := ⟨0, .init⟩

/-- The arguments of one `update_*` call. -/
inductive Update
  | bid (price : Double) (quantity : UInt32)
  | ask (price : Double) (quantity : UInt32)
  | trade (price : Double) (quantity : UInt32)
  | quote (bidPrice : Double) (bidQty : UInt32) (askPrice : Double) (askQty : UInt32)
  deriving DecidableEq, Repr

/-- The writer's stores to `data` in one `update_*`, in program order. `now` is what
`get_timestamp_ns()` returned. -/
def Update.stores (u : Update) (now : UInt64) : List (MarketState → MarketState) :=
  (match u with
    | .bid price quantity =>
      [fun d => { d with bestBid := price }, fun d => { d with bidQuantity := quantity }]
    | .ask price quantity =>
      [fun d => { d with bestAsk := price }, fun d => { d with askQuantity := quantity }]
    | .trade price quantity =>
      [fun d => { d with lastTradedPrice := price }, fun d => { d with lastTradedQuantity := quantity }]
    | .quote bidPrice bidQty askPrice askQty =>
      [fun d => { d with bestBid := bidPrice }, fun d => { d with bidQuantity := bidQty },
        fun d => { d with bestAsk := askPrice }, fun d => { d with askQuantity := askQty }]) ++
  [fun d => { d with lastUpdateTime := now }, fun d => { d with updateCount := d.updateCount + 1 }]

/-- One `update_*` on a slot: `seq = sequence.load()`, `sequence.store(seq + 1)`, the stores to
`data`, `sequence.store(seq + 2)`. -/
def AtomicMarketState.write (state : AtomicMarketState) (stores : List (MarketState → MarketState)) :
    AtomicMarketState :=
  let seq := state.sequence
  let state := { state with sequence := seq + 1 }
  let state := stores.foldl (fun state store => { state with data := store state.data }) state
  { state with sequence := seq + 2 }

@[ext] structure SymbolCache where
  numSymbols : Nat
  states : List AtomicMarketState
  length_states : states.length = numSymbols

/-- `SymbolCache(num_symbols)`: every slot zero. -/
def SymbolCache.new (numSymbols : Nat) : SymbolCache :=
  ⟨numSymbols, List.replicate numSymbols .init, List.length_replicate _ _⟩

/-- The four writers: nothing for an unknown symbol, else one write of its slot. -/
def SymbolCache.update (c : SymbolCache) (symbolId : UInt16) (u : Update) (now : UInt64) :
    SymbolCache :=
  if c.numSymbols ≤ symbolId.toNat then c
  else
    { c with
      states := c.states.modify (fun state => state.write (u.stores now)) symbolId.toNat
      length_states := by rw [List.length_modify, c.length_states] }

def SymbolCache.updateBid (c : SymbolCache) (symbolId : UInt16) (price : Double)
    (quantity : UInt32) (now : UInt64) : SymbolCache :=
  c.update symbolId (.bid price quantity) now

def SymbolCache.updateAsk (c : SymbolCache) (symbolId : UInt16) (price : Double)
    (quantity : UInt32) (now : UInt64) : SymbolCache :=
  c.update symbolId (.ask price quantity) now

def SymbolCache.updateTrade (c : SymbolCache) (symbolId : UInt16) (price : Double)
    (quantity : UInt32) (now : UInt64) : SymbolCache :=
  c.update symbolId (.trade price quantity) now

def SymbolCache.updateQuote (c : SymbolCache) (symbolId : UInt16) (bidPrice : Double)
    (bidQty : UInt32) (askPrice : Double) (askQty : UInt32) (now : UInt64) : SymbolCache :=
  c.update symbolId (.quote bidPrice bidQty askPrice askQty) now

/-- `get_snapshot`: the zero state for an unknown symbol, else one pass of the seqlock loop.
With no other thread running, a pass that sees an odd counter would be retried forever, and
that is `none`. -/
def SymbolCache.getSnapshot (c : SymbolCache) (symbolId : UInt16) : Option MarketState :=
  if h : c.numSymbols ≤ symbolId.toNat then some .init
  else
    let state := c.states.get ⟨symbolId.toNat, by rw [c.length_states]; omega⟩
    let seq1 := state.sequence
    if seq1 &&& 1 ≠ 0 then none
    else
      let snapshot := state.data
      let seq2 := state.sequence
      if seq1 = seq2 then some snapshot else none

/-- `get_snapshots`: `get_snapshot` of each id, in order. -/
def SymbolCache.getSnapshots (c : SymbolCache) (symbolIds : List UInt16) :
    Option (List MarketState) :=
  symbolIds.mapM c.getSnapshot

def SymbolCache.getTotalUpdates (c : SymbolCache) : UInt64 :=
  c.states.foldl (fun total state => total + state.data.updateCount) 0

/-- One call of a writer: the symbol, the arguments, and the clock reading it takes. -/
structure Call where
  symbolId : UInt16
  update : Update
  now : UInt64

def SymbolCache.run (c : SymbolCache) (calls : List Call) : SymbolCache :=
  calls.foldl (fun c call => c.update call.symbolId call.update call.now) c

/-! ## What a write does -/

private theorem foldl_stores_data (state : AtomicMarketState) (stores : List (MarketState → MarketState)) :
    (stores.foldl (fun state store => { state with data := store state.data }) state) =
      { state with data := stores.foldl (fun d store => store d) state.data } := by
  induction stores generalizing state with
  | nil => rfl
  | cons store stores ih => exact ih _

/-- A write bumps the counter by two and applies the stores to the data. -/
theorem AtomicMarketState.write_eq (state : AtomicMarketState) (stores : List (MarketState → MarketState)) :
    state.write stores = ⟨state.sequence + 2, stores.foldl (fun d store => store d) state.data⟩ := by
  simp only [AtomicMarketState.write, foldl_stores_data]

/-- Every call counts itself once in `update_count`. -/
theorem Update.updateCount_stores (u : Update) (now : UInt64) (d : MarketState) :
    ((u.stores now).foldl (fun d store => store d) d).updateCount = d.updateCount + 1 := by
  cases u <;> rfl

theorem AtomicMarketState.updateCount_write (state : AtomicMarketState) (u : Update) (now : UInt64) :
    (state.write (u.stores now)).data.updateCount = state.data.updateCount + 1 := by
  rw [AtomicMarketState.write_eq, Update.updateCount_stores]

/-! ## The spec's reading of a run -/

/-- The price and quantity a call sets on the bid side, if it sets that side. -/
def Update.bidSide : Update → Option (Double × UInt32)
  | .bid price quantity => some (price, quantity)
  | .quote bidPrice bidQty _ _ => some (bidPrice, bidQty)
  | _ => none

def Update.askSide : Update → Option (Double × UInt32)
  | .ask price quantity => some (price, quantity)
  | .quote _ _ askPrice askQty => some (askPrice, askQty)
  | _ => none

def Update.tradeSide : Update → Option (Double × UInt32)
  | .trade price quantity => some (price, quantity)
  | _ => none

/-- The calls made to the symbol of index `i`. -/
def callsTo (calls : List Call) (i : Nat) : List Call :=
  calls.filter (·.symbolId.toNat == i)

/-- The arguments of the last of `calls` that sets a side, zero if none does. -/
def lastSide (side : Update → Option (Double × UInt32)) (calls : List Call) : Double × UInt32 :=
  ((calls.filterMap fun call => side call.update).getLast?).getD (⟨0⟩, 0)

/-- A symbol's state as the spec describes it after `calls`: each side holds the arguments of
the last call that set it, the time is that of the last call, and `update_count` counts the
calls. -/
def expectedState (calls : List Call) (i : Nat) : MarketState where
  bestBid := (lastSide Update.bidSide (callsTo calls i)).1
  bidQuantity := (lastSide Update.bidSide (callsTo calls i)).2
  bestAsk := (lastSide Update.askSide (callsTo calls i)).1
  askQuantity := (lastSide Update.askSide (callsTo calls i)).2
  lastTradedPrice := (lastSide Update.tradeSide (callsTo calls i)).1
  lastTradedQuantity := (lastSide Update.tradeSide (callsTo calls i)).2
  lastUpdateTime := (((callsTo calls i).getLast?).map (·.now)).getD 0
  updateCount := UInt64.ofNat (callsTo calls i).length

/-- The slot the spec expects: that state, under a counter at twice its `update_count`. -/
def expectedSlot (calls : List Call) (i : Nat) : AtomicMarketState :=
  ⟨2 * (expectedState calls i).updateCount, expectedState calls i⟩

theorem callsTo_append_ne (calls : List Call) (call : Call) {i : Nat}
    (h : call.symbolId.toNat ≠ i) : callsTo (calls ++ [call]) i = callsTo calls i := by
  simp [callsTo, List.filter_append, h]

theorem callsTo_append_self (calls : List Call) (call : Call) :
    callsTo (calls ++ [call]) call.symbolId.toNat = callsTo calls call.symbolId.toNat ++ [call] := by
  simp [callsTo, List.filter_append]

/-- **One write takes the expected slot to the expected slot of one more call.** -/
theorem expectedSlot_write (calls : List Call) (call : Call) :
    (expectedSlot calls call.symbolId.toNat).write (call.update.stores call.now) =
      expectedSlot (calls ++ [call]) call.symbolId.toNat := by
  rw [AtomicMarketState.write_eq]
  simp only [expectedSlot, expectedState, callsTo_append_self, lastSide, List.filterMap_append,
    List.getLast?_append, List.length_append, List.length_singleton, uint64_ofNat_succ]
  cases h : call.update <;>
    simp [Update.stores, h, Update.bidSide, Update.askSide, Update.tradeSide] <;> ring

theorem expectedSlot_append_ne (calls : List Call) (call : Call) {i : Nat}
    (h : call.symbolId.toNat ≠ i) : expectedSlot (calls ++ [call]) i = expectedSlot calls i := by
  simp only [expectedSlot, expectedState, callsTo_append_ne calls call h]

@[simp] theorem expectedSlot_nil (i : Nat) : expectedSlot [] i = .init := rfl

/-! ## Every run -/

@[simp] theorem SymbolCache.numSymbols_new (n : Nat) : (SymbolCache.new n).numSymbols = n := rfl

@[simp] theorem SymbolCache.numSymbols_update (c : SymbolCache) (symbolId : UInt16) (u : Update)
    (now : UInt64) : (c.update symbolId u now).numSymbols = c.numSymbols := by
  unfold SymbolCache.update
  split_ifs <;> rfl

@[simp] theorem SymbolCache.numSymbols_run (c : SymbolCache) (calls : List Call) :
    (c.run calls).numSymbols = c.numSymbols := by
  induction calls generalizing c with
  | nil => rfl
  | cons call calls ih => exact (ih _).trans (c.numSymbols_update _ _ _)

theorem SymbolCache.run_append (c : SymbolCache) (calls : List Call) (call : Call) :
    c.run (calls ++ [call]) = (c.run calls).update call.symbolId call.update call.now := by
  simp [SymbolCache.run, List.foldl_append]

/-- One call keeps the slots as the spec expects them. -/
theorem SymbolCache.update_states (c : SymbolCache) (calls : List Call) (call : Call)
    (h : c.states = (List.range c.numSymbols).map (expectedSlot calls)) :
    (c.update call.symbolId call.update call.now).states =
      (List.range c.numSymbols).map (expectedSlot (calls ++ [call])) := by
  unfold SymbolCache.update
  split_ifs with hn
  · rw [h]
    exact List.map_congr_left fun i hi =>
      (expectedSlot_append_ne calls call (by simp at hi; omega)).symm
  · apply List.ext_getElem (by simp [c.length_states])
    intro i h1 h2
    simp only [List.getElem_modify, h, List.getElem_map, List.getElem_range]
    split_ifs with hi
    · subst hi
      exact expectedSlot_write calls call
    · exact (expectedSlot_append_ne calls call hi).symm

/-- **The slots after any run**: the slot of index `i` is the one the spec expects. -/
theorem SymbolCache.run_states (n : Nat) (calls : List Call) :
    ((SymbolCache.new n).run calls).states = (List.range n).map (expectedSlot calls) := by
  induction calls using List.reverseRecOn with
  | nil =>
    show List.replicate n _ = List.map (fun _ => AtomicMarketState.init) (List.range n)
    rw [List.map_const', List.length_range]
  | append_singleton calls call ih =>
    rw [SymbolCache.run_append]
    have := SymbolCache.update_states _ calls call (by rw [ih, SymbolCache.numSymbols_run]; rfl)
    rwa [SymbolCache.numSymbols_run] at this

@[simp] theorem SymbolCache.run_getElem (n : Nat) (calls : List Call) (i : Nat)
    (h : i < ((SymbolCache.new n).run calls).states.length) :
    ((SymbolCache.new n).run calls).states[i] = expectedSlot calls i := by
  simp only [SymbolCache.run_states, List.getElem_map, List.getElem_range]

/-! ## Reads -/

theorem two_mul_ofNat (k : Nat) : 2 * UInt64.ofNat k = UInt64.ofNat (2 * k) := by
  change 2 * (k : UInt64) = ((2 * k : Nat) : UInt64)
  push_cast
  rfl

theorem ofNat_two_mul_and_one (k : Nat) : UInt64.ofNat (2 * k) &&& 1 = 0 := by
  apply UInt64.toNat.inj
  simp only [UInt64.and_toNat, uint64_toNat_ofNat, show (1 : UInt64).toNat = 1 from rfl,
    Nat.and_one_is_mod, UInt64.toNat_zero]
  omega

/-- `get_snapshot` after any run returns, with the state the spec expects. -/
theorem SymbolCache.getSnapshot_run (n : Nat) (calls : List Call) (symbolId : UInt16) :
    ((SymbolCache.new n).run calls).getSnapshot symbolId =
      some (if n ≤ symbolId.toNat then .init else expectedState calls symbolId.toNat) := by
  unfold SymbolCache.getSnapshot
  simp only [SymbolCache.numSymbols_run, SymbolCache.numSymbols_new]
  by_cases h : n ≤ symbolId.toNat
  · rw [dif_pos h, if_pos h]
  · rw [dif_neg h, if_neg h]
    simp [expectedSlot, expectedState, two_mul_ofNat, ofNat_two_mul_and_one]

private theorem mapM_some {α β : Type} (f : α → β) (l : List α) :
    l.mapM (fun a => some (f a)) = some (l.map f) := by
  induction l with
  | nil => rfl
  | cons a l ih =>
    rw [List.mapM_cons, ih]
    rfl

/-- The counter total over the slots grows by one with each call to a known symbol. -/
private theorem foldl_total_modify (l : List AtomicMarketState) (f : AtomicMarketState → AtomicMarketState)
    (hf : ∀ state, (f state).data.updateCount = state.data.updateCount + 1) (a : UInt64) (i : Nat)
    (hi : i < l.length) :
    (l.modify f i).foldl (fun total state => total + state.data.updateCount) a =
      l.foldl (fun total state => total + state.data.updateCount) a + 1 := by
  induction l generalizing a i with
  | nil => simp at hi
  | cons x l ih =>
    cases i with
    | zero =>
      simp only [List.modify_zero_cons, List.foldl_cons, hf]
      rw [← add_assoc, foldl_add_comm]
    | succ i =>
      simp only [List.modify_succ_cons, List.foldl_cons]
      exact ih _ i (by simpa using hi)
where
  foldl_add_comm (l : List AtomicMarketState) (a : UInt64) :
      l.foldl (fun total state => total + state.data.updateCount) (a + 1) =
        l.foldl (fun total state => total + state.data.updateCount) a + 1 := by
    induction l generalizing a with
    | nil => rfl
    | cons x l ih => simp only [List.foldl_cons, ← ih, add_right_comm]


theorem SymbolCache.getTotalUpdates_update (c : SymbolCache) (call : Call) :
    (c.update call.symbolId call.update call.now).getTotalUpdates =
      c.getTotalUpdates + if call.symbolId.toNat < c.numSymbols then 1 else 0 := by
  unfold SymbolCache.update SymbolCache.getTotalUpdates
  split_ifs with h h'
  · omega
  · rw [add_zero]
  · exact foldl_total_modify _ _ (fun state => state.updateCount_write _ _) _ _
      (by rw [c.length_states]; omega)
  · omega

theorem SymbolCache.getTotalUpdates_run (n : Nat) (calls : List Call) :
    ((SymbolCache.new n).run calls).getTotalUpdates =
      UInt64.ofNat (calls.filter (·.symbolId.toNat < n)).length := by
  induction calls using List.reverseRecOn with
  | nil =>
    show (List.replicate n AtomicMarketState.init).foldl _ 0 = 0
    induction n with
    | zero => rfl
    | succ n ih =>
      rw [List.replicate_succ', List.foldl_append, ih]
      rfl
  | append_singleton calls call ih =>
    rw [SymbolCache.run_append, SymbolCache.getTotalUpdates_update, ih,
      SymbolCache.numSymbols_run, List.filter_append]
    by_cases h : call.symbolId.toNat < n <;>
      simp [h, uint64_ofNat_succ]

/-- Calls to unknown symbols change nothing: dropping them leaves every slot as it was. -/
theorem SymbolCache.run_filter_known (n : Nat) (calls : List Call) :
    (SymbolCache.new n).run (calls.filter (·.symbolId.toNat < n)) = (SymbolCache.new n).run calls := by
  ext1
  · simp
  · rw [SymbolCache.run_states, SymbolCache.run_states]
    refine List.map_congr_left fun i hi => ?_
    have hfilter : callsTo (calls.filter (·.symbolId.toNat < n)) i = callsTo calls i := by
      simp only [callsTo, List.filter_filter]
      congr 1
      funext call
      by_cases h : call.symbolId.toNat = i <;> simp_all
    simp only [expectedSlot, expectedState, hfilter]

/-- **The cache against the spec.** After any sequence of calls to the four writers on a cache
of `n` slots: `get_snapshot` returns the zero state for an unknown id and the state the spec
expects for a known one; `get_snapshots` returns those in order; every counter is twice its
slot's `update_count`; the calls to unknown ids change nothing; and `get_total_updates` counts
the calls to known ids. -/
theorem symbolCache_reference (n : Nat) (calls : List Call) :
    let c := (SymbolCache.new n).run calls
    (∀ symbolId : UInt16, c.getSnapshot symbolId =
        some (if n ≤ symbolId.toNat then .init else expectedState calls symbolId.toNat)) ∧
      (∀ symbolIds : List UInt16, c.getSnapshots symbolIds = some (symbolIds.map fun symbolId =>
        if n ≤ symbolId.toNat then .init else expectedState calls symbolId.toNat)) ∧
      (∀ i (h : i < c.states.length),
        (c.states.get ⟨i, h⟩).sequence = 2 * (c.states.get ⟨i, h⟩).data.updateCount) ∧
      (SymbolCache.new n).run (calls.filter (·.symbolId.toNat < n)) = c ∧
      c.getTotalUpdates = UInt64.ofNat (calls.filter (·.symbolId.toNat < n)).length :=
  ⟨SymbolCache.getSnapshot_run n calls,
    fun symbolIds => by
      rw [SymbolCache.getSnapshots, funext (SymbolCache.getSnapshot_run n calls)]
      exact mapM_some _ symbolIds,
    fun i h => by simp only [List.get_eq_getElem, SymbolCache.run_getElem]; rfl,
    SymbolCache.run_filter_known n calls,
    SymbolCache.getTotalUpdates_run n calls⟩

end FeedHandler.Cache

import FeedHandler.Cache.SymbolCache

/-! The symbol table of `ui::TerminalVisualizer`: `get_top_symbols` reads every slot of the
cache, keeps those ever updated, sorts them by `update_count`, most first, and keeps the first
`top_n_symbols_`. `std::sort` promises only a permutation in which no row has more updates than
one before it (`SortsByUpdates`); the order of rows with equal counts is unspecified, so the
model takes any such sort.

After any run of updates the rows are the symbols with the most updates, in order, as many as
fit (`getTopSymbols_run`). A row's id is its slot number as a `uint16_t`, and `get_snapshot`
takes a `uint16_t`, so a cache of more than 65536 slots shows slot `i mod 65536` in row `i`;
with at most 65536 slots no symbol is listed twice. -/

namespace FeedHandler.Visualizer
open Protocol Cache

/-- `ui::SymbolDisplayInfo`, without `last_price` and `change_percent`, which are computed in
`double` arithmetic. -/
structure SymbolDisplayInfo where
  symbolId : UInt16
  bid : Double
  ask : Double
  volume : UInt64
  updateCount : UInt64
  lastUpdateTime : UInt64
  deriving DecidableEq, Repr

/-- The row of `get_top_symbols` for slot `i` and its snapshot. -/
def SymbolDisplayInfo.ofState (i : Nat) (state : MarketState) : SymbolDisplayInfo :=
  { symbolId := UInt16.ofNat i
    bid := state.bestBid
    ask := state.bestAsk
    volume := state.lastTradedQuantity.toUInt64
    updateCount := state.updateCount
    lastUpdateTime := state.lastUpdateTime }

/-- The loop of `get_top_symbols` over the slots `is`: `get_snapshot(i)`, and the row pushed
unless the slot was never updated; `none` if a snapshot never returns. -/
def collectSymbols (cache : SymbolCache) : List Nat → Option (List SymbolDisplayInfo)
  | [] => some []
  | i :: is => do
    let state ← cache.getSnapshot (UInt16.ofNat i)
    let symbols ← collectSymbols cache is
    pure (if state.updateCount = 0 then symbols else SymbolDisplayInfo.ofState i state :: symbols)

/-- What `std::sort(symbols.begin(), symbols.end(), comp)` guarantees with `comp(a, b)` being
`a.update_count > b.update_count`. -/
def SortsByUpdates (sort : List SymbolDisplayInfo → List SymbolDisplayInfo) : Prop :=
  ∀ symbols, (sort symbols).Perm symbols ∧
    (sort symbols).Pairwise fun a b => b.updateCount ≤ a.updateCount

/-- `get_top_symbols()` with `top_n_symbols_ = topN`, `sort` doing the `std::sort`. -/
def getTopSymbols (sort : List SymbolDisplayInfo → List SymbolDisplayInfo) (cache : SymbolCache)
    (topN : Nat) : Option (List SymbolDisplayInfo) := do
  let symbols ← collectSymbols cache (List.range cache.numSymbols)
  let symbols := sort symbols
  pure (if symbols.length > topN then symbols.take topN else symbols)

/-! ## The rows after a run of updates -/

/-- The row the spec expects in place `i` after `calls`: slot `i mod 65536` as the calls left
it, if any call reached it. -/
def expectedRow (calls : List Call) (i : Nat) : Option SymbolDisplayInfo :=
  if (expectedState calls (i % 65536)).updateCount = 0 then none
  else some (.ofState i (expectedState calls (i % 65536)))

theorem collectSymbols_run (n : Nat) (calls : List Call) (is : List Nat) (h : ∀ i ∈ is, i < n) :
    collectSymbols ((SymbolCache.new n).run calls) is = some (is.filterMap (expectedRow calls)) := by
  induction is with
  | nil => rfl
  | cons i is ih =>
    have hi := h i (List.mem_cons_self _ _)
    rw [collectSymbols, SymbolCache.getSnapshot_run, uint16_toNat_ofNat,
      if_neg (by omega), ih fun j hj => h j (List.mem_cons_of_mem _ hj)]
    show some (if (expectedState calls (i % 65536)).updateCount = 0 then _ else _) = _
    simp only [expectedRow, List.filterMap_cons]
    split_ifs <;> rfl

theorem mem_filterMap_expectedRow {calls : List Call} {is : List Nat} {row : SymbolDisplayInfo}
    (h : row ∈ is.filterMap (expectedRow calls)) : ∃ i ∈ is, row.symbolId = UInt16.ofNat i := by
  obtain ⟨i, hi, hrow⟩ := List.mem_filterMap.mp h
  unfold expectedRow at hrow
  split_ifs at hrow
  cases hrow
  exact ⟨i, hi, rfl⟩

/-- Slots below 65536 are shown under distinct ids. -/
theorem nodup_filterMap_expectedRow (calls : List Call) {is : List Nat} (hnd : is.Nodup)
    (h : ∀ i ∈ is, i < 65536) : ((is.filterMap (expectedRow calls)).map (·.symbolId)).Nodup := by
  induction is with
  | nil => exact List.nodup_nil
  | cons i is ih =>
    obtain ⟨hi, hnd⟩ := List.nodup_cons.mp hnd
    have ih := ih hnd fun j hj => h j (List.mem_cons_of_mem _ hj)
    rw [List.filterMap_cons]
    unfold expectedRow
    split_ifs
    · exact ih
    · refine List.nodup_cons.mpr ⟨fun hmem => ?_, ih⟩
      obtain ⟨row, hrow, hid⟩ := List.mem_map.mp hmem
      obtain ⟨j, hj, hrj⟩ := mem_filterMap_expectedRow hrow
      have := congrArg UInt16.toNat (hrj.symm.trans hid)
      simp only [SymbolDisplayInfo.ofState, uint16_toNat_ofNat] at this
      have := h i (List.mem_cons_self _ _)
      have := h j (List.mem_cons_of_mem _ hj)
      exact hi (by rwa [show j = i by omega] at hj)

/-- What the sort and the truncation leave: the first `topN` rows of the sorted list, each with
at least as many updates as every row dropped. -/
theorem take_sorted {sort : List SymbolDisplayInfo → List SymbolDisplayInfo}
    (hsort : SortsByUpdates sort) (symbols : List SymbolDisplayInfo) (topN : Nat) :
    ((sort symbols).take topN ++ (sort symbols).drop topN).Perm symbols ∧
      ((sort symbols).take topN).length = min topN symbols.length ∧
      ((sort symbols).take topN).Pairwise (fun a b => b.updateCount ≤ a.updateCount) ∧
      ∀ r ∈ (sort symbols).take topN, ∀ x ∈ (sort symbols).drop topN,
        x.updateCount ≤ r.updateCount := by
  obtain ⟨hperm, hsorted⟩ := hsort symbols
  rw [← List.take_append_drop topN (sort symbols)] at hsorted
  obtain ⟨htake, -, hcross⟩ := List.pairwise_append.mp hsorted
  refine ⟨by rw [List.take_append_drop]; exact hperm, ?_, htake, hcross⟩
  rw [List.length_take, hperm.length_eq]

/-- **The symbol table after any run of updates.** On a cache of `n` slots after any calls,
for any sort that keeps the promise of `std::sort`, `get_top_symbols` returns rows that, with
the rows it drops, are the updated slots; as many as `top_n_symbols_` or all of them, sorted by
update count, most first, each with at least as many updates as every row dropped. With at most
65536 slots no symbol is listed twice. -/
theorem getTopSymbols_run (sort : List SymbolDisplayInfo → List SymbolDisplayInfo)
    (hsort : SortsByUpdates sort) (n topN : Nat) (calls : List Call) :
    ∃ rows rest, getTopSymbols sort ((SymbolCache.new n).run calls) topN = some rows ∧
      (rows ++ rest).Perm ((List.range n).filterMap (expectedRow calls)) ∧
      rows.length = min topN ((List.range n).filterMap (expectedRow calls)).length ∧
      rows.Pairwise (fun a b => b.updateCount ≤ a.updateCount) ∧
      (∀ r ∈ rows, ∀ x ∈ rest, x.updateCount ≤ r.updateCount) ∧
      (n ≤ 65536 → (rows.map (·.symbolId)).Nodup) := by
  set symbols := (List.range n).filterMap (expectedRow calls)
  obtain ⟨hperm, hlen, hsorted, hcross⟩ := take_sorted hsort symbols topN
  have htrunc : (if (sort symbols).length > topN then (sort symbols).take topN else sort symbols) =
      (sort symbols).take topN := by
    split_ifs with h
    · rfl
    · exact (List.take_of_length_le (by omega)).symm
  refine ⟨_, _, ?_, hperm, hlen, hsorted, hcross, fun hn => ?_⟩
  · simp only [getTopSymbols, SymbolCache.numSymbols_run, SymbolCache.numSymbols_new,
      collectSymbols_run n calls _ fun i hi => List.mem_range.mp hi]
    exact congrArg some htrunc
  · have hnd := nodup_filterMap_expectedRow calls (List.nodup_range n)
      fun i hi => by have := List.mem_range.mp hi; omega
    exact ((hperm.map _).nodup_iff.mpr hnd).sublist ((List.sublist_append_left _ _).map _)

/-- Rows sorted by a stable merge on the update counts. -/
def byUpdates (symbols : List SymbolDisplayInfo) : List SymbolDisplayInfo :=
  symbols.mergeSort fun a b => b.updateCount ≤ a.updateCount

theorem sortsByUpdates_byUpdates : SortsByUpdates byUpdates := fun symbols =>
  ⟨List.mergeSort_perm _ _,
    (@List.sorted_mergeSort _ (fun a b => decide (b.updateCount ≤ a.updateCount))
      (fun _ _ _ hab hbc => decide_eq_true (UInt64.le_trans (of_decide_eq_true hbc) (of_decide_eq_true hab)))
      (fun _ _ => by simpa only [Bool.or_eq_true, decide_eq_true_eq] using UInt64.le_total _ _)
      symbols).imp of_decide_eq_true⟩

/-- Three slots, the third updated twice and the others once: two rows, under distinct ids. -/
theorem getTopSymbols_run_three :
    ∃ rows, getTopSymbols byUpdates ((SymbolCache.new 3).run
        [⟨0, .bid ⟨1⟩ 5, 1⟩, ⟨2, .trade ⟨2⟩ 7, 2⟩, ⟨2, .ask ⟨3⟩ 1, 3⟩, ⟨1, .ask ⟨4⟩ 2, 4⟩]) 2 =
      some rows ∧ rows.length = 2 ∧ (rows.map (·.symbolId)).Nodup := by
  obtain ⟨rows, -, hrows, -, hlen, -, -, hnd⟩ := getTopSymbols_run byUpdates sortsByUpdates_byUpdates 3 2
    [⟨0, .bid ⟨1⟩ 5, 1⟩, ⟨2, .trade ⟨2⟩ 7, 2⟩, ⟨2, .ask ⟨3⟩ 1, 3⟩, ⟨1, .ask ⟨4⟩ 2, 4⟩]
  exact ⟨rows, hrows, hlen.trans (by decide), hnd (by decide)⟩

end FeedHandler.Visualizer

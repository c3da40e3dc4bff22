import Mathlib.Data.List.Perm.Basic
import FeedHandler.Protocol

/-! `perf::LatencyTracker` as one thread sees it: the constructor, `record` with its
compare-and-swap loops run without interference, and `get_stats`. Every cell is a
`std::atomic<uint64_t>`, so sums wrap at `2^64`. A division by zero or an index past the
histogram is undefined behaviour in the source; here it is a fault (`none`).

`record` changes five cells. `LatencyTracker.apply` is what it does to one of them, and any two
such effects commute (`apply_right_comm`), so recording samples in any order gives the same
tracker (`foldlM_record_perm`). `FeedHandler.Perf.Recording` runs `record` as its atomic steps
under every interleaving of threads. -/

namespace FeedHandler.Perf
open Protocol
open scoped UInt64.CommRing

theorem uint64_lt_iff (a b : UInt64) : a < b ↔ a.toNat < b.toNat := Iff.rfl

theorem uint64_le_iff (a b : UInt64) : a ≤ b ↔ a.toNat ≤ b.toNat := Iff.rfl

theorem uint64_toNat_add (a b : UInt64) : (a + b).toNat = (a.toNat + b.toNat) % 2 ^ 64 := rfl

theorem uint64_toNat_sub (a b : UInt64) : (a - b).toNat = (2 ^ 64 - b.toNat + a.toNat) % 2 ^ 64 :=
  rfl

/-! ## The tracker -/

/-- The fields `record` and `get_stats` use. `max_latency_ns_` is only read by the
constructor, to size the histogram. -/
structure LatencyTracker where
  bucketSizeNs : UInt64
  histogram : List UInt64
  minLatency : UInt64
  maxLatency : UInt64
  totalSamples : UInt64
  totalLatency : UInt64
  deriving DecidableEq, Repr

/-- `LatencyTracker(bucket_size_ns, max_latency_ns)`. The bucket count is computed in
`size_t`, so it wraps to `0` when `max_latency_ns / bucket_size_ns` is the largest value. -/
def LatencyTracker.new (bucketSizeNs maxLatencyNs : UInt64) : Option LatencyTracker :=
  if bucketSizeNs = 0 then none
  else
    let numBuckets := maxLatencyNs / bucketSizeNs + 1
    -- `std::numeric_limits<uint64_t>::max()`
    some ⟨bucketSizeNs, List.replicate numBuckets.toNat 0, 18446744073709551615, 0, 0, 0⟩

/-- The bucket `record` increments: `latency_ns / bucket_size_ns_`, clamped to the last one in
`size_t` arithmetic, and checked against the histogram's bounds. -/
def LatencyTracker.bucket? (t : LatencyTracker) (latencyNs : UInt64) : Option Nat :=
  if t.bucketSizeNs = 0 then none
  else
    let bucketIndex := latencyNs / t.bucketSizeNs
    let size := UInt64.ofNat t.histogram.length
    let bucketIndex := if bucketIndex ≥ size then size - 1 else bucketIndex
    if bucketIndex.toNat < t.histogram.length then some bucketIndex.toNat else none

/-- `histogram_[bucket_index].fetch_add(1)`. -/
def LatencyTracker.fetchAddBucket (t : LatencyTracker) (latencyNs : UInt64) :
    Option (List UInt64) :=
  (t.bucket? latencyNs).map fun i => t.histogram.modify (· + 1) i

/-- The value a `min_latency_` loop leaves: it stores the sample while the sample is below. -/
def lowerMin (current latencyNs : UInt64) : UInt64 :=
  if latencyNs < current then latencyNs else current

/-- The value a `max_latency_` loop leaves. -/
def raiseMax (current latencyNs : UInt64) : UInt64 :=
  if latencyNs > current then latencyNs else current

/-- `record(latency_ns)` with no other thread running: each compare-and-swap succeeds at its
first try, or is not tried. -/
def LatencyTracker.record (t : LatencyTracker) (latencyNs : UInt64) : Option LatencyTracker :=
  (t.fetchAddBucket latencyNs).map fun histogram =>
    { t with
      minLatency := lowerMin t.minLatency latencyNs
      maxLatency := raiseMax t.maxLatency latencyNs
      histogram
      totalSamples := t.totalSamples + 1
      totalLatency := t.totalLatency + latencyNs }

/-- `reset()`: every bucket, and every counter, back to its constructor value. -/
def LatencyTracker.reset (t : LatencyTracker) : LatencyTracker :=
  { t with
    histogram := t.histogram.map fun _ => 0
    minLatency := 18446744073709551615
    maxLatency := 0
    totalSamples := 0
    totalLatency := 0 }

/-! ## `get_stats` -/

structure LatencyStats where
  minNs : UInt64
  maxNs : UInt64
  meanNs : UInt64
  p50Ns : UInt64
  p95Ns : UInt64
  p99Ns : UInt64
  p999Ns : UInt64
  sampleCount : UInt64
  deriving DecidableEq, Repr

def LatencyStats.init : LatencyStats := ⟨0, 0, 0, 0, 0, 0, 0, 0⟩

/-- The locals of the percentile loop. `found_p999` is not kept: setting it breaks the loop. -/
structure PercentileScan where
  stats : LatencyStats
  cumulative : UInt64
  foundP50 : Bool
  foundP95 : Bool
  foundP99 : Bool

/-- The loop of `get_stats` over the buckets, from bucket `i`. -/
def scanBuckets (bucketSizeNs p50Target p95Target p99Target p999Target : UInt64) :
    PercentileScan → Nat → List UInt64 → LatencyStats
  | s, _, [] => s.stats
  | s, i, count :: rest =>
    let cumulative := s.cumulative + count
    let bucketNs := UInt64.ofNat i * bucketSizeNs
    let s := { s with cumulative }
    let s := if !s.foundP50 && cumulative ≥ p50Target then
      { s with stats := { s.stats with p50Ns := bucketNs }, foundP50 := true } else s
    let s := if !s.foundP95 && cumulative ≥ p95Target then
      { s with stats := { s.stats with p95Ns := bucketNs }, foundP95 := true } else s
    let s := if !s.foundP99 && cumulative ≥ p99Target then
      { s with stats := { s.stats with p99Ns := bucketNs }, foundP99 := true } else s
    if cumulative ≥ p999Target then { s.stats with p999Ns := bucketNs }
    else scanBuckets bucketSizeNs p50Target p95Target p99Target p999Target s (i + 1) rest

def LatencyTracker.getStats (t : LatencyTracker) : LatencyStats :=
  let sampleCount := t.totalSamples
  if sampleCount = 0 then .init
  else
    let stats := { LatencyStats.init with
      sampleCount, minNs := t.minLatency, maxNs := t.maxLatency
      meanNs := t.totalLatency / sampleCount }
    scanBuckets t.bucketSizeNs (sampleCount * 50 / 100) (sampleCount * 95 / 100)
      (sampleCount * 99 / 100) (sampleCount * 999 / 1000) ⟨stats, 0, false, false, false⟩ 0
      t.histogram

/-! ## What `record` does to each cell -/

/-- The cells `record` writes, in the order it writes them. -/
inductive Cell
  | minLatency | maxLatency | histogram | totalSamples | totalLatency
  deriving DecidableEq, Repr

def Cell.all : List Cell := [.minLatency, .maxLatency, .histogram, .totalSamples, .totalLatency]

/-- The effect of one sample on one cell. A histogram increment that would fault is not an
effect any run makes; it is left out here so that `apply` is total. -/
def LatencyTracker.apply (t : LatencyTracker) : Cell → UInt64 → LatencyTracker
  | .minLatency, v => { t with minLatency := lowerMin t.minLatency v }
  | .maxLatency, v => { t with maxLatency := raiseMax t.maxLatency v }
  | .histogram, v => { t with histogram := (t.bucket? v).elim t.histogram (t.histogram.modify (· + 1)) }
  | .totalSamples, _ => { t with totalSamples := t.totalSamples + 1 }
  | .totalLatency, v => { t with totalLatency := t.totalLatency + v }

theorem apply_histogram (t : LatencyTracker) (v : UInt64) : t.apply .histogram v =
    { t with histogram := (t.bucket? v).elim t.histogram (t.histogram.modify (· + 1)) } := rfl

/-- Each sample's five effects, one list for a list of samples. -/
def recordEffects (samples : List UInt64) : List (Cell × UInt64) :=
  samples.flatMap fun v => Cell.all.map (·, v)

def applyAll (t : LatencyTracker) (es : List (Cell × UInt64)) : LatencyTracker :=
  es.foldl (fun t e => t.apply e.1 e.2) t

@[simp] theorem recordEffects_nil : recordEffects [] = [] := rfl

theorem recordEffects_append (l₁ l₂ : List UInt64) : recordEffects (l₁ ++ l₂) = recordEffects l₁ ++ recordEffects l₂ :=
  List.flatMap_append ..

@[simp] theorem applyAll_nil (t : LatencyTracker) : applyAll t [] = t := rfl

theorem applyAll_append (t : LatencyTracker) (es₁ es₂ : List (Cell × UInt64)) :
    applyAll t (es₁ ++ es₂) = applyAll (applyAll t es₁) es₂ :=
  List.foldl_append ..

@[simp] theorem applyAll_singleton (t : LatencyTracker) (c : Cell) (v : UInt64) :
    applyAll t [(c, v)] = t.apply c v := rfl

@[simp] theorem bucketSizeNs_apply (t : LatencyTracker) (c : Cell) (v : UInt64) :
    (t.apply c v).bucketSizeNs = t.bucketSizeNs := by
  cases c <;> rfl

@[simp] theorem length_histogram_apply (t : LatencyTracker) (c : Cell) (v : UInt64) :
    (t.apply c v).histogram.length = t.histogram.length := by
  cases c <;> simp only [LatencyTracker.apply]
  cases t.bucket? v <;> simp

/-- The bucket of a sample depends only on the bucket size and the bucket count. -/
theorem bucket?_congr {t t' : LatencyTracker} (hb : t'.bucketSizeNs = t.bucketSizeNs)
    (hl : t'.histogram.length = t.histogram.length) : t'.bucket? = t.bucket? := by
  funext v
  simp only [LatencyTracker.bucket?, hb, hl]

@[simp] theorem bucket?_apply (t : LatencyTracker) (c : Cell) (v : UInt64) :
    (t.apply c v).bucket? = t.bucket? :=
  bucket?_congr (bucketSizeNs_apply t c v) (length_histogram_apply t c v)

@[simp] theorem bucket?_applyAll (t : LatencyTracker) (es : List (Cell × UInt64)) :
    (applyAll t es).bucket? = t.bucket? := by
  induction es generalizing t with
  | nil => rfl
  | cons e es ih => exact (ih _).trans (bucket?_apply ..)

theorem lowerMin_right_comm (m a b : UInt64) :
    lowerMin (lowerMin m a) b = lowerMin (lowerMin m b) a := by
  simp only [lowerMin, uint64_lt_iff]
  split_ifs <;> first | rfl | (apply UInt64.toNat.inj; omega)

theorem raiseMax_right_comm (m a b : UInt64) :
    raiseMax (raiseMax m a) b = raiseMax (raiseMax m b) a := by
  simp only [raiseMax, gt_iff_lt, uint64_lt_iff]
  split_ifs <;> first | rfl | (apply UInt64.toNat.inj; omega)

theorem modify_succ_comm (l : List UInt64) (i j : Nat) :
    (l.modify (· + 1) i).modify (· + 1) j = (l.modify (· + 1) j).modify (· + 1) i := by
  by_cases h : i = j
  · rw [h]
  · exact List.modify_modify_ne _ _ _ h

/-- **Any two effects commute.** -/
theorem apply_right_comm (t : LatencyTracker) (c c' : Cell) (v v' : UInt64) :
    (t.apply c v).apply c' v' = (t.apply c' v').apply c v := by
  cases c <;> cases c'
  case minLatency.minLatency => simp only [LatencyTracker.apply, lowerMin_right_comm]
  case maxLatency.maxLatency => simp only [LatencyTracker.apply, raiseMax_right_comm]
  case histogram.histogram =>
    have twice : ∀ a b, (t.apply .histogram a).apply .histogram b = { t with
        histogram := (t.bucket? b).elim ((t.bucket? a).elim t.histogram (t.histogram.modify (· + 1)))
          (((t.bucket? a).elim t.histogram (t.histogram.modify (· + 1))).modify (· + 1)) } := by
      intro a b
      rw [apply_histogram (t.apply .histogram a), bucket?_apply]
      rfl
    rw [twice, twice]
    cases t.bucket? v <;> cases t.bucket? v' <;> simp [modify_succ_comm]
  case totalLatency.totalLatency => simp only [LatencyTracker.apply, add_right_comm]
  all_goals rfl

theorem applyAll_perm {es₁ es₂ : List (Cell × UInt64)} (h : es₁.Perm es₂) (t : LatencyTracker) :
    applyAll t es₁ = applyAll t es₂ :=
  h.foldl_eq' (fun e _ e' _ t => apply_right_comm t e.1 e'.1 e.2 e'.2) t

/-- A sample `record` accepts: its bucket is inside the histogram. -/
def LatencyTracker.Accepts (t : LatencyTracker) (v : UInt64) : Prop := (t.bucket? v).isSome

instance (t : LatencyTracker) (v : UInt64) : Decidable (t.Accepts v) :=
  inferInstanceAs (Decidable ((t.bucket? v).isSome = true))

/-- `record` is its five effects, or a fault. -/
theorem record_eq (t : LatencyTracker) (v : UInt64) :
    t.record v = if t.Accepts v then some (applyAll t (recordEffects [v])) else none := by
  unfold LatencyTracker.record LatencyTracker.fetchAddBucket LatencyTracker.Accepts
  rcases Option.eq_none_or_eq_some (t.bucket? v) with h | ⟨i, h⟩
  · simp [h]
  · have hb : ((t.apply .minLatency v).apply .maxLatency v).bucket? v = some i := by simp [h]
    simp only [h, hb, Option.map_some', Option.isSome_some, if_true, recordEffects, Cell.all, applyAll,
      List.flatMap_cons, List.flatMap_nil, List.map_cons, List.map_nil, List.cons_append,
      List.nil_append, List.append_nil, List.foldl_cons, List.foldl_nil, apply_histogram]
    rfl

/-- Recording samples one after another: all five effects of every sample, unless one of them
faults. -/
theorem foldlM_record (t : LatencyTracker) (samples : List UInt64) :
    samples.foldlM LatencyTracker.record t =
      if ∀ v ∈ samples, t.Accepts v then some (applyAll t (recordEffects samples)) else none := by
  induction samples generalizing t with
  | nil => simp
  | cons v samples ih =>
    rw [List.foldlM_cons, record_eq]
    by_cases hv : t.Accepts v
    · rw [if_pos hv]
      change List.foldlM _ (applyAll t (recordEffects [v])) samples = _
      rw [ih, show v :: samples = [v] ++ samples from rfl, recordEffects_append, applyAll_append]
      simp only [LatencyTracker.Accepts] at hv ⊢
      simp only [bucket?_applyAll, List.singleton_append, List.forall_mem_cons, hv, true_and]
    · simp [hv]

theorem bucket?_lt {t : LatencyTracker} {v : UInt64} {i : Nat} (h : t.bucket? v = some i) :
    i < t.histogram.length := by
  simp only [LatencyTracker.bucket?] at h
  split_ifs at h <;> (cases h; assumption)

theorem sum_modify_succ (l : List UInt64) {i : Nat} (h : i < l.length) :
    (l.modify (· + 1) i).sum = l.sum + 1 := by
  induction l generalizing i with
  | nil => cases h
  | cons a l ih =>
    cases i with
    | zero => simp only [List.modify_zero_cons, List.sum_cons, add_right_comm]
    | succ i =>
      rw [List.modify_succ_cons, List.sum_cons, List.sum_cons, ih (by simpa using h), add_assoc]

/-- One `record` call, cell by cell: every histogram increment adds one to the histogram's sum. -/
theorem record_cells {t t' : LatencyTracker} {v : UInt64} (h : t.record v = some t') :
    t'.minLatency = lowerMin t.minLatency v ∧ t'.maxLatency = raiseMax t.maxLatency v ∧
      t'.totalSamples = t.totalSamples + 1 ∧ t'.totalLatency = t.totalLatency + v ∧
      t'.histogram.sum = t.histogram.sum + 1 := by
  obtain ⟨histogram, hh, rfl⟩ := Option.map_eq_some'.mp h
  obtain ⟨i, hi, rfl⟩ := Option.map_eq_some'.mp hh
  exact ⟨rfl, rfl, rfl, rfl, sum_modify_succ _ (bucket?_lt hi)⟩

theorem lowerMin_le (m v : UInt64) : lowerMin m v ≤ v ∧ lowerMin m v ≤ m ∧
    (lowerMin m v = m ∨ lowerMin m v = v) := by
  unfold lowerMin
  split_ifs with h
  · exact ⟨Nat.le_refl _, Nat.le_of_lt h, .inr rfl⟩
  · exact ⟨Nat.le_of_not_lt h, Nat.le_refl _, .inl rfl⟩

theorem le_raiseMax (m v : UInt64) : v ≤ raiseMax m v ∧ m ≤ raiseMax m v ∧
    (raiseMax m v = m ∨ raiseMax m v = v) := by
  unfold raiseMax
  split_ifs with h
  · exact ⟨Nat.le_refl _, Nat.le_of_lt h, .inr rfl⟩
  · exact ⟨Nat.le_of_not_lt h, Nat.le_refl _, .inl rfl⟩

/-- A cell that each `record` moves to one of its value and the sample, below both in an order
`r`, ends below every sample and its first value, and is one of them. -/
theorem foldlM_record_extremum (cell : LatencyTracker → UInt64) (r : UInt64 → UInt64 → Prop)
    (htrans : ∀ a b c, r a b → r b c → r a c) (hrefl : ∀ a, r a a)
    (hstep : ∀ t t' v, t.record v = some t' →
      r (cell t') v ∧ r (cell t') (cell t) ∧ (cell t' = cell t ∨ cell t' = v))
    {t t' : LatencyTracker} {samples : List UInt64}
    (h : samples.foldlM LatencyTracker.record t = some t') :
    (∀ v ∈ samples, r (cell t') v) ∧ r (cell t') (cell t) ∧
      (cell t' = cell t ∨ cell t' ∈ samples) := by
  induction samples generalizing t with
  | nil =>
    cases h
    exact ⟨fun _ h => (List.not_mem_nil _ h).elim, hrefl _, .inl rfl⟩
  | cons v samples ih =>
    obtain ⟨t₁, h₁, h⟩ := Option.bind_eq_some.mp h
    obtain ⟨hle, hcell, hmem⟩ := ih h
    obtain ⟨hv, hle₁, heq₁⟩ := hstep t t₁ v h₁
    refine ⟨?_, htrans _ _ _ hcell hle₁, ?_⟩
    · intro w hw
      rcases List.mem_cons.mp hw with rfl | hw
      · exact htrans _ _ _ hcell hv
      · exact hle w hw
    · rcases hmem with hmem | hmem
      · rcases heq₁ with heq₁ | heq₁
        · exact .inl (hmem.trans heq₁)
        · exact .inr (hmem.trans heq₁ ▸ List.mem_cons_self _ _)
      · exact .inr (List.mem_cons_of_mem _ hmem)

/-- **What sequential recording leaves.** The minimum is at most every sample and the first
minimum, and is one of them; the maximum likewise; the counters grow by the number and the sum
of the samples, modulo `2^64`; and the histogram's sum grows as `total_samples_` does. -/
theorem foldlM_record_cells {t t' : LatencyTracker} {samples : List UInt64}
    (h : samples.foldlM LatencyTracker.record t = some t') :
    ((∀ v ∈ samples, t'.minLatency ≤ v) ∧ t'.minLatency ≤ t.minLatency ∧
      (t'.minLatency = t.minLatency ∨ t'.minLatency ∈ samples)) ∧
    ((∀ v ∈ samples, v ≤ t'.maxLatency) ∧ t.maxLatency ≤ t'.maxLatency ∧
      (t'.maxLatency = t.maxLatency ∨ t'.maxLatency ∈ samples)) ∧
    t'.totalSamples = t.totalSamples + UInt64.ofNat samples.length ∧
    t'.totalLatency = t.totalLatency + samples.sum ∧
    t'.histogram.sum - t'.totalSamples = t.histogram.sum - t.totalSamples := by
  refine ⟨foldlM_record_extremum LatencyTracker.minLatency (· ≤ ·)
      (fun _ _ _ => Nat.le_trans) (fun _ => Nat.le_refl _)
      (fun t t' v h => (record_cells h).1 ▸ lowerMin_le _ _) h,
    foldlM_record_extremum LatencyTracker.maxLatency (fun a b => b ≤ a)
      (fun _ _ _ hab hbc => Nat.le_trans hbc hab) (fun _ => Nat.le_refl _)
      (fun t t' v h => (record_cells h).2.1 ▸ le_raiseMax _ _) h, ?_⟩
  induction samples generalizing t with
  | nil =>
    cases h
    simp
  | cons v samples ih =>
    obtain ⟨t₁, h₁, h⟩ := Option.bind_eq_some.mp h
    obtain ⟨hs, hl, hh⟩ := ih h
    obtain ⟨-, -, hs₁, hl₁, hh₁⟩ := record_cells h₁
    refine ⟨?_, ?_, ?_⟩
    · rw [hs, hs₁, List.length_cons, uint64_ofNat_succ]
      ring
    · rw [hl, hl₁, List.sum_cons]
      ring
    · rw [hh, hh₁, hs₁]
      ring

/-- **Recording order does not matter.** -/
theorem foldlM_record_perm (t : LatencyTracker) {l₁ l₂ : List UInt64} (h : l₁.Perm l₂) :
    l₁.foldlM LatencyTracker.record t = l₂.foldlM LatencyTracker.record t := by
  have he : (recordEffects l₁).Perm (recordEffects l₂) := h.flatMap_right _
  simp only [foldlM_record, h.mem_iff, applyAll_perm he]

/-! ## Trackers from the constructor -/

/-- A sample has a bucket exactly when the histogram has one: the index is clamped to the last
bucket, and with none the clamp wraps. -/
theorem LatencyTracker.bucket?_isSome_iff (t : LatencyTracker) (hb : t.bucketSizeNs ≠ 0)
    (hlen : t.histogram.length < 2 ^ 64) (v : UInt64) :
    (t.bucket? v).isSome ↔ t.histogram.length ≠ 0 := by
  have hsize : (UInt64.ofNat t.histogram.length).toNat = t.histogram.length := by
    rw [uint64_toNat_ofNat]
    exact Nat.mod_eq_of_lt hlen
  simp only [LatencyTracker.bucket?, hb, if_false, ge_iff_le]
  by_cases h1 : UInt64.ofNat t.histogram.length ≤ v / t.bucketSizeNs
  · have hlast : (UInt64.ofNat t.histogram.length - 1).toNat =
        (2 ^ 64 - 1 + t.histogram.length) % 2 ^ 64 := by
      rw [uint64_toNat_sub, hsize]
      rfl
    simp only [if_pos h1, hlast]
    split_ifs
    · simp only [Option.isSome_some, true_iff]
      omega
    · simp only [Option.isSome_none, Bool.false_eq_true, false_iff, not_not]
      omega
  · have h2 : (v / t.bucketSizeNs).toNat < t.histogram.length := by
      rw [uint64_le_iff, hsize, not_le] at h1
      exact h1
    simp only [if_neg h1, if_pos h2, Option.isSome_some, true_iff]
    omega

/-- A tracker from the constructor has a bucket for every sample, unless its bucket count
`max_latency_ns / bucket_size_ns + 1` wrapped to `0`. -/
theorem LatencyTracker.accepts_of_new {b m : UInt64} {t : LatencyTracker}
    (ht : LatencyTracker.new b m = some t) (v : UInt64) :
    t.Accepts v ↔ m / b ≠ 18446744073709551615 := by
  unfold LatencyTracker.new at ht
  split_ifs at ht with hb
  cases ht
  have hlen : (m / b + 1).toNat < 2 ^ 64 := (m / b + 1).toNat_lt_size
  rw [LatencyTracker.Accepts, LatencyTracker.bucket?_isSome_iff _ hb (by simpa using hlen),
    List.length_replicate, ne_eq, ne_eq, not_iff_not, uint64_toNat_add]
  have hq : (m / b).toNat < 2 ^ 64 := (m / b).toNat_lt_size
  constructor
  · intro h
    exact UInt64.toNat.inj (show (m / b).toNat = 2 ^ 64 - 1 by
      simp only [show (1 : UInt64).toNat = 1 from rfl] at h; omega)
  · intro h
    rw [h]
    rfl

/-- **Recording on a constructed tracker never indexes past its histogram**, unless the bucket
count wrapped: for `max_latency_ns / bucket_size_ns = 2^64 - 1` the histogram is empty and the
first sample already faults. -/
theorem foldlM_record_isSome_iff {b m : UInt64} {t : LatencyTracker}
    (ht : LatencyTracker.new b m = some t) (samples : List UInt64) (hne : samples ≠ []) :
    (samples.foldlM LatencyTracker.record t).isSome ↔ m / b ≠ 18446744073709551615 := by
  obtain ⟨v, hv⟩ := List.exists_mem_of_ne_nil samples hne
  rw [foldlM_record]
  split_ifs with h
  · simp only [Option.isSome_some, true_iff]
    exact (LatencyTracker.accepts_of_new ht v).mp (h v hv)
  · simp only [Option.isSome_none, Bool.false_eq_true, false_iff, not_not]
    by_contra hm
    exact h fun w _ => (LatencyTracker.accepts_of_new ht w).mpr hm

theorem foldlM_record_wrapped :
    LatencyTracker.new 1 18446744073709551615 = some ⟨1, [], 18446744073709551615, 0, 0, 0⟩ ∧
      ([5].foldlM LatencyTracker.record ⟨1, [], 18446744073709551615, 0, 0, 0⟩).isSome = false :=
  have ht : LatencyTracker.new 1 18446744073709551615 =
      some ⟨1, [], 18446744073709551615, 0, 0, 0⟩ := by decide
  ⟨ht, by simpa using (foldlM_record_isSome_iff ht [5] (by decide)).not.mpr (by decide)⟩

end FeedHandler.Perf

import Mathlib.Data.List.GetD
import FeedHandler.Perf.LatencyTracker

/-! What `get_stats` reports after samples are recorded one after another into a constructed
or reset tracker. The histogram then holds, for each bucket, the number of samples `record`
put there (`foldlM_record_histogram`). The percentile loop reports, for each target, the first
bucket whose running count reaches it (`scanBuckets_eq`), and with the samples sorted that is the
bucket of the sample whose rank is the target (`firstReach_counts`). The targets are
`sample_count * 50 / 100` and so on, rounded down: a target of `0` is reached by bucket `0`
whether or not it holds a sample. -/

namespace FeedHandler.Perf
open Protocol
open scoped UInt64.CommRing

/-! ## The bucket of a sample -/

/-- `b(v)`: the bucket `record` increments for a sample, `latency_ns / bucket_size_ns_` clamped
to the last bucket. -/
def LatencyTracker.bucketOf (t : LatencyTracker) (v : UInt64) : Nat :=
  min (v / t.bucketSizeNs).toNat (t.histogram.length - 1)

theorem LatencyTracker.bucket?_eq (t : LatencyTracker) (hb : t.bucketSizeNs ≠ 0)
    (h0 : t.histogram.length ≠ 0) (hlen : t.histogram.length < 2 ^ 64) (v : UInt64) :
    t.bucket? v = some (t.bucketOf v) := by
  have hsize := UInt64.toNat_ofNat_of_lt hlen
  simp only [LatencyTracker.bucket?, hb, if_false, ge_iff_le, LatencyTracker.bucketOf]
  by_cases h1 : UInt64.ofNat t.histogram.length ≤ v / t.bucketSizeNs
  · have h1' : t.histogram.length ≤ (v / t.bucketSizeNs).toNat := hsize ▸ h1
    have hlast : (UInt64.ofNat t.histogram.length - 1).toNat = t.histogram.length - 1 := by
      have h1L : (1 : UInt64) ≤ UInt64.ofNat t.histogram.length :=
        show (1 : UInt64).toNat ≤ (UInt64.ofNat t.histogram.length).toNat by
          rw [hsize, show (1 : UInt64).toNat = 1 from rfl]; omega
      rw [UInt64.toNat_sub_of_le _ _ h1L, hsize]
      rfl
    rw [if_pos h1, hlast, if_pos (by omega), Nat.min_eq_right (by omega)]
  · have h1' : (v / t.bucketSizeNs).toNat < t.histogram.length := by
      rw [uint64_le_iff, hsize] at h1
      omega
    rw [if_neg h1, if_pos h1', Nat.min_eq_left (by omega)]

theorem LatencyTracker.bucketOf_le (t : LatencyTracker) (v : UInt64) :
    t.bucketOf v ≤ t.histogram.length - 1 :=
  Nat.min_le_right _ _

theorem LatencyTracker.bucketOf_mono (t : LatencyTracker) {v w : UInt64} (h : v ≤ w) :
    t.bucketOf v ≤ t.bucketOf w := by
  unfold LatencyTracker.bucketOf
  rw [UInt64.toNat_div, UInt64.toNat_div]
  exact min_le_min_right _ (Nat.div_le_div_right h)

/-! ## The histogram after recording -/

theorem LatencyTracker.record_histogram {t t' : LatencyTracker} {v : UInt64}
    (h : t.record v = some t') :
    ∃ i, t.bucket? v = some i ∧ t'.histogram = t.histogram.modify (· + 1) i ∧
      t'.bucketSizeNs = t.bucketSizeNs := by
  obtain ⟨histogram, hh, rfl⟩ := Option.map_eq_some'.mp h
  obtain ⟨i, hi, rfl⟩ := Option.map_eq_some'.mp hh
  exact ⟨i, hi, rfl, rfl⟩

/-- **The histogram after sequential recording**: each bucket grows by the number of samples
whose bucket it is. -/
theorem foldlM_record_histogram {t t' : LatencyTracker} {samples : List UInt64}
    (hb : ∀ v, t.bucket? v = some (t.bucketOf v))
    (h : samples.foldlM LatencyTracker.record t = some t') :
    t'.bucketSizeNs = t.bucketSizeNs ∧
      t'.histogram = (List.range t.histogram.length).map fun j =>
        t.histogram.getD j 0 + UInt64.ofNat (samples.countP (t.bucketOf · = j)) := by
  induction samples generalizing t with
  | nil =>
    cases h
    refine ⟨rfl, List.ext_getElem (by simp) fun j h₁ h₂ => ?_⟩
    simp [List.getD_eq_getElem?_getD, List.getElem?_eq_getElem h₁]
  | cons v samples ih =>
    obtain ⟨t₁, h₁, h⟩ := Option.bind_eq_some.mp h
    obtain ⟨i, hi, hh, hbs⟩ := LatencyTracker.record_histogram h₁
    rw [hb v, Option.some_inj] at hi
    have hlen : t₁.histogram.length = t.histogram.length := by rw [hh, List.length_modify]
    have hof : t₁.bucketOf = t.bucketOf := by
      funext w
      simp only [LatencyTracker.bucketOf, hbs, hlen]
    have hb₁ : ∀ w, t₁.bucket? w = some (t₁.bucketOf w) := by
      intro w
      rw [bucket?_congr hbs hlen, hb w, hof]
    obtain ⟨hbs', hh'⟩ := ih hb₁ h
    refine ⟨hbs'.trans hbs, ?_⟩
    rw [hh', hlen, hof]
    refine List.map_congr_left fun j hj => ?_
    have hj' : j < t.histogram.length := List.mem_range.mp hj
    rw [hh, List.getD_eq_getElem?_getD, List.getElem?_modify, List.getD_eq_getElem?_getD,
      List.getElem?_eq_getElem hj', List.countP_cons, uint64_ofNat_add, ← hi]
    by_cases hv : t.bucketOf v = j <;> simp [hv]
    ring

/-! ## The percentile loop -/

/-- The index of the first count at which the running sum of `counts` reaches `target`; the
length of `counts` if it never does. -/
def firstReach (target : Nat) : List Nat → Nat
  | [] => 0
  | c :: cs => if target ≤ c then 0 else firstReach (target - c) cs + 1

/-- The first reach is at or before `i` exactly when the first `i + 1` counts reach the
target. -/
theorem firstReach_le_iff (target : Nat) (counts : List Nat) {i : Nat} (hi : i < counts.length) :
    firstReach target counts ≤ i ↔ target ≤ (counts.take (i + 1)).sum := by
  induction counts generalizing target i with
  | nil => cases hi
  | cons c cs ih =>
    rw [firstReach, List.take_succ_cons, List.sum_cons]
    split_ifs with hc
    · exact ⟨fun _ => Nat.le_trans hc (Nat.le_add_right _ _), fun _ => Nat.zero_le _⟩
    · cases i with
      | zero => simp only [List.take_zero, List.sum_nil]; omega
      | succ i =>
        rw [Nat.add_le_add_iff_right, ih _ (by simpa using hi)]
        omega

/-- The three percentiles the loop finds before its last. -/
inductive Pct
  | p50 | p95 | p99
  deriving DecidableEq, Repr

def Pct.found : Pct → PercentileScan → Bool
  | .p50, s => s.foundP50
  | .p95, s => s.foundP95
  | .p99, s => s.foundP99

def Pct.get : Pct → LatencyStats → UInt64
  | .p50, st => st.p50Ns
  | .p95, st => st.p95Ns
  | .p99, st => st.p99Ns

def Pct.target (p50Target p95Target p99Target : UInt64) : Pct → UInt64
  | .p50 => p50Target
  | .p95 => p95Target
  | .p99 => p99Target

/-- The stats with the four percentiles replaced. -/
def LatencyStats.withPercentiles (st : LatencyStats) (f : Pct → UInt64) (p999 : UInt64) :
    LatencyStats :=
  { st with p50Ns := f .p50, p95Ns := f .p95, p99Ns := f .p99, p999Ns := p999 }

/-- Record a percentile as found at bucket value `v`. -/
def Pct.set : Pct → PercentileScan → UInt64 → PercentileScan
  | .p50, s, v => { s with stats := { s.stats with p50Ns := v }, foundP50 := true }
  | .p95, s, v => { s with stats := { s.stats with p95Ns := v }, foundP95 := true }
  | .p99, s, v => { s with stats := { s.stats with p99Ns := v }, foundP99 := true }

/-- One of the loop's first three checks: a percentile not found yet is found at this bucket
once the running count reaches its target. -/
def PercentileScan.check (s : PercentileScan) (q : Pct) (cumulative target bucketNs : UInt64) :
    PercentileScan :=
  if !q.found s && cumulative ≥ target then q.set s bucketNs else s

/-- The body of the loop of `get_stats` for bucket `i`, up to its `p999` check. -/
def PercentileScan.visit (bucketSizeNs p50Target p95Target p99Target : UInt64)
    (s : PercentileScan) (i : Nat) (count : UInt64) : PercentileScan :=
  let cumulative := s.cumulative + count
  let bucketNs := UInt64.ofNat i * bucketSizeNs
  (({ s with cumulative }.check .p50 cumulative p50Target bucketNs).check .p95 cumulative
    p95Target bucketNs).check .p99 cumulative p99Target bucketNs

theorem scanBuckets_cons (bs T50 T95 T99 T999 : UInt64) (s : PercentileScan) (i : Nat)
    (count : UInt64) (rest : List UInt64) :
    scanBuckets bs T50 T95 T99 T999 s i (count :: rest) =
      if s.cumulative + count ≥ T999 then
        { (s.visit bs T50 T95 T99 i count).stats with p999Ns := UInt64.ofNat i * bs }
      else scanBuckets bs T50 T95 T99 T999 (s.visit bs T50 T95 T99 i count) (i + 1) rest := rfl

theorem Pct.found_set (q q' : Pct) (s : PercentileScan) (v : UInt64) :
    q.found (q'.set s v) = (decide (q = q') || q.found s) := by
  cases q <;> cases q' <;> rfl

theorem Pct.get_set (q q' : Pct) (s : PercentileScan) (v : UInt64) :
    q.get (q'.set s v).stats = if q = q' then v else q.get s.stats := by
  cases q <;> cases q' <;> rfl

theorem PercentileScan.check_cumulative (s : PercentileScan) (q : Pct) (c T b : UInt64) :
    (s.check q c T b).cumulative = s.cumulative := by
  unfold PercentileScan.check
  split
  · cases q <;> rfl
  · rfl

theorem PercentileScan.withPercentiles_check (s : PercentileScan) (q : Pct) (c T b : UInt64)
    (f : Pct → UInt64) (p999 : UInt64) :
    (s.check q c T b).stats.withPercentiles f p999 = s.stats.withPercentiles f p999 := by
  unfold PercentileScan.check
  split
  · cases q <;> rfl
  · rfl

theorem PercentileScan.found_check (s : PercentileScan) (q q' : Pct) (c T b : UInt64) :
    q.found (s.check q' c T b) = (q.found s || (decide (q = q') && decide (T ≤ c))) := by
  unfold PercentileScan.check
  by_cases hq : q = q'
  · subst hq
    cases hf : q.found s <;> by_cases hT : T ≤ c <;> simp [hf, hT, Pct.found_set]
  · split <;> simp [hq, Pct.found_set]

theorem PercentileScan.get_check (s : PercentileScan) (q q' : Pct) (c T b : UInt64) :
    q.get (s.check q' c T b).stats =
      if decide (q = q') && !q.found s && decide (T ≤ c) then b else q.get s.stats := by
  unfold PercentileScan.check
  by_cases hq : q = q'
  · subst hq
    cases hf : q.found s <;> by_cases hT : T ≤ c <;> simp [hf, hT, Pct.get_set]
  · split <;> simp [hq, Pct.get_set]

theorem PercentileScan.visit_cumulative (bs T50 T95 T99 : UInt64) (s : PercentileScan) (i : Nat)
    (count : UInt64) : (s.visit bs T50 T95 T99 i count).cumulative = s.cumulative + count := by
  simp only [PercentileScan.visit, PercentileScan.check_cumulative]

/-- A percentile not found before is found at this bucket once the running count reaches its
target. -/
theorem PercentileScan.visit_pct (bs T50 T95 T99 : UInt64) (s : PercentileScan) (i : Nat)
    (count : UInt64) (q : Pct) :
    q.found (s.visit bs T50 T95 T99 i count) =
        (q.found s || decide (q.target T50 T95 T99 ≤ s.cumulative + count)) ∧
      q.get (s.visit bs T50 T95 T99 i count).stats =
        if !q.found s && decide (q.target T50 T95 T99 ≤ s.cumulative + count) then
          UInt64.ofNat i * bs else q.get s.stats := by
  simp only [PercentileScan.visit, PercentileScan.found_check, PercentileScan.get_check,
    PercentileScan.check_cumulative]
  cases q <;> simp [Pct.found, Pct.get, Pct.target]

theorem PercentileScan.withPercentiles_visit (bs T50 T95 T99 : UInt64) (s : PercentileScan)
    (i : Nat) (count : UInt64) (f : Pct → UInt64) (p999 : UInt64) :
    (s.visit bs T50 T95 T99 i count).stats.withPercentiles f p999 = s.stats.withPercentiles f p999 := by
  simp only [PercentileScan.visit, PercentileScan.withPercentiles_check]

theorem LatencyStats.withPercentiles_get (st : LatencyStats) (p999 : UInt64) :
    st.withPercentiles (·.get st) p999 = { st with p999Ns := p999 } := rfl

/-- The bucket value at which the running count from `cumulative`, bucket `i` on, reaches
`target`. -/
def reachNs (bucketSizeNs : UInt64) (i : Nat) (counts : List Nat) (cumulative target : UInt64) :
    UInt64 :=
  UInt64.ofNat (i + firstReach (target.toNat - cumulative.toNat) counts) * bucketSizeNs

/-- One bucket of the scan: its running count reaches the target there, or the search goes on
from the next bucket with the count added. -/
theorem reachNs_cons (bs : UInt64) (i : Nat) (count : UInt64) (rest : List Nat) (c : UInt64)
    (hc : (c + count).toNat = c.toNat + count.toNat) (T : UInt64) :
    reachNs bs i (count.toNat :: rest) c T =
      if T ≤ c + count then UInt64.ofNat i * bs else reachNs bs (i + 1) rest (c + count) T := by
  unfold reachNs
  rw [firstReach]
  by_cases hT : T ≤ c + count
  · have hT' : T.toNat ≤ c.toNat + count.toNat := hc ▸ hT
    rw [if_pos hT, if_pos (by omega), Nat.add_zero]
  · have hT' : ¬T.toNat ≤ c.toNat + count.toNat := hc ▸ hT
    rw [if_neg hT, if_neg (by omega), hc, Nat.sub_sub, Nat.add_comm (firstReach _ _) 1,
      ← Nat.add_assoc]

/-- **The percentile loop**: with the targets of the first three percentiles at most the last
one, and the last one reached within the histogram, each percentile not yet found is the first
bucket at which the running count reaches its target. -/
theorem scanBuckets_eq (bs T50 T95 T99 T999 : UInt64) (hist : List UInt64) (s : PercentileScan)
    (i : Nat) (hne : hist ≠ [])
    (hsum : s.cumulative.toNat + (hist.map UInt64.toNat).sum < 2 ^ 64)
    (hreach : T999.toNat ≤ s.cumulative.toNat + (hist.map UInt64.toNat).sum)
    (hord : ∀ q : Pct, q.found s = false → (q.target T50 T95 T99).toNat ≤ T999.toNat) :
    scanBuckets bs T50 T95 T99 T999 s i hist =
      s.stats.withPercentiles
        (fun q => if q.found s then q.get s.stats
          else reachNs bs i (hist.map UInt64.toNat) s.cumulative (q.target T50 T95 T99))
        (reachNs bs i (hist.map UInt64.toNat) s.cumulative T999) := by
  induction hist generalizing s i with
  | nil => exact absurd rfl hne
  | cons count rest ih =>
    simp only [List.map_cons, List.sum_cons] at hsum hreach
    have hc : (s.cumulative + count).toNat = s.cumulative.toNat + count.toNat := by
      rw [uint64_toNat_add]
      exact Nat.mod_eq_of_lt (by omega)
    have hstep := reachNs_cons bs i count (rest.map UInt64.toNat) s.cumulative hc
    rw [scanBuckets_cons, List.map_cons, hstep T999]
    by_cases hdone : T999 ≤ s.cumulative + count
    · rw [if_pos hdone, if_pos hdone, ← LatencyStats.withPercentiles_get,
        PercentileScan.withPercentiles_visit]
      congr 1
      funext q
      rw [(s.visit_pct bs T50 T95 T99 i count q).2, hstep]
      cases hf : q.found s
      · have hq : q.target T50 T95 T99 ≤ s.cumulative + count :=
          Nat.le_trans (hord q hf) hdone
        simp [hf, hq]
      · simp only [hf, Bool.not_true, Bool.false_and, Bool.false_eq_true, if_false, if_true]
    · have hrest : rest ≠ [] := by
        rintro rfl
        simp only [List.map_nil, List.sum_nil, Nat.add_zero] at hreach
        exact hdone (show T999.toNat ≤ (s.cumulative + count).toNat by omega)
      have hord' : ∀ q : Pct, q.found (s.visit bs T50 T95 T99 i count) = false →
          (q.target T50 T95 T99).toNat ≤ T999.toNat := by
        intro q hq
        rw [(s.visit_pct bs T50 T95 T99 i count q).1, Bool.or_eq_false_iff] at hq
        exact hord q hq.1
      rw [if_neg hdone, if_neg hdone,
        ih _ _ hrest (by rw [PercentileScan.visit_cumulative, hc]; omega)
          (by rw [PercentileScan.visit_cumulative, hc]; omega) hord',
        PercentileScan.withPercentiles_visit, PercentileScan.visit_cumulative]
      congr 1
      funext q
      obtain ⟨hfound, hget⟩ := s.visit_pct bs T50 T95 T99 i count q
      rw [hfound, hget, hstep]
      cases hf : q.found s <;> by_cases hq : q.target T50 T95 T99 ≤ s.cumulative + count <;>
        simp [hf, hq]

/-! ## Running counts and ranks -/

theorem countP_lt_succ {α : Type} (f : α → Nat) (l : List α) (k : Nat) :
    l.countP (f · < k + 1) = l.countP (f · < k) + l.countP (f · = k) := by
  induction l with
  | nil => rfl
  | cons a l ih =>
    simp only [List.countP_cons, ih]
    by_cases h : f a < k
    · simp [h, show f a < k + 1 by omega, show f a ≠ k by omega, Nat.add_right_comm]
    · by_cases h' : f a = k
      · simp [h, h', show f a < k + 1 by omega, Nat.add_assoc]
      · simp [h, h', show ¬f a < k + 1 by omega]

/-- The counts of the first `k` buckets add up to the samples in them. -/
theorem sum_range_countP {α : Type} (f : α → Nat) (l : List α) (k : Nat) :
    ((List.range k).map fun j => l.countP (f · = j)).sum = l.countP (f · < k) := by
  induction k with
  | zero => simp
  | succ k ih => rw [List.range_succ, List.map_append, List.sum_append, ih, countP_lt_succ]; simp

/-- The running count up to bucket `i`. -/
theorem sum_take_range_countP {α : Type} (f : α → Nat) (l : List α) {L i : Nat} (hi : i < L) :
    (((List.range L).map fun j => l.countP (f · = j)).take (i + 1)).sum = l.countP (f · ≤ i) := by
  rw [← List.map_take, List.take_range, Nat.min_eq_left hi, sum_range_countP]
  exact List.countP_congr fun _ _ => by simp only [decide_eq_true_eq, Nat.lt_succ_iff]

/-- **Ranks in a sorted list**: the sample of rank `T + 1` lies at or below `i` exactly when at
least `T + 1` samples do. -/
theorem rank_le_iff {α : Type} {r : α → α → Prop} (f : α → Nat) (hf : ∀ a b, r a b → f a ≤ f b)
    {xs : List α} (hs : xs.Pairwise r) {T : Nat} (hT : T < xs.length) (i : Nat) :
    f xs[T] ≤ i ↔ T + 1 ≤ xs.countP (f · ≤ i) := by
  induction xs generalizing T with
  | nil => cases hT
  | cons a xs ih =>
    rw [List.pairwise_cons] at hs
    have hzero : i < f a → xs.countP (f · ≤ i) = 0 := fun hi =>
      List.countP_eq_zero.mpr fun x hx => by
        have := hf a x (hs.1 x hx)
        simp only [decide_eq_true_eq]
        omega
    rw [List.countP_cons]
    by_cases ha : f a ≤ i
    · have h1 : (if decide (f a ≤ i) = true then 1 else 0) = 1 := by simp [ha]
      rw [h1]
      cases T with
      | zero => exact ⟨fun _ => by omega, fun _ => ha⟩
      | succ T => rw [List.getElem_cons_succ, ih hs.2 (by simpa using hT)]; omega
    · have h0 : (if decide (f a ≤ i) = true then 1 else 0) = 0 := by simp [ha]
      rw [h0, hzero (by omega)]
      cases T with
      | zero => exact ⟨fun h => absurd h ha, fun h => by omega⟩
      | succ T =>
        rw [List.getElem_cons_succ, ih hs.2 (by simpa using hT), hzero (by omega)]
        omega

/-- **The first bucket reaching a rank is the bucket of the sample of that rank**, for samples
sorted in an order their buckets follow. -/
theorem firstReach_counts {α : Type} {r : α → α → Prop} (f : α → Nat)
    (hf : ∀ a b, r a b → f a ≤ f b) {xs : List α} (hs : xs.Pairwise r) {L : Nat}
    (hL : ∀ x ∈ xs, f x < L) {T : Nat} (h1 : 1 ≤ T) (hT : T ≤ xs.length) :
    firstReach T ((List.range L).map fun j => xs.countP (f · = j)) = f xs[T - 1] := by
  have key : ∀ i < L, firstReach T ((List.range L).map fun j => xs.countP (f · = j)) ≤ i ↔
      f xs[T - 1] ≤ i := fun i hi => by
    rw [firstReach_le_iff _ _ (by simpa using hi), sum_take_range_countP f xs hi,
      rank_le_iff f hf hs (by omega) i, Nat.sub_add_cancel h1]
  have hx : f xs[T - 1] < L := hL _ (List.getElem_mem _)
  have ha := (key (L - 1) (by omega)).mpr (by omega)
  exact Nat.le_antisymm ((key _ hx).mpr (Nat.le_refl _)) ((key _ (by omega)).mp (Nat.le_refl _))

theorem firstReach_zero (counts : List Nat) : firstReach 0 counts = 0 := by
  cases counts <;> simp [firstReach]

/-! ## `get_stats` -/

theorem uint64_toNat_mul (a b : UInt64) : (a * b).toNat = a.toNat * b.toNat % 2 ^ 64 := rfl

theorem target_toNat (n : Nat) (k d : UInt64) (hn : n * k.toNat < 2 ^ 64) :
    (UInt64.ofNat n * k / d).toNat = n * k.toNat / d.toNat := by
  rw [UInt64.toNat_div, uint64_toNat_mul, uint64_toNat_ofNat, Nat.mod_mul_mod,
    Nat.mod_eq_of_lt hn]

/-- **`get_stats` over a histogram holding `n` samples**: each percentile is the value of the
first bucket whose running count reaches its target, the targets rounded down as the code
computes them. -/
theorem LatencyTracker.getStats_eq (t : LatencyTracker) {n : Nat} (hn0 : 0 < n)
    (hn : n * 999 < 2 ^ 64) (hcount : t.totalSamples = UInt64.ofNat n) (hne : t.histogram ≠ [])
    (hsum : (t.histogram.map UInt64.toNat).sum = n) :
    let reach := fun T => UInt64.ofNat (firstReach T (t.histogram.map UInt64.toNat)) * t.bucketSizeNs
    t.getStats = { LatencyStats.init with
      sampleCount := UInt64.ofNat n, minNs := t.minLatency, maxNs := t.maxLatency,
      meanNs := t.totalLatency / UInt64.ofNat n,
      p50Ns := reach (n * 50 / 100), p95Ns := reach (n * 95 / 100),
      p99Ns := reach (n * 99 / 100), p999Ns := reach (n * 999 / 1000) } := by
  intro reach
  have hn0' : UInt64.ofNat n ≠ 0 := fun h => by
    have := congrArg UInt64.toNat h
    rw [UInt64.toNat_ofNat_of_lt (show _ < 2 ^ 64 by omega)] at this
    exact absurd this (by simp only [show (0 : UInt64).toNat = 0 from rfl]; omega)
  have h50 := target_toNat n 50 100 (by simp only [show (50 : UInt64).toNat = 50 from rfl]; omega)
  have h95 := target_toNat n 95 100 (by simp only [show (95 : UInt64).toNat = 95 from rfl]; omega)
  have h99 := target_toNat n 99 100 (by simp only [show (99 : UInt64).toNat = 99 from rfl]; omega)
  have h999 := target_toNat n 999 1000 hn
  simp only [show (50 : UInt64).toNat = 50 from rfl, show (95 : UInt64).toNat = 95 from rfl,
    show (99 : UInt64).toNat = 99 from rfl, show (999 : UInt64).toNat = 999 from rfl,
    show (100 : UInt64).toNat = 100 from rfl, show (1000 : UInt64).toNat = 1000 from rfl]
    at h50 h95 h99 h999
  rw [LatencyTracker.getStats, hcount, if_neg hn0']
  dsimp only
  rw [scanBuckets_eq _ _ _ _ _ _ _ _ hne]
  · simp only [LatencyStats.withPercentiles, Pct.found, Pct.target, reachNs, h50, h95, h99, h999,
      Bool.false_eq_true, if_false, Nat.zero_add, show (0 : UInt64).toNat = 0 from rfl,
      Nat.sub_zero, reach]
  case hsum => rw [hsum]; show 0 + n < 2 ^ 64; omega
  case hreach => rw [hsum, h999]; show _ ≤ 0 + n; omega
  case hord => intro q _; cases q <;> simp only [Pct.target, h50, h95, h99, h999] <;> omega

/-! ## Samples recorded into a constructed or reset tracker -/

theorem LatencyTracker.new_eq_some {b m : UInt64} {t : LatencyTracker}
    (ht : LatencyTracker.new b m = some t) :
    b ≠ 0 ∧ t = ⟨b, List.replicate (m / b + 1).toNat 0, 18446744073709551615, 0, 0, 0⟩ := by
  unfold LatencyTracker.new at ht
  split_ifs at ht with hb
  cases ht
  exact ⟨hb, rfl⟩

theorem bucketNs_toNat {m b : UInt64} {i : Nat} (hi : i ≤ (m / b).toNat) :
    (UInt64.ofNat i * b).toNat = i * b.toNat := by
  have hm := m.toNat_lt_size
  have hle : i * b.toNat ≤ m.toNat :=
    calc i * b.toNat ≤ (m / b).toNat * b.toNat := Nat.mul_le_mul_right _ hi
      _ = m.toNat / b.toNat * b.toNat := by rw [UInt64.toNat_div]
      _ ≤ m.toNat := Nat.div_mul_le_self _ _
  have hq : (m / b).toNat < 2 ^ 64 := (m / b).toNat_lt_size
  rw [uint64_toNat_mul, UInt64.toNat_ofNat_of_lt (show _ < 2 ^ 64 by omega),
    Nat.mod_eq_of_lt (by simp only [UInt64.size] at hm; omega)]

/-- Bucket lower bounds up to the last bucket do not wrap, so they rise with the bucket. -/
theorem bucketNs_le {m b : UInt64} {i j : Nat} (hij : i ≤ j) (hj : j ≤ (m / b).toNat) :
    UInt64.ofNat i * b ≤ UInt64.ofNat j * b :=
  show (UInt64.ofNat i * b).toNat ≤ (UInt64.ofNat j * b).toNat by
    rw [bucketNs_toNat (Nat.le_trans hij hj), bucketNs_toNat hj]
    exact Nat.mul_le_mul_right _ hij

theorem uint64_le_antisymm {a b : UInt64} (h₁ : a ≤ b) (h₂ : b ≤ a) : a = b :=
  UInt64.toNat.inj (Nat.le_antisymm h₁ h₂)

theorem sorted_getElem_le {xs : List UInt64} (hs : xs.Pairwise fun v w => decide (v ≤ w) = true)
    {i j : Nat} (hij : i ≤ j) (hj : j < xs.length) : xs[i] ≤ xs[j] := by
  rcases Nat.eq_or_lt_of_le hij with rfl | hlt
  · exact show xs[i].toNat ≤ xs[i].toNat from Nat.le_refl _
  · exact of_decide_eq_true (List.pairwise_iff_getElem.mp hs i j (by omega) hj hlt)

theorem sorted_mergeSort_le (samples : List UInt64) :
    (samples.mergeSort fun v w => decide (v ≤ w)).Pairwise fun v w => decide (v ≤ w) = true :=
  @List.sorted_mergeSort _ (fun v w => decide (v ≤ w))
    (fun _ _ _ hab hbc => decide_eq_true (UInt64.le_trans (of_decide_eq_true hab)
      (of_decide_eq_true hbc)))
    (fun a b => by
      rcases Nat.le_total a.toNat b.toNat with h | h
      · simp only [show a ≤ b from h, decide_True, Bool.true_or]
      · simp only [show b ≤ a from h, decide_True, Bool.or_true]) samples

section Constructed

variable {b m : UInt64} {t₀ : LatencyTracker}

/-- The constructor's histogram, when its bucket count does not wrap: `m / b + 1` empty buckets,
and `record` puts each sample in bucket `bucketOf`. -/
theorem LatencyTracker.new_histogram (ht : LatencyTracker.new b m = some t₀)
    (hm : m / b ≠ 18446744073709551615) :
    t₀.histogram.length = (m / b).toNat + 1 ∧ (∀ v, t₀.bucket? v = some (t₀.bucketOf v)) ∧
      ∀ j, t₀.histogram.getD j 0 = 0 := by
  obtain ⟨hb, ht0⟩ := LatencyTracker.new_eq_some ht
  have hq : (m / b).toNat < 2 ^ 64 - 1 := by
    have := (m / b).toNat_lt_size
    have : (m / b).toNat ≠ 2 ^ 64 - 1 := fun h => hm (UInt64.toNat.inj h)
    simp only [UInt64.size] at *
    omega
  have hL : t₀.histogram.length = (m / b).toNat + 1 := by
    rw [ht0, List.length_replicate, uint64_toNat_add, show (1 : UInt64).toNat = 1 from rfl,
      Nat.mod_eq_of_lt (by omega)]
  refine ⟨hL, t₀.bucket?_eq (by rw [ht0]; exact hb) (by omega) (by omega), fun j => ?_⟩
  rw [ht0, List.getD_eq_getElem?_getD, List.getElem?_replicate]
  split <;> rfl

/-- `reset()` after any samples gives back the constructed tracker. -/
theorem LatencyTracker.reset_of_recorded (ht : LatencyTracker.new b m = some t₀)
    (hm : m / b ≠ 18446744073709551615) {earlier : List UInt64} {t₁ : LatencyTracker}
    (h₁ : earlier.foldlM LatencyTracker.record t₀ = some t₁) : t₁.reset = t₀ := by
  obtain ⟨hbs, hh⟩ := foldlM_record_histogram (LatencyTracker.new_histogram ht hm).2.1 h₁
  have hlen : t₁.histogram.length = (m / b + 1).toNat := by
    rw [hh, List.length_map, List.length_range, (LatencyTracker.new_eq_some ht).2,
      List.length_replicate]
  rw [(LatencyTracker.new_eq_some ht).2] at hbs ⊢
  simp only [LatencyTracker.reset, List.map_const', hlen, hbs]

/-- After samples recorded into the constructed tracker, bucket `j` counts the samples, sorted
or not, whose `bucketOf` is `j`. -/
theorem LatencyTracker.recorded_counts (ht : LatencyTracker.new b m = some t₀)
    (hm : m / b ≠ 18446744073709551615) {samples : List UInt64} {t' : LatencyTracker}
    (h : samples.foldlM LatencyTracker.record t₀ = some t') (hn : samples.length < 2 ^ 64) :
    t'.bucketSizeNs = b ∧ t'.histogram.map UInt64.toNat =
      (List.range t₀.histogram.length).map fun j =>
        (samples.mergeSort fun v w => decide (v ≤ w)).countP (t₀.bucketOf · = j) := by
  obtain ⟨-, hb₀, hzero⟩ := LatencyTracker.new_histogram ht hm
  obtain ⟨hbs, hh⟩ := foldlM_record_histogram hb₀ h
  refine ⟨by rw [hbs, (LatencyTracker.new_eq_some ht).2], ?_⟩
  rw [hh, List.map_map]
  refine List.map_congr_left fun j _ => ?_
  have hc : samples.countP (t₀.bucketOf · = j) < 2 ^ 64 :=
    Nat.lt_of_le_of_lt (List.countP_le_length _) (by omega)
  simp only [Function.comp, hzero, zero_add, UInt64.toNat_ofNat_of_lt hc,
    (List.mergeSort_perm samples _).countP_eq]

/-- After samples recorded into the constructed tracker, the minimum and maximum are the first
and last of the sorted samples. -/
theorem LatencyTracker.recorded_extremes (ht : LatencyTracker.new b m = some t₀)
    {samples : List UInt64} {t' : LatencyTracker}
    (h : samples.foldlM LatencyTracker.record t₀ = some t') (hne : samples ≠ []) :
    let xs := samples.mergeSort fun v w => decide (v ≤ w)
    t'.minLatency = xs.getD 0 0 ∧ t'.maxLatency = xs.getD (samples.length - 1) 0 := by
  intro xs
  have ht0 := (LatencyTracker.new_eq_some ht).2
  obtain ⟨⟨hmin1, -, hmin2⟩, ⟨hmax1, -, hmax2⟩, -⟩ := foldlM_record_cells h
  have hperm : xs.Perm samples := List.mergeSort_perm _ _
  have hsorted : xs.Pairwise fun v w => decide (v ≤ w) = true := sorted_mergeSort_le samples
  have hlen : xs.length = samples.length := hperm.length_eq
  have hx0 : 0 < xs.length := hlen ▸ List.length_pos.mpr hne
  have hlast : samples.length - 1 < xs.length := by omega
  rw [List.getD_eq_getElem xs 0 hx0, List.getD_eq_getElem xs 0 hlast]
  constructor
  · refine uint64_le_antisymm (hmin1 _ (hperm.subset (List.getElem_mem hx0))) ?_
    rcases hmin2 with h | h
    · rw [h, ht0]
      exact Nat.le_of_lt_succ xs[0].toNat_lt_size
    · obtain ⟨j, hj, hjx⟩ := List.mem_iff_getElem.mp (hperm.symm.subset h)
      rw [← hjx]
      exact sorted_getElem_le hsorted (Nat.zero_le _) hj
  · refine uint64_le_antisymm ?_ (hmax1 _ (hperm.subset (List.getElem_mem hlast)))
    rcases hmax2 with h | h
    · rw [h, ht0]
      exact Nat.zero_le _
    · obtain ⟨j, hj, hjx⟩ := List.mem_iff_getElem.mp (hperm.symm.subset h)
      rw [← hjx]
      exact sorted_getElem_le hsorted (by omega) hlast

/-- **`get_stats` after sequential recording**, into a tracker from the constructor (whose
bucket count did not wrap) or one reset after any samples: each percentile is the lower bound of
the bucket of the sample whose rank, in sorted order, is the target `sample_count * q` rounded
down, and bucket `0` for a target of `0`; the percentiles rise with `q` up to the largest
sample's bucket; the minimum and maximum are the smallest and largest samples, and the mean is
their sum modulo `2^64` over their number. -/
theorem get_stats_sorted_ranks (ht : LatencyTracker.new b m = some t₀)
    (hm : m / b ≠ 18446744073709551615) {t : LatencyTracker}
    (hstart : t = t₀ ∨ ∃ (earlier : List UInt64) (t₁ : LatencyTracker), earlier.foldlM LatencyTracker.record t₀ = some t₁ ∧
      t = t₁.reset)
    (samples : List UInt64) (hne : samples ≠ []) (hn : samples.length * 999 < 2 ^ 64) :
    let n := samples.length
    let xs := samples.mergeSort fun v w => decide (v ≤ w)
    let rank := fun T : Nat => if T = 0 then 0 else t₀.bucketOf (xs.getD (T - 1) 0)
    ∃ t', samples.foldlM LatencyTracker.record t = some t' ∧
      t'.getStats.p50Ns = UInt64.ofNat (rank (n * 50 / 100)) * b ∧
      t'.getStats.p95Ns = UInt64.ofNat (rank (n * 95 / 100)) * b ∧
      t'.getStats.p99Ns = UInt64.ofNat (rank (n * 99 / 100)) * b ∧
      t'.getStats.p999Ns = UInt64.ofNat (rank (n * 999 / 1000)) * b ∧
      t'.getStats.p50Ns ≤ t'.getStats.p95Ns ∧ t'.getStats.p95Ns ≤ t'.getStats.p99Ns ∧
      t'.getStats.p99Ns ≤ t'.getStats.p999Ns ∧
      t'.getStats.p999Ns ≤ UInt64.ofNat (t₀.bucketOf (xs.getD (n - 1) 0)) * b ∧
      t'.getStats.minNs = xs.getD 0 0 ∧ t'.getStats.maxNs = xs.getD (n - 1) 0 ∧
      t'.getStats.meanNs = samples.sum / UInt64.ofNat n ∧
      t'.getStats.sampleCount = UInt64.ofNat n := by
  have hstart' : t = t₀ := by
    rcases hstart with h | ⟨_, _, h₁, rfl⟩
    · exact h
    · exact LatencyTracker.reset_of_recorded ht hm h₁
  subst hstart'
  intro n xs rank
  have hn0 : 0 < n := List.length_pos.mpr hne
  have ht0 := (LatencyTracker.new_eq_some ht).2
  obtain ⟨hL, -, -⟩ := LatencyTracker.new_histogram ht hm
  obtain ⟨t', ht'⟩ : ∃ t', samples.foldlM LatencyTracker.record t = some t' := by
    rw [foldlM_record, if_pos fun w _ => (LatencyTracker.accepts_of_new ht w).mpr hm]
    exact ⟨_, rfl⟩
  refine ⟨t', ht', ?_⟩
  obtain ⟨hb', hcounts⟩ := LatencyTracker.recorded_counts ht hm ht' (by omega)
  obtain ⟨-, -, hcnt, hlat, -⟩ := foldlM_record_cells ht'
  have hxlen : xs.length = n := (List.mergeSort_perm _ _).length_eq
  have hsorted : xs.Pairwise fun v w => decide (v ≤ w) = true := sorted_mergeSort_le samples
  have hbucket : ∀ x, t.bucketOf x < t.histogram.length := fun x => by
    have := t.bucketOf_le x
    omega
  have hsum : (t'.histogram.map UInt64.toNat).sum = n := by
    rw [hcounts, sum_range_countP, List.countP_eq_length.mpr fun x _ => decide_eq_true (hbucket x),
      hxlen]
  have hne' : t'.histogram ≠ [] := fun h => by
    rw [h] at hsum
    exact absurd hsum (by simp only [List.map_nil, List.sum_nil]; omega)
  have hcount : t'.totalSamples = UInt64.ofNat n := by
    rw [hcnt, ht0]
    exact zero_add _
  have hrank : ∀ T, T ≤ n → firstReach T (t'.histogram.map UInt64.toNat) = rank T := by
    intro T hT
    rw [hcounts]
    by_cases h0 : T = 0
    · subst h0
      exact firstReach_zero _
    · rw [firstReach_counts t.bucketOf (fun _ _ h => t.bucketOf_mono (of_decide_eq_true h))
        hsorted (fun x _ => hbucket x) (by omega) (by omega)]
      simp only [rank, if_neg h0]
      exact congrArg _ (List.getD_eq_getElem xs 0 (by omega)).symm
  have hrank_le : ∀ T, rank T ≤ (m / b).toNat := fun T => by
    simp only [rank]
    split
    · exact Nat.zero_le _
    · have := hbucket (xs.getD (T - 1) 0)
      omega
  have hrank_mono : ∀ T T', T ≤ T' → T' ≤ n → rank T ≤ rank T' := fun T T' hTT' hT' => by
    simp only [rank]
    split
    · exact Nat.zero_le _
    · rw [if_neg (by omega), List.getD_eq_getElem xs 0 (by omega),
        List.getD_eq_getElem xs 0 (by omega)]
      exact t.bucketOf_mono (sorted_getElem_le hsorted (by omega) (by omega))
  have hle : ∀ T T', T ≤ T' → T' ≤ n →
      UInt64.ofNat (rank T) * b ≤ UInt64.ofNat (rank T') * b := fun T T' h h' =>
    bucketNs_le (hrank_mono T T' h h') (hrank_le T')
  have hlat0 : t.totalLatency = 0 := by rw [ht0]
  have hstats := t'.getStats_eq hn0 hn hcount hne' hsum
  dsimp only at hstats
  rw [hstats]
  dsimp only
  obtain ⟨hmin, hmax⟩ := LatencyTracker.recorded_extremes ht ht' hne
  rw [hb', hrank _ (by omega), hrank _ (by omega), hrank _ (by omega), hrank _ (by omega), hmin,
    hmax, hlat, hlat0, zero_add]
  refine ⟨rfl, rfl, rfl, rfl, hle _ _ (by omega) (by omega), hle _ _ (by omega) (by omega),
    hle _ _ (by omega) (by omega), ?_, rfl, rfl, rfl, rfl⟩
  have hlast := hle (n * 999 / 1000) n (by omega) (Nat.le_refl _)
  simp only [rank, if_neg (show n ≠ 0 by omega)] at hlast
  exact hlast

/-- Samples `25, 5, 15` recorded into a tracker of ten `10` ns buckets, reset after a sample of
`7`. -/
theorem get_stats_sorted_ranks_after_reset :
    let t₀ : LatencyTracker := ⟨10, List.replicate 11 0, 18446744073709551615, 0, 0, 0⟩
    let t₁ : LatencyTracker := ⟨10, 1 :: List.replicate 10 0, 7, 7, 1, 7⟩
    let samples : List UInt64 := [25, 5, 15]
    (LatencyTracker.new 10 100 = some t₀ ∧ (100 : UInt64) / 10 ≠ 18446744073709551615 ∧
      [7].foldlM LatencyTracker.record t₀ = some t₁ ∧
      samples ≠ [] ∧ samples.length * 999 < 2 ^ 64) ∧
    let n := samples.length
    let xs := samples.mergeSort fun v w => decide (v ≤ w)
    let rank := fun T : Nat => if T = 0 then 0 else t₀.bucketOf (xs.getD (T - 1) 0)
    ∃ t', samples.foldlM LatencyTracker.record t₁.reset = some t' ∧
      t'.getStats.p50Ns = UInt64.ofNat (rank (n * 50 / 100)) * 10 ∧
      t'.getStats.p95Ns = UInt64.ofNat (rank (n * 95 / 100)) * 10 ∧
      t'.getStats.p99Ns = UInt64.ofNat (rank (n * 99 / 100)) * 10 ∧
      t'.getStats.p999Ns = UInt64.ofNat (rank (n * 999 / 1000)) * 10 ∧
      t'.getStats.p50Ns ≤ t'.getStats.p95Ns ∧ t'.getStats.p95Ns ≤ t'.getStats.p99Ns ∧
      t'.getStats.p99Ns ≤ t'.getStats.p999Ns ∧
      t'.getStats.p999Ns ≤ UInt64.ofNat (t₀.bucketOf (xs.getD (n - 1) 0)) * 10 ∧
      t'.getStats.minNs = xs.getD 0 0 ∧ t'.getStats.maxNs = xs.getD (n - 1) 0 ∧
      t'.getStats.meanNs = samples.sum / UInt64.ofNat n ∧
      t'.getStats.sampleCount = UInt64.ofNat n := by
  intro t₀ t₁ samples
  have ht : LatencyTracker.new 10 100 = some t₀ := rfl
  have hm : (100 : UInt64) / 10 ≠ 18446744073709551615 := by decide
  have hstart : t₁.reset = t₀ ∨ ∃ (earlier : List UInt64) (t₂ : LatencyTracker),
      earlier.foldlM LatencyTracker.record t₀ = some t₂ ∧ t₁.reset = t₂.reset :=
    .inr ⟨[7], t₁, by decide, rfl⟩
  exact ⟨⟨ht, hm, by decide, by decide, by decide⟩,
    get_stats_sorted_ranks ht hm hstart samples (by decide) (by decide)⟩

end Constructed

/-- Three samples in buckets `0`, `1` and `2` of width `10`: the `p50` target is
`3 * 50 / 100 = 1`, so `get_stats` reports bucket `0`, below the bucket `1` of the second
smallest sample, the rank `⌈0.5 · 3⌉`. -/
theorem p50_rounds_rank_down :
    ∃ t t', LatencyTracker.new 10 100 = some t ∧ [5, 15, 25].foldlM LatencyTracker.record t = some t' ∧
      t'.getStats.p50Ns = 0 ∧ UInt64.ofNat (t.bucketOf 15) * 10 = 10 :=
  ⟨_, _, rfl, rfl, by decide, by decide⟩

end FeedHandler.Perf

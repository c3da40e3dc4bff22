import FeedHandler.Perf.LatencyTracker

/-! `LatencyTracker::record` under every interleaving. Each thread records its own list of
samples, and every call is its atomic steps on the shared tracker: a relaxed load of
`min_latency_`, its `compare_exchange_weak` loop, the same for `max_latency_`, then the three
`fetch_add`s. A scheduler picks the thread that moves at each instant, and may make any
compare-and-swap fail spuriously (`execution`).

The tracker at every instant is the initial one with the effects (`LatencyTracker.apply`) of
every step done so far applied, in whatever order (`Inv`): a load or a failed compare-and-swap
that leaves its loop has found the cell already past the sample, so that effect was absorbed.
Once every call has returned, the tracker is the one sequential recording gives, in any order
(`record_interleaving_sequential`). -/

namespace FeedHandler.Perf

/-! ## Threads and steps -/

/-- Where a call of `record` is: before its load of `min_latency_`, in the loop on
`min_latency_` holding the value it last read, and so on to the last `fetch_add`. -/
inductive RecordPc
  | load
  | minCas (currentMin : UInt64)
  | maxLoad
  | maxCas (currentMax : UInt64)
  | bucket
  | samples
  | latency
  deriving DecidableEq, Repr

/-- How many of the cells, in `Cell.all` order, a call at this point is done with. -/
def RecordPc.stage : RecordPc → Nat
  | .load | .minCas _ => 0
  | .maxLoad | .maxCas _ => 1
  | .bucket => 2
  | .samples => 3
  | .latency => 4

/-- The test `latency_ns < current_min` of the `min_latency_` loop. -/
def minLoop (latencyNs currentMin : UInt64) : RecordPc :=
  if latencyNs < currentMin then .minCas currentMin else .maxLoad

/-- The test `latency_ns > current_max` of the `max_latency_` loop. -/
def maxLoop (latencyNs currentMax : UInt64) : RecordPc :=
  if latencyNs > currentMax then .maxCas currentMax else .bucket

/-- One atomic step of `record(latency_ns)`: the tracker after it, and where the call is then
(`none` once it has returned). A compare-and-swap stores the sample if the cell still holds the
value read, unless it fails spuriously; failing, it reads the cell again. -/
def recordStep (t : LatencyTracker) (latencyNs : UInt64) (spurious : Bool) :
    RecordPc → Option (LatencyTracker × Option RecordPc)
  | .load => some (t, some (minLoop latencyNs t.minLatency))
  | .minCas currentMin =>
    if currentMin = t.minLatency ∧ spurious = false then
      some ({ t with minLatency := latencyNs }, some .maxLoad)
    else some (t, some (minLoop latencyNs t.minLatency))
  | .maxLoad => some (t, some (maxLoop latencyNs t.maxLatency))
  | .maxCas currentMax =>
    if currentMax = t.maxLatency ∧ spurious = false then
      some ({ t with maxLatency := latencyNs }, some .bucket)
    else some (t, some (maxLoop latencyNs t.maxLatency))
  | .bucket =>
    (t.fetchAddBucket latencyNs).map fun histogram => ({ t with histogram }, some .samples)
  | .samples => some ({ t with totalSamples := t.totalSamples + 1 }, some .latency)
  | .latency => some ({ t with totalLatency := t.totalLatency + latencyNs }, none)

/-- A recording thread: the samples it has recorded, those still to record (the first is its
current call's), and where its current call is. -/
structure Recorder where
  recorded : List UInt64
  pending : List UInt64
  pc : RecordPc
  deriving DecidableEq, Repr

structure Recording where
  tracker : LatencyTracker
  threads : List Recorder
  deriving DecidableEq, Repr

/-- The scheduler's choice: the thread that moves, and whether its compare-and-swap, if that is
its step, fails spuriously. -/
structure Action where
  thread : Nat
  spurious : Bool

/-- The thread after its current call, on sample `v`, took a step to `next`. -/
def Recorder.next (th : Recorder) (v : UInt64) (rest : List UInt64) : Option RecordPc → Recorder
  | some pc => { th with pc }
  | none => ⟨th.recorded ++ [v], rest, .load⟩

/-- A step of thread `a.thread`; `none` if there is no such thread, if it has returned from all
its calls, or if its step faults. -/
def Recording.step (σ : Recording) (a : Action) : Option Recording := do
  let th ← σ.threads[a.thread]?
  match th.pending with
  | [] => none
  | v :: rest =>
    let (tracker, next) ← recordStep σ.tracker v a.spurious th.pc
    some ⟨tracker, σ.threads.set a.thread (th.next v rest next)⟩

def Recording.start (t : LatencyTracker) (programs : List (List UInt64)) : Recording :=
  ⟨t, programs.map fun samples => ⟨[], samples, .load⟩⟩

/-- A scheduled thread that cannot move leaves the state as it is. -/
def Recording.advance (σ : Recording) (a : Action) : Recording := (σ.step a).getD σ

/-- The state after `n` instants of the schedule `sched`. -/
def execution (t : LatencyTracker) (programs : List (List UInt64)) (sched : Nat → Action) :
    Nat → Recording
  | 0 => .start t programs
  | n + 1 => (execution t programs sched n).advance (sched n)

/-! ## The invariant -/

/-- The effects a thread's steps have made: all five of each returned call, and those of the
cells its current call is done with. -/
def Recorder.effects (th : Recorder) : List (Cell × UInt64) :=
  recordEffects th.recorded ++
    match th.pending with
    | [] => []
    | v :: _ => (Cell.all.take th.pc.stage).map (·, v)

def Recording.effects (σ : Recording) : List (Cell × UInt64) := σ.threads.flatMap Recorder.effects

/-- What a thread's own state says: its returned calls did not fault, a thread with no call
left is at the start, a thread in a loop holds a value the sample still beats, and a call past
its histogram step did not fault. -/
def Recorder.Ok (t : LatencyTracker) (th : Recorder) : Prop :=
  (∀ v ∈ th.recorded, t.Accepts v) ∧
    match th.pending, th.pc with
    | [], pc => pc = .load
    | v :: _, .minCas currentMin => v < currentMin
    | v :: _, .maxCas currentMax => v > currentMax
    | v :: _, .samples => t.Accepts v
    | v :: _, .latency => t.Accepts v
    | _ :: _, _ => True

structure Inv (t : LatencyTracker) (programs : List (List UInt64)) (σ : Recording) : Prop where
  tracker : σ.tracker = applyAll t σ.effects
  programs : σ.threads.map (fun th => th.recorded ++ th.pending) = programs
  threads : ∀ th ∈ σ.threads, th.Ok t

theorem flatMap_set_perm {α β : Type} (f : α → List β) {l : List α} {i : Nat} {x y : α}
    {d : List β} (hy : l[i]? = some y) (hx : f x = f y ++ d) :
    ((l.set i x).flatMap f).Perm (l.flatMap f ++ d) := by
  induction l generalizing i with
  | nil => cases hy
  | cons a l ih =>
    cases i with
    | zero =>
      obtain rfl : a = y := by simpa using hy
      simp only [List.set_cons_zero, List.flatMap_cons, hx, List.append_assoc]
      exact List.Perm.append_left _ List.perm_append_comm
    | succ i =>
      simp only [List.set_cons_succ, List.flatMap_cons, List.append_assoc]
      exact List.Perm.append_left _ (ih (by simpa using hy))

theorem map_set_of_eq {α β : Type} (f : α → β) {l : List α} {i : Nat} {x y : α}
    (hy : l[i]? = some y) (hx : f x = f y) : (l.set i x).map f = l.map f := by
  have hi : i < l.length := (List.getElem?_eq_some_iff.mp hy).1
  apply List.ext_getElem?
  intro j
  by_cases hij : i = j
  · subst hij
    rw [List.getElem?_map, List.getElem?_map, List.getElem?_set_self hi, hy, Option.map_some',
      Option.map_some', hx]
  · simp [List.getElem?_set_ne hij]

/-- Every step of a call, as `Inv` needs it: it appends effects `d` to the thread's and applies
them to the tracker, keeps the thread's samples, and keeps `Ok`. -/
def StepOk (t₀ t t' : LatencyTracker) (th th' : Recorder) : Prop :=
  ∃ d, th'.effects = th.effects ++ d ∧ t' = applyAll t d ∧ th'.Ok t₀ ∧
    th'.recorded ++ th'.pending = th.recorded ++ th.pending

/-- After reading `min_latency_`, a call either stays in the loop or leaves it with its effect
on the cell already absorbed. -/
theorem minLoop_stepOk (t₀ t : LatencyTracker) (recorded rest : List UInt64) (v : UInt64)
    {pc : RecordPc} (hpc : pc.stage = 0) (hrec : ∀ w ∈ recorded, t₀.Accepts w) :
    StepOk t₀ t t ⟨recorded, v :: rest, pc⟩ ⟨recorded, v :: rest, minLoop v t.minLatency⟩ := by
  unfold minLoop
  split_ifs with h
  · exact ⟨[], by simp only [Recorder.effects, hpc, List.append_nil]; rfl, rfl, ⟨hrec, h⟩, rfl⟩
  · refine ⟨[(.minLatency, v)], ?_, ?_, ⟨hrec, trivial⟩, rfl⟩
    · simp only [Recorder.effects, hpc]
      simp [RecordPc.stage, Cell.all]
    · simp only [applyAll_singleton, LatencyTracker.apply, lowerMin, if_neg h]

theorem maxLoop_stepOk (t₀ t : LatencyTracker) (recorded rest : List UInt64) (v : UInt64)
    {pc : RecordPc} (hpc : pc.stage = 1) (hrec : ∀ w ∈ recorded, t₀.Accepts w) :
    StepOk t₀ t t ⟨recorded, v :: rest, pc⟩ ⟨recorded, v :: rest, maxLoop v t.maxLatency⟩ := by
  unfold maxLoop
  split_ifs with h
  · exact ⟨[], by simp only [Recorder.effects, hpc, List.append_nil]; rfl, rfl, ⟨hrec, h⟩, rfl⟩
  · refine ⟨[(.maxLatency, v)], ?_, ?_, ⟨hrec, trivial⟩, rfl⟩
    · simp only [Recorder.effects, hpc]
      simp [RecordPc.stage, Cell.all]
    · simp only [applyAll_singleton, LatencyTracker.apply, raiseMax, if_neg h]

/-- **The step lemma of one thread.** -/
theorem recordStep_stepOk {t₀ t t' : LatencyTracker} {th : Recorder} {v : UInt64}
    {rest : List UInt64} {spurious : Bool} {next : Option RecordPc}
    (hp : th.pending = v :: rest) (hok : th.Ok t₀) (hb : t.bucket? = t₀.bucket?)
    (hs : recordStep t v spurious th.pc = some (t', next)) :
    StepOk t₀ t t' th (th.next v rest next) := by
  obtain ⟨recorded, pending, pc⟩ := th
  obtain rfl : pending = v :: rest := hp
  obtain ⟨hrec, hpc⟩ := hok
  cases pc with
  | load =>
    cases hs
    exact minLoop_stepOk t₀ t recorded rest v rfl hrec
  | minCas currentMin =>
    simp only [recordStep] at hs
    split_ifs at hs with h
    · cases hs
      refine ⟨[(.minLatency, v)], ?_, ?_, ⟨hrec, trivial⟩, rfl⟩
      · simp [Recorder.next, Recorder.effects, RecordPc.stage, Cell.all]
      · simp only [applyAll_singleton, LatencyTracker.apply, lowerMin, ← h.1, if_pos hpc]
    · cases hs
      exact minLoop_stepOk t₀ t recorded rest v rfl hrec
  | maxLoad =>
    cases hs
    exact maxLoop_stepOk t₀ t recorded rest v rfl hrec
  | maxCas currentMax =>
    simp only [recordStep] at hs
    split_ifs at hs with h
    · cases hs
      refine ⟨[(.maxLatency, v)], ?_, ?_, ⟨hrec, trivial⟩, rfl⟩
      · simp [Recorder.next, Recorder.effects, RecordPc.stage, Cell.all]
      · simp only [applyAll_singleton, LatencyTracker.apply, raiseMax, ← h.1, if_pos hpc]
    · cases hs
      exact maxLoop_stepOk t₀ t recorded rest v rfl hrec
  | bucket =>
    obtain ⟨histogram, hh, hs⟩ := Option.map_eq_some'.mp hs
    cases hs
    obtain ⟨i, hi, rfl⟩ := Option.map_eq_some'.mp hh
    refine ⟨[(.histogram, v)], ?_, ?_, ⟨hrec, ?_⟩, rfl⟩
    · simp [Recorder.next, Recorder.effects, RecordPc.stage, Cell.all]
    · simp only [applyAll_singleton, apply_histogram, hi]
      rfl
    · show (t₀.bucket? v).isSome
      rw [← hb, hi]
      rfl
  | samples =>
    cases hs
    exact ⟨[(.totalSamples, v)], by simp [Recorder.next, Recorder.effects, RecordPc.stage, Cell.all],
      rfl, ⟨hrec, hpc⟩, rfl⟩
  | latency =>
    cases hs
    refine ⟨[(.totalLatency, v)], ?_, rfl, ⟨?_, ?_⟩, by simp [Recorder.next]⟩
    · cases rest <;> simp [Recorder.next, Recorder.effects, RecordPc.stage, recordEffects, Cell.all]
    · simp only [Recorder.next, List.mem_append, List.mem_singleton]
      rintro w (hw | rfl)
      exacts [hrec w hw, hpc]
    · cases rest <;> trivial

theorem Recording.step_eq {σ σ' : Recording} {a : Action} (hs : σ.step a = some σ') :
    ∃ th v rest tracker next, σ.threads[a.thread]? = some th ∧ th.pending = v :: rest ∧
      recordStep σ.tracker v a.spurious th.pc = some (tracker, next) ∧
      σ' = ⟨tracker, σ.threads.set a.thread (th.next v rest next)⟩ := by
  obtain ⟨th, hth, hs⟩ := Option.bind_eq_some.mp hs
  split at hs
  · cases hs
  · rename_i v rest hp
    obtain ⟨⟨tracker, next⟩, hr, hs⟩ := Option.bind_eq_some.mp hs
    exact ⟨th, v, rest, tracker, next, hth, hp, hr, (Option.some.inj hs).symm⟩

theorem Inv.start (t : LatencyTracker) (programs : List (List UInt64)) :
    Inv t programs (.start t programs) := by
  refine ⟨?_, by simp [Recording.start, Function.comp_def], ?_⟩
  · have : (Recording.start t programs).effects = [] := by
      simp only [Recording.effects, Recording.start, List.flatMap_eq_nil_iff, List.mem_map]
      rintro _ ⟨samples, -, rfl⟩
      cases samples <;> rfl
    rw [this]
    rfl
  · simp only [Recording.start, List.mem_map]
    rintro _ ⟨samples, -, rfl⟩
    refine ⟨fun _ h => (List.not_mem_nil _ h).elim, ?_⟩
    cases samples <;> trivial

theorem Inv.step {t : LatencyTracker} {programs : List (List UInt64)} {σ σ' : Recording}
    {a : Action} (hi : Inv t programs σ) (hs : σ.step a = some σ') : Inv t programs σ' := by
  obtain ⟨th, v, rest, tracker, next, hth, hp, hr, rfl⟩ := Recording.step_eq hs
  have hb : σ.tracker.bucket? = t.bucket? := hi.tracker ▸ bucket?_applyAll t _
  obtain ⟨d, he, ht, hok, hsamples⟩ :=
    recordStep_stepOk hp (hi.threads th (List.getElem?_mem hth)) hb hr
  refine ⟨?_, ?_, ?_⟩
  · show tracker = applyAll t ((σ.threads.set a.thread _).flatMap Recorder.effects)
    rw [applyAll_perm (flatMap_set_perm _ hth he), applyAll_append, ← Recording.effects,
      ← hi.tracker, ht]
  · exact (map_set_of_eq _ hth hsamples).trans hi.programs
  · intro th' hth'
    rcases List.mem_or_eq_of_mem_set hth' with hth' | rfl
    · exact hi.threads th' hth'
    · exact hok

theorem Inv.advance {t : LatencyTracker} {programs : List (List UInt64)} {σ : Recording}
    (hi : Inv t programs σ) (a : Action) : Inv t programs (σ.advance a) := by
  unfold Recording.advance
  cases hs : σ.step a with
  | none => exact hi
  | some σ' => exact hi.step hs

theorem execution_inv (t : LatencyTracker) (programs : List (List UInt64))
    (sched : Nat → Action) (n : Nat) : Inv t programs (execution t programs sched n) := by
  induction n with
  | zero => exact Inv.start t programs
  | succ n ih => exact ih.advance (sched n)

/-! ## Every interleaving records as sequential calls do -/

theorem recordEffects_flatten (programs : List (List UInt64)) :
    recordEffects programs.flatten = programs.flatMap recordEffects := by
  induction programs with
  | nil => rfl
  | cons p programs ih => rw [List.flatten_cons, recordEffects_append, ih, List.flatMap_cons]

/-- Once every call has returned, the tracker holds all five effects of every sample, and every
sample was accepted. -/
theorem Inv.returned {t : LatencyTracker} {programs : List (List UInt64)} {σ : Recording}
    (hi : Inv t programs σ) (hret : ∀ th ∈ σ.threads, th.pending = []) :
    σ.tracker = applyAll t (recordEffects programs.flatten) ∧ ∀ v ∈ programs.flatten, t.Accepts v := by
  have hrec : σ.threads.map Recorder.recorded = programs := by
    rw [← hi.programs]
    exact List.map_congr_left fun th h => by rw [hret th h, List.append_nil]
  subst hrec
  refine ⟨?_, ?_⟩
  · rw [hi.tracker, recordEffects_flatten, List.flatMap_map]
    congr 1
    exact List.flatMap_congr fun th h => by simp [Recorder.effects, hret th h]
  · simp only [List.mem_flatten, List.mem_map]
    rintro v ⟨_, ⟨th, hth, rfl⟩, hv⟩
    exact (hi.threads th hth).1 v hv

/-- **Concurrent recording is sequential recording.** Take any tracker, any threads recording
any lists of samples, and any schedule, spurious compare-and-swap failures included, after
which every call has returned. The tracker is then what recording all the samples one after
another gives, in every order. So the minimum is at most every sample and the first minimum and
is one of them, the maximum likewise, `total_samples_` and `total_latency_` grew by the number
and the sum of the samples, and the histogram's sum grew as `total_samples_` did. -/
theorem record_interleaving_sequential (t : LatencyTracker) (programs : List (List UInt64))
    (sched : Nat → Action) (T : Nat)
    (hreturned : ∀ th ∈ (execution t programs sched T).threads, th.pending = []) :
    (∀ samples : List UInt64, samples.Perm programs.flatten →
      samples.foldlM LatencyTracker.record t = some (execution t programs sched T).tracker) ∧
    ((∀ v ∈ programs.flatten, (execution t programs sched T).tracker.minLatency ≤ v) ∧
      (execution t programs sched T).tracker.minLatency ≤ t.minLatency ∧
      ((execution t programs sched T).tracker.minLatency = t.minLatency ∨
        (execution t programs sched T).tracker.minLatency ∈ programs.flatten)) ∧
    ((∀ v ∈ programs.flatten, v ≤ (execution t programs sched T).tracker.maxLatency) ∧
      t.maxLatency ≤ (execution t programs sched T).tracker.maxLatency ∧
      ((execution t programs sched T).tracker.maxLatency = t.maxLatency ∨
        (execution t programs sched T).tracker.maxLatency ∈ programs.flatten)) ∧
    (execution t programs sched T).tracker.totalSamples =
      t.totalSamples + UInt64.ofNat programs.flatten.length ∧
    (execution t programs sched T).tracker.totalLatency = t.totalLatency + programs.flatten.sum ∧
    (execution t programs sched T).tracker.histogram.sum -
      (execution t programs sched T).tracker.totalSamples = t.histogram.sum - t.totalSamples := by
  obtain ⟨htracker, hacc⟩ := (execution_inv t programs sched T).returned hreturned
  have hseq : ∀ samples : List UInt64, samples.Perm programs.flatten →
      samples.foldlM LatencyTracker.record t = some (execution t programs sched T).tracker := by
    intro samples hperm
    rw [foldlM_record_perm t hperm, foldlM_record, if_pos hacc, htracker]
  exact ⟨hseq, foldlM_record_cells (hseq _ (List.Perm.refl _))⟩

/-- Two threads record `5` and `7` into three buckets of `10` ns. Both load `min_latency_`;
the first one's compare-and-swap stores `5` and the second one's fails and leaves its loop. The
second thread's compare-and-swap on `max_latency_` fails spuriously once, then stores `7`, and
the first one's fails and leaves its loop. -/
def contendedSchedule (n : Nat) : Action :=
  ([⟨0, false⟩, ⟨1, false⟩, ⟨0, false⟩, ⟨1, false⟩, ⟨1, false⟩, ⟨1, true⟩, ⟨0, false⟩,
    ⟨1, false⟩, ⟨0, false⟩, ⟨0, false⟩, ⟨0, false⟩, ⟨0, false⟩, ⟨1, false⟩, ⟨1, false⟩,
    ⟨1, false⟩] : List Action).getD n ⟨0, false⟩

theorem record_interleaving_contended :
    (∀ th ∈ (execution ⟨10, [0, 0, 0], 18446744073709551615, 0, 0, 0⟩ [[5], [7]]
      contendedSchedule 15).threads, th.pending = []) ∧
    [7, 5].foldlM LatencyTracker.record ⟨10, [0, 0, 0], 18446744073709551615, 0, 0, 0⟩ =
      some (execution ⟨10, [0, 0, 0], 18446744073709551615, 0, 0, 0⟩ [[5], [7]]
        contendedSchedule 15).tracker :=
  have hreturned : ∀ th ∈ (execution ⟨10, [0, 0, 0], 18446744073709551615, 0, 0, 0⟩ [[5], [7]]
      contendedSchedule 15).threads, th.pending = [] := by decide
  ⟨hreturned, (record_interleaving_sequential _ _ _ _ hreturned).1 [7, 5] (.swap 5 7 [])⟩

end FeedHandler.Perf

import FeedHandler.Cache.SymbolCache

/-! The seqlock of one `SymbolCache` slot under every interleaving. The slot is shared memory
accessed in atomic steps under sequential consistency, with the counter unbounded. One writer
runs a list of `update_*` calls (`program`), each as `AtomicMarketState.write` does it:
load the counter `s`, store `s + 1`, the call's stores to `data` one at a time, store `s + 2`.
Any number of readers run `get_snapshot`: load `seq1`, retry if odd, load the fields of `data`
one at a time in any order, load `seq2`, return the copy if `seq1 = seq2`, else retry. A
scheduler picks which thread moves at each instant (`execution`).

A reader in the middle of its copy carries, as a ghost, the data it saw when it loaded `seq1`.
`Inv` holds at every instant: while the counter is still `seq1` the data is that ghost and every
field copied holds it. So a returned snapshot is the data at the instant of the `seq1` load,
when no update had begun writing, and that data is the state after a whole number of the
writer's calls (`getSnapshot_consistent`). When the writer is idle the slot is the one the
sequential model computes (`Seqlock.toAtomic_of_idle`). -/

namespace FeedHandler.Cache
open Protocol
open scoped UInt64.CommRing

/-! ## Fields of the snapshot -/

inductive Field
  | bestBid | bestAsk | bidQuantity | askQuantity | lastTradedPrice | lastTradedQuantity
  | lastUpdateTime | updateCount
  deriving DecidableEq, Repr

def Field.all : List Field :=
  [.bestBid, .bestAsk, .bidQuantity, .askQuantity, .lastTradedPrice, .lastTradedQuantity,
    .lastUpdateTime, .updateCount]

/-- `dst` with the field `f` loaded from `src`. -/
def Field.copy : Field → MarketState → MarketState → MarketState
  | .bestBid, src, dst => { dst with bestBid := src.bestBid }
  | .bestAsk, src, dst => { dst with bestAsk := src.bestAsk }
  | .bidQuantity, src, dst => { dst with bidQuantity := src.bidQuantity }
  | .askQuantity, src, dst => { dst with askQuantity := src.askQuantity }
  | .lastTradedPrice, src, dst => { dst with lastTradedPrice := src.lastTradedPrice }
  | .lastTradedQuantity, src, dst => { dst with lastTradedQuantity := src.lastTradedQuantity }
  | .lastUpdateTime, src, dst => { dst with lastUpdateTime := src.lastUpdateTime }
  | .updateCount, src, dst => { dst with updateCount := src.updateCount }

theorem Field.copy_copy_self (f : Field) (src dst : MarketState) :
    f.copy src (f.copy src dst) = f.copy src dst := by
  cases f <;> rfl

theorem Field.copy_comm (f g : Field) (src dst : MarketState) :
    f.copy src (g.copy src dst) = g.copy src (f.copy src dst) := by
  cases f <;> cases g <;> rfl

/-- Loading every field gives the source. -/
theorem Field.copy_all (src dst : MarketState) :
    Field.all.foldl (fun d f => f.copy src d) dst = src := by
  cases src
  rfl

/-- `snapshot` holds `src`'s value in every field outside `fields`. -/
def Agrees (src snapshot : MarketState) (fields : List Field) : Prop :=
  ∀ f, f ∉ fields → f.copy src snapshot = snapshot

theorem Agrees.copy {src snapshot : MarketState} {fields : List Field}
    (h : Agrees src snapshot fields) (f : Field) :
    Agrees src (f.copy src snapshot) (fields.erase f) := by
  intro g hg
  by_cases hgf : g = f
  · subst hgf
    exact Field.copy_copy_self _ _ _
  · rw [Field.copy_comm, h g fun hm => hg ((List.mem_erase_of_ne hgf).mpr hm)]

/-- A snapshot that holds the source in every field is the source. -/
theorem Agrees.eq {src snapshot : MarketState} (h : Agrees src snapshot []) : snapshot = src := by
  have hfix : ∀ fs : List Field, fs.foldl (fun d f => f.copy src d) snapshot = snapshot := by
    intro fs
    induction fs with
    | nil => rfl
    | cons f fs ih => rw [List.foldl_cons, h f (List.not_mem_nil f), ih]
  rw [← hfix Field.all, Field.copy_all]

/-! ## The threads and the shared slot -/

/-- Where the writer is in `update`: `loaded seq` after `seq = sequence.load()`, `storing seq k`
after `sequence.store(seq + 1)` and the first `k` stores to `data`. -/
inductive WriterPc
  | idle
  | loaded (seq : Nat)
  | storing (seq : Nat) (k : Nat)
  deriving DecidableEq, Repr

/-- Where a reader is in `get_snapshot`: `start snapshot` at the top of its loop, with its local
`snapshot`; `copying seq1 snapshot fields seen` after loading an even `seq1`, with `fields` still
to copy and `seen` a ghost, the data at the instant of that load; `done snapshot` after returning
`snapshot`. -/
inductive ReaderPc
  | idle
  | start (snapshot : MarketState)
  | copying (seq1 : Nat) (snapshot : MarketState) (fields : List Field) (seen : MarketState)
  | done (snapshot : MarketState)
  deriving DecidableEq, Repr

/-- The slot's `sequence` and `data`, the writer and the readers; `completed` counts the calls of
its program the writer has finished. -/
structure Seqlock where
  sequence : Nat
  data : MarketState
  writer : WriterPc
  completed : Nat
  readers : List ReaderPc
  deriving DecidableEq, Repr

def Seqlock.init (readers : Nat) : Seqlock := ⟨0, .init, .idle, 0, List.replicate readers .idle⟩

inductive Action
  | writerLoad | writerBegin | writerStore | writerEnd
  | readerCall (r : Nat) | readerLoad1 (r : Nat) | readerCopy (r : Nat) (f : Field)
  | readerLoad2 (r : Nat)
  deriving DecidableEq, Repr

def Seqlock.setReader (σ : Seqlock) (r : Nat) (pc : ReaderPc) : Seqlock :=
  { σ with readers := σ.readers.set r pc }

/-- Whether reader `r` is inside a `get_snapshot` call. -/
def Seqlock.inCall (σ : Seqlock) (r : Nat) : Bool :=
  match σ.readers[r]? with
  | some (.start _) | some (.copying ..) => true
  | _ => false

/-- What reader `r` has returned, if it has. -/
def Seqlock.returned (σ : Seqlock) (r : Nat) : Option MarketState :=
  match σ.readers[r]? with
  | some (.done snapshot) => some snapshot
  | _ => none

/-- Reader `r` returns `x` in the step from `σ` to `σ'`. -/
def Returns (r : Nat) (σ σ' : Seqlock) (x : MarketState) : Prop :=
  σ.returned r = none ∧ σ'.returned r = some x

/-- Whether an update has begun writing and not finished. -/
def Seqlock.writing (σ : Seqlock) : Bool :=
  match σ.writer with
  | .storing .. => true
  | _ => false

section
variable (program : List (Update × UInt64))

/-- The stores to `data` of the writer's call of index `k`. -/
def callStores (k : Nat) : List (MarketState → MarketState) :=
  match program[k]? with
  | some (u, now) => u.stores now
  | none => []

/-- One atomic step of the thread an action names; `none` when it cannot take it. -/
def Seqlock.step (σ : Seqlock) : Action → Option Seqlock
  | .writerLoad =>
    match σ.writer with
    | .idle =>
      if σ.completed < program.length then some { σ with writer := .loaded σ.sequence } else none
    | _ => none
  | .writerBegin =>
    match σ.writer with
    | .loaded seq => some { σ with sequence := seq + 1, writer := .storing seq 0 }
    | _ => none
  | .writerStore =>
    match σ.writer with
    | .storing seq k =>
      match (callStores program σ.completed)[k]? with
      | some store => some { σ with data := store σ.data, writer := .storing seq (k + 1) }
      | none => none
    | _ => none
  | .writerEnd =>
    match σ.writer with
    | .storing seq k =>
      if k = (callStores program σ.completed).length then
        some { σ with sequence := seq + 2, writer := .idle, completed := σ.completed + 1 }
      else none
    | _ => none
  | .readerCall r =>
    match σ.readers[r]? with
    | some .idle | some (.done _) => some (σ.setReader r (.start .init))
    | _ => none
  | .readerLoad1 r =>
    match σ.readers[r]? with
    | some (.start snapshot) =>
      if σ.sequence % 2 = 1 then some σ
      else some (σ.setReader r (.copying σ.sequence snapshot Field.all σ.data))
    | _ => none
  | .readerCopy r f =>
    match σ.readers[r]? with
    | some (.copying seq1 snapshot fields seen) =>
      if f ∈ fields then
        some (σ.setReader r (.copying seq1 (f.copy σ.data snapshot) (fields.erase f) seen))
      else none
    | _ => none
  | .readerLoad2 r =>
    match σ.readers[r]? with
    | some (.copying seq1 snapshot [] _) =>
      some (σ.setReader r (if seq1 = σ.sequence then .done snapshot else .start snapshot))
    | _ => none

/-- The scheduled thread takes its step if it can; otherwise nothing happens. -/
def Seqlock.advance (σ : Seqlock) (a : Action) : Seqlock :=
  (σ.step program a).getD σ

/-- The execution a scheduler picks, instant by instant. -/
def execution (readers : Nat) (sched : Nat → Action) : Nat → Seqlock
  | 0 => Seqlock.init readers
  | t + 1 => (execution readers sched t).advance program (sched t)

/-- The data after the writer's first calls, each applied whole. -/
def stateAfter (calls : List (Update × UInt64)) : MarketState :=
  calls.foldl (fun d call => (call.1.stores call.2).foldl (fun d store => store d) d) .init

/-! ## The invariant -/

/-- Where the writer can be, and what the slot holds there. -/
def WriterOk (σ : Seqlock) : Prop :=
  match σ.writer with
  | .idle =>
    σ.sequence = 2 * σ.completed ∧ σ.completed ≤ program.length ∧
      σ.data = stateAfter (program.take σ.completed)
  | .loaded seq =>
    seq = σ.sequence ∧ σ.sequence = 2 * σ.completed ∧ σ.completed < program.length ∧
      σ.data = stateAfter (program.take σ.completed)
  | .storing seq k =>
    seq = 2 * σ.completed ∧ σ.sequence = seq + 1 ∧ σ.completed < program.length ∧
      k ≤ (callStores program σ.completed).length ∧
      σ.data = ((callStores program σ.completed).take k).foldl (fun d store => store d)
        (stateAfter (program.take σ.completed))

end

/-- A reader that has loaded an even `seq1`: while the counter still reads `seq1`, the data is
what it saw, and every field it has copied holds that. -/
def ReaderOk (sequence : Nat) (data : MarketState) : ReaderPc → Prop
  | .copying seq1 snapshot fields seen =>
    seq1 % 2 = 0 ∧ seq1 ≤ sequence ∧ (sequence = seq1 → data = seen ∧ Agrees seen snapshot fields)
  | _ => True

structure Inv (program : List (Update × UInt64)) (σ : Seqlock) : Prop where
  writer : WriterOk program σ
  readers : ∀ pc ∈ σ.readers, ReaderOk σ.sequence σ.data pc

/-! ## What each step does -/

section
variable {program : List (Update × UInt64)} {σ σ' : Seqlock}

theorem Seqlock.step_writerLoad (hs : σ.step program .writerLoad = some σ') :
    σ.writer = .idle ∧ σ.completed < program.length ∧ σ' = { σ with writer := .loaded σ.sequence } := by
  simp only [Seqlock.step] at hs
  split at hs
  · split_ifs at hs with hc
    exact ⟨‹_›, hc, (Option.some.inj hs).symm⟩
  · cases hs

theorem Seqlock.step_writerBegin (hs : σ.step program .writerBegin = some σ') :
    ∃ seq, σ.writer = .loaded seq ∧ σ' = { σ with sequence := seq + 1, writer := .storing seq 0 } := by
  simp only [Seqlock.step] at hs
  split at hs
  · exact ⟨_, ‹_›, (Option.some.inj hs).symm⟩
  · cases hs

theorem Seqlock.step_writerStore (hs : σ.step program .writerStore = some σ') :
    ∃ seq k store, σ.writer = .storing seq k ∧ (callStores program σ.completed)[k]? = some store ∧
      σ' = { σ with data := store σ.data, writer := .storing seq (k + 1) } := by
  simp only [Seqlock.step] at hs
  split at hs
  · split at hs
    · exact ⟨_, _, _, ‹_›, ‹_›, (Option.some.inj hs).symm⟩
    · cases hs
  · cases hs

theorem Seqlock.step_writerEnd (hs : σ.step program .writerEnd = some σ') :
    ∃ seq, σ.writer = .storing seq (callStores program σ.completed).length ∧
      σ' = { σ with sequence := seq + 2, writer := .idle, completed := σ.completed + 1 } := by
  simp only [Seqlock.step] at hs
  split at hs
  · split_ifs at hs with hk
    exact ⟨_, hk ▸ ‹_›, (Option.some.inj hs).symm⟩
  · cases hs

theorem Seqlock.step_readerCall {r : Nat} (hs : σ.step program (.readerCall r) = some σ') :
    (σ.readers[r]? = some .idle ∨ ∃ x, σ.readers[r]? = some (.done x)) ∧
      σ' = σ.setReader r (.start .init) := by
  simp only [Seqlock.step] at hs
  split at hs
  · exact ⟨.inl ‹_›, (Option.some.inj hs).symm⟩
  · exact ⟨.inr ⟨_, ‹_›⟩, (Option.some.inj hs).symm⟩
  · cases hs

theorem Seqlock.step_readerLoad1 {r : Nat} (hs : σ.step program (.readerLoad1 r) = some σ') :
    ∃ snapshot, σ.readers[r]? = some (.start snapshot) ∧
      (σ.sequence % 2 = 1 ∧ σ' = σ ∨
        σ.sequence % 2 = 0 ∧ σ' = σ.setReader r (.copying σ.sequence snapshot Field.all σ.data)) := by
  simp only [Seqlock.step] at hs
  split at hs
  · split_ifs at hs with hodd
    · exact ⟨_, ‹_›, .inl ⟨hodd, (Option.some.inj hs).symm⟩⟩
    · exact ⟨_, ‹_›, .inr ⟨by omega, (Option.some.inj hs).symm⟩⟩
  · cases hs

theorem Seqlock.step_readerCopy {r : Nat} {f : Field} (hs : σ.step program (.readerCopy r f) = some σ') :
    ∃ seq1 snapshot fields seen, σ.readers[r]? = some (.copying seq1 snapshot fields seen) ∧
      σ' = σ.setReader r (.copying seq1 (f.copy σ.data snapshot) (fields.erase f) seen) := by
  simp only [Seqlock.step] at hs
  split at hs
  · split_ifs at hs
    exact ⟨_, _, _, _, ‹_›, (Option.some.inj hs).symm⟩
  · cases hs

theorem Seqlock.step_readerLoad2 {r : Nat} (hs : σ.step program (.readerLoad2 r) = some σ') :
    ∃ seq1 snapshot seen, σ.readers[r]? = some (.copying seq1 snapshot [] seen) ∧
      σ' = σ.setReader r (if seq1 = σ.sequence then .done snapshot else .start snapshot) := by
  simp only [Seqlock.step] at hs
  split at hs
  · exact ⟨_, _, _, ‹_›, (Option.some.inj hs).symm⟩
  · cases hs

end

/-! ## The invariant holds at every instant -/

@[simp] theorem Seqlock.setReader_sequence (σ : Seqlock) (r : Nat) (pc : ReaderPc) :
    (σ.setReader r pc).sequence = σ.sequence := rfl

@[simp] theorem Seqlock.setReader_data (σ : Seqlock) (r : Nat) (pc : ReaderPc) :
    (σ.setReader r pc).data = σ.data := rfl

@[simp] theorem Seqlock.setReader_writer (σ : Seqlock) (r : Nat) (pc : ReaderPc) :
    (σ.setReader r pc).writer = σ.writer := rfl

@[simp] theorem Seqlock.setReader_completed (σ : Seqlock) (r : Nat) (pc : ReaderPc) :
    (σ.setReader r pc).completed = σ.completed := rfl

theorem Seqlock.getElem?_setReader (σ : Seqlock) (r r' : Nat) (pc : ReaderPc) :
    (σ.setReader r pc).readers[r']? =
      if r = r' then (if r < σ.readers.length then some pc else none) else σ.readers[r']? :=
  List.getElem?_set

/-- The counter moved past a reader's `seq1`: nothing more is claimed of the data. -/
theorem ReaderOk.of_lt {s s' : Nat} {d d' : MarketState} {pc : ReaderPc} (h : ReaderOk s d pc)
    (hs : s < s') : ReaderOk s' d' pc := by
  cases pc with
  | copying seq1 snapshot fields seen =>
    obtain ⟨he, hle, -⟩ := h
    exact ⟨he, by omega, fun heq => absurd heq (by omega)⟩
  | _ => trivial

/-- An odd counter is no reader's `seq1`: the data may change. -/
theorem ReaderOk.of_odd {s : Nat} {d d' : MarketState} {pc : ReaderPc} (h : ReaderOk s d pc)
    (hs : s % 2 = 1) : ReaderOk s d' pc := by
  cases pc with
  | copying seq1 snapshot fields seen =>
    obtain ⟨he, hle, -⟩ := h
    exact ⟨he, hle, fun heq => absurd heq (by omega)⟩
  | _ => trivial

theorem readers_set {l : List ReaderPc} {P : ReaderPc → Prop} (h : ∀ pc ∈ l, P pc) (r : Nat)
    {x : ReaderPc} (hx : P x) : ∀ pc ∈ l.set r x, P pc := fun pc hpc =>
  (List.mem_or_eq_of_mem_set hpc).elim (h pc) fun h => h ▸ hx

theorem stateAfter_take_succ (program : List (Update × UInt64)) {c : Nat} (hc : c < program.length) :
    stateAfter (program.take (c + 1)) =
      (callStores program c).foldl (fun d store => store d) (stateAfter (program.take c)) := by
  rw [List.take_succ, List.getElem?_eq_getElem hc, stateAfter, Option.toList_some, List.foldl_append]
  simp [callStores, List.getElem?_eq_getElem hc, stateAfter]

theorem Inv.init (program : List (Update × UInt64)) (n : Nat) : Inv program (Seqlock.init n) where
  writer := ⟨rfl, Nat.zero_le _, rfl⟩
  readers pc hpc := by
    rw [Seqlock.init, List.mem_replicate] at hpc
    rw [hpc.2]
    trivial

section
variable {program : List (Update × UInt64)} {σ σ' : Seqlock}

theorem Inv.step {a : Action} (h : Inv program σ) (hs : σ.step program a = some σ') :
    Inv program σ' := by
  obtain ⟨hw, hr⟩ := h
  cases a with
  | writerLoad =>
    obtain ⟨hidle, hc, rfl⟩ := Seqlock.step_writerLoad hs
    simp only [WriterOk, hidle] at hw
    exact ⟨⟨rfl, hw.1, hc, hw.2.2⟩, hr⟩
  | writerBegin =>
    obtain ⟨seq, hl, rfl⟩ := Seqlock.step_writerBegin hs
    simp only [WriterOk, hl] at hw
    obtain ⟨rfl, hseq, hc, hd⟩ := hw
    exact ⟨⟨hseq, rfl, hc, Nat.zero_le _, hd⟩, fun pc hpc => (hr pc hpc).of_lt (Nat.lt_succ_self _)⟩
  | writerStore =>
    obtain ⟨seq, k, store, hst, hk, rfl⟩ := Seqlock.step_writerStore hs
    simp only [WriterOk, hst] at hw
    obtain ⟨hseq, hs1, hc, -, hd⟩ := hw
    obtain ⟨hlt, hget⟩ := List.getElem?_eq_some_iff.mp hk
    refine ⟨⟨hseq, hs1, hc, hlt, ?_⟩, fun pc hpc => (hr pc hpc).of_odd (by omega)⟩
    rw [List.take_succ, List.getElem?_eq_getElem hlt, Option.toList_some, List.foldl_append, hd,
      hget]
    rfl
  | writerEnd =>
    obtain ⟨seq, hst, rfl⟩ := Seqlock.step_writerEnd hs
    simp only [WriterOk, hst] at hw
    obtain ⟨hseq, hs1, hc, -, hd⟩ := hw
    refine ⟨⟨by simp only; omega, hc, ?_⟩, fun pc hpc => (hr pc hpc).of_lt (by simp only; omega)⟩
    rw [List.take_length] at hd
    exact hd.trans (stateAfter_take_succ program hc).symm
  | readerCall r =>
    obtain ⟨-, rfl⟩ := Seqlock.step_readerCall hs
    exact ⟨hw, readers_set hr r trivial⟩
  | readerLoad1 r =>
    obtain ⟨snapshot, -, ⟨-, rfl⟩ | ⟨heven, rfl⟩⟩ := Seqlock.step_readerLoad1 hs
    · exact ⟨hw, hr⟩
    · exact ⟨hw, readers_set hr r ⟨heven, le_rfl, fun _ => ⟨rfl, fun f hf => absurd
        (by cases f <;> decide) hf⟩⟩⟩
  | readerCopy r f =>
    obtain ⟨seq1, snapshot, fields, seen, hpc, rfl⟩ := Seqlock.step_readerCopy hs
    obtain ⟨he, hle, hagree⟩ := hr _ (List.getElem?_mem hpc)
    refine ⟨hw, readers_set hr r ⟨he, hle, fun heq => ?_⟩⟩
    obtain ⟨hd, ha⟩ := hagree heq
    exact ⟨hd, hd ▸ ha.copy f⟩
  | readerLoad2 r =>
    obtain ⟨seq1, snapshot, seen, -, rfl⟩ := Seqlock.step_readerLoad2 hs
    exact ⟨hw, readers_set hr r (by split_ifs <;> trivial)⟩

theorem Inv.advance {a : Action} (h : Inv program σ) : Inv program (σ.advance program a) := by
  unfold Seqlock.advance
  cases hs : σ.step program a with
  | none => exact h
  | some σ' => exact h.step hs

theorem execution_inv (readers : Nat) (sched : Nat → Action) (t : Nat) :
    Inv program (execution program readers sched t) := by
  induction t with
  | zero => exact Inv.init program readers
  | succ t ih => exact ih.advance

end

/-! ## Where a reader's copy comes from -/

section
variable {program : List (Update × UInt64)} {σ σ' : Seqlock}

theorem Seqlock.advance_cases (σ : Seqlock) (a : Action) :
    σ.step program a = some (σ.advance program a) ∨ σ.advance program a = σ := by
  unfold Seqlock.advance
  cases σ.step program a with
  | none => exact .inr rfl
  | some σ' => exact .inl rfl

/-- A reader copying after a step was copying from the same load before it, or has just made
that load. -/
theorem Seqlock.step_copying {a : Action} (hs : σ.step program a = some σ') {r seq1 : Nat}
    {snapshot seen : MarketState} {fields : List Field}
    (hr : σ'.readers[r]? = some (.copying seq1 snapshot fields seen)) :
    (∃ snapshot' fields', σ.readers[r]? = some (.copying seq1 snapshot' fields' seen)) ∨
      (σ'.sequence = seq1 ∧ σ'.data = seen) := by
  cases a with
  | writerLoad => obtain ⟨-, -, rfl⟩ := Seqlock.step_writerLoad hs; exact .inl ⟨_, _, hr⟩
  | writerBegin => obtain ⟨_, -, rfl⟩ := Seqlock.step_writerBegin hs; exact .inl ⟨_, _, hr⟩
  | writerStore => obtain ⟨_, _, _, -, -, rfl⟩ := Seqlock.step_writerStore hs; exact .inl ⟨_, _, hr⟩
  | writerEnd => obtain ⟨_, -, rfl⟩ := Seqlock.step_writerEnd hs; exact .inl ⟨_, _, hr⟩
  | readerCall r' =>
    obtain ⟨-, rfl⟩ := Seqlock.step_readerCall hs
    rw [Seqlock.getElem?_setReader] at hr
    split_ifs at hr <;> first | cases hr | exact .inl ⟨_, _, hr⟩
  | readerLoad1 r' =>
    obtain ⟨snapshot', -, ⟨-, rfl⟩ | ⟨-, rfl⟩⟩ := Seqlock.step_readerLoad1 hs
    · exact .inl ⟨_, _, hr⟩
    · rw [Seqlock.getElem?_setReader] at hr
      split_ifs at hr
      · cases hr
        exact .inr ⟨rfl, rfl⟩
      · exact .inl ⟨_, _, hr⟩
  | readerCopy r' f =>
    obtain ⟨seq1', snapshot', fields', seen', hpc, rfl⟩ := Seqlock.step_readerCopy hs
    rw [Seqlock.getElem?_setReader] at hr
    split_ifs at hr with heq
    · cases hr
      subst heq
      exact .inl ⟨_, _, hpc⟩
    · exact .inl ⟨_, _, hr⟩
  | readerLoad2 r' =>
    obtain ⟨seq1', snapshot', seen', -, rfl⟩ := Seqlock.step_readerLoad2 hs
    rw [Seqlock.getElem?_setReader] at hr
    split_ifs at hr <;> first | cases hr | exact .inl ⟨_, _, hr⟩

theorem Seqlock.returned_setReader_ne (σ : Seqlock) {r r' : Nat} (h : r' ≠ r) (pc : ReaderPc) :
    (σ.setReader r' pc).returned r = σ.returned r := by
  simp only [Seqlock.returned, Seqlock.getElem?_setReader, if_neg h]

/-- A reader that returns in a step has finished its copy, and the counter still reads its
`seq1`. -/
theorem Seqlock.step_returned {a : Action} (hs : σ.step program a = some σ') {r : Nat}
    {x : MarketState} (hnone : σ.returned r = none) (hx : σ'.returned r = some x) :
    ∃ seen, σ.readers[r]? = some (.copying σ.sequence x [] seen) := by
  have same : ∀ {τ : Seqlock}, τ.readers = σ.readers → τ.returned r = σ.returned r :=
    fun h => by simp only [Seqlock.returned, h]
  have set : ∀ r' pc, (σ.setReader r' pc).returned r = some x → r' = r ∧ pc = .done x := by
    intro r' pc h
    by_cases hr : r' = r
    · subst hr
      simp only [Seqlock.returned, Seqlock.getElem?_setReader, if_true] at h
      split_ifs at h
      split at h <;> simp_all
    · rw [Seqlock.returned_setReader_ne σ hr, hnone] at h
      cases h
  have kept : σ'.readers = σ.readers → False := fun h => by
    rw [same h, hnone] at hx
    cases hx
  cases a with
  | writerLoad => obtain ⟨-, -, rfl⟩ := Seqlock.step_writerLoad hs; exact (kept rfl).elim
  | writerBegin => obtain ⟨_, -, rfl⟩ := Seqlock.step_writerBegin hs; exact (kept rfl).elim
  | writerStore => obtain ⟨_, _, _, -, -, rfl⟩ := Seqlock.step_writerStore hs; exact (kept rfl).elim
  | writerEnd => obtain ⟨_, -, rfl⟩ := Seqlock.step_writerEnd hs; exact (kept rfl).elim
  | readerCall r' =>
    obtain ⟨-, rfl⟩ := Seqlock.step_readerCall hs
    cases (set _ _ hx).2
  | readerLoad1 r' =>
    obtain ⟨_, -, ⟨-, rfl⟩ | ⟨-, rfl⟩⟩ := Seqlock.step_readerLoad1 hs
    · rw [hnone] at hx
      cases hx
    · cases (set _ _ hx).2
  | readerCopy r' f =>
    obtain ⟨_, _, _, _, -, rfl⟩ := Seqlock.step_readerCopy hs
    cases (set _ _ hx).2
  | readerLoad2 r' =>
    obtain ⟨seq1, snapshot, seen, hpc, rfl⟩ := Seqlock.step_readerLoad2 hs
    obtain ⟨rfl, hpc'⟩ := set _ _ hx
    split_ifs at hpc' with heq
    cases hpc'
    exact ⟨seen, heq ▸ hpc⟩

theorem Seqlock.inCall_of_copying {r seq1 : Nat} {snapshot seen : MarketState} {fields : List Field}
    (h : σ.readers[r]? = some (.copying seq1 snapshot fields seen)) : σ.inCall r = true := by
  simp [Seqlock.inCall, h]

/-- **The origin of a copy.** A reader copying at instant `t` loaded its `seq1` at an instant
`k ≤ t` of the same call, when the counter read `seq1` and the data was its ghost. -/
theorem copying_origin (readers : Nat) (sched : Nat → Action) (r : Nat) (t : Nat) {seq1 : Nat}
    {snapshot seen : MarketState} {fields : List Field}
    (h : (execution program readers sched t).readers[r]? = some (.copying seq1 snapshot fields seen)) :
    ∃ k ≤ t, (execution program readers sched k).sequence = seq1 ∧
      (execution program readers sched k).data = seen ∧
      ∀ m, k ≤ m → m ≤ t → (execution program readers sched m).inCall r = true := by
  induction t generalizing snapshot fields with
  | zero =>
    simp only [execution, Seqlock.init, List.getElem?_replicate] at h
    split_ifs at h
    cases h
  | succ t ih =>
    have extend : ∀ {snapshot' fields'}, (execution program readers sched t).readers[r]? =
        some (.copying seq1 snapshot' fields' seen) →
        ∃ k ≤ t + 1, (execution program readers sched k).sequence = seq1 ∧
          (execution program readers sched k).data = seen ∧
          ∀ m, k ≤ m → m ≤ t + 1 → (execution program readers sched m).inCall r = true := by
      intro snapshot' fields' h'
      obtain ⟨k, hk, hs, hd, hcall⟩ := ih h'
      refine ⟨k, by omega, hs, hd, fun m hkm hm => ?_⟩
      rcases Nat.lt_or_ge m (t + 1) with hlt | hge
      · exact hcall m hkm (by omega)
      · rw [show m = t + 1 by omega]
        exact Seqlock.inCall_of_copying h
    rcases @Seqlock.advance_cases program (execution program readers sched t) (sched t) with hs | hs
    · rcases Seqlock.step_copying hs h with ⟨_, _, h'⟩ | ⟨hseq, hdata⟩
      · exact extend h'
      · refine ⟨t + 1, le_rfl, hseq, hdata, fun m hkm hm => ?_⟩
        rw [show m = t + 1 by omega]
        exact Seqlock.inCall_of_copying h
    · exact extend (by rw [← hs]; exact h)

end

/-! ## Snapshots -/

section
variable {program : List (Update × UInt64)} {σ σ' : Seqlock}

/-- With the counter even, no update is writing and the data is the state after the calls the
writer has finished. -/
theorem Inv.of_even (h : Inv program σ) (he : σ.sequence % 2 = 0) :
    σ.writing = false ∧ σ.sequence = 2 * σ.completed ∧ σ.completed ≤ program.length ∧
      σ.data = stateAfter (program.take σ.completed) := by
  have hw := h.writer
  unfold Seqlock.writing
  cases hwr : σ.writer with
  | idle =>
    simp only [WriterOk, hwr] at hw
    exact ⟨rfl, hw⟩
  | loaded seq =>
    simp only [WriterOk, hwr] at hw
    exact ⟨rfl, hw.2.1, hw.2.2.1.le, hw.2.2.2⟩
  | storing seq k =>
    simp only [WriterOk, hwr] at hw
    omega

theorem Seqlock.completed_step_le {a : Action} (hs : σ.step program a = some σ') :
    σ.completed ≤ σ'.completed := by
  cases a with
  | writerLoad => obtain ⟨-, -, rfl⟩ := Seqlock.step_writerLoad hs; exact le_rfl
  | writerBegin => obtain ⟨_, -, rfl⟩ := Seqlock.step_writerBegin hs; exact le_rfl
  | writerStore => obtain ⟨_, _, _, -, -, rfl⟩ := Seqlock.step_writerStore hs; exact le_rfl
  | writerEnd => obtain ⟨_, -, rfl⟩ := Seqlock.step_writerEnd hs; exact Nat.le_succ _
  | readerCall r => obtain ⟨-, rfl⟩ := Seqlock.step_readerCall hs; exact le_rfl
  | readerLoad1 r =>
    obtain ⟨_, -, ⟨-, rfl⟩ | ⟨-, rfl⟩⟩ := Seqlock.step_readerLoad1 hs <;> exact le_rfl
  | readerCopy r f => obtain ⟨_, _, _, _, -, rfl⟩ := Seqlock.step_readerCopy hs; exact le_rfl
  | readerLoad2 r => obtain ⟨_, _, _, -, rfl⟩ := Seqlock.step_readerLoad2 hs; exact le_rfl

/-- The writer's count of finished calls never goes back. -/
theorem execution_completed_mono (readers : Nat) (sched : Nat → Action) {a b : Nat} (hab : a ≤ b) :
    (execution program readers sched a).completed ≤ (execution program readers sched b).completed := by
  induction b, hab using Nat.le_induction with
  | base => exact le_rfl
  | succ b _ ih =>
    refine ih.trans ?_
    rcases @Seqlock.advance_cases program (execution program readers sched b) (sched b) with hs | hs
    · exact Seqlock.completed_step_le hs
    · exact (congrArg Seqlock.completed hs).ge

/-- `update_count` counts the calls applied. -/
theorem stateAfter_updateCount (calls : List (Update × UInt64)) :
    (stateAfter calls).updateCount = UInt64.ofNat calls.length := by
  have : ∀ (d : MarketState) (calls : List (Update × UInt64)),
      (calls.foldl (fun d call => (call.1.stores call.2).foldl (fun d store => store d) d) d).updateCount =
        d.updateCount + UInt64.ofNat calls.length := by
    intro d calls
    induction calls generalizing d with
    | nil => exact (add_zero _).symm
    | cons call calls ih =>
      rw [List.foldl_cons, ih, Update.updateCount_stores, List.length_cons, add_assoc,
        add_comm 1, uint64_ofNat_succ]
  exact (this _ calls).trans (zero_add _)

/-- A reader returns the data it saw at its last `seq1` load, taken at an even counter. -/
theorem Seqlock.inCall_of_returned {r : Nat} {x : MarketState} (h : σ.returned r = some x) :
    σ.inCall r = false := by
  unfold Seqlock.returned at h
  unfold Seqlock.inCall
  split at h <;> simp_all

theorem returns_origin (readers : Nat) (sched : Nat → Action) {r t : Nat} {x : MarketState}
    (hret : Returns r (execution program readers sched t) (execution program readers sched (t + 1)) x) :
    ∃ k ≤ t, (execution program readers sched k).sequence % 2 = 0 ∧
      (execution program readers sched k).data = x ∧
      ∀ m, k ≤ m → m ≤ t → (execution program readers sched m).inCall r = true := by
  obtain ⟨hnone, hx⟩ := hret
  rcases @Seqlock.advance_cases program (execution program readers sched t) (sched t) with hs | hs
  · obtain ⟨seen, hpc⟩ := Seqlock.step_returned (hs.trans (congrArg some rfl)) hnone hx
    obtain ⟨he, -, hagree⟩ := (execution_inv readers sched t).readers _ (List.getElem?_mem hpc)
    obtain ⟨-, hx'⟩ := hagree rfl
    obtain ⟨k, hk, hseq, hdata, hcall⟩ := copying_origin readers sched r t hpc
    exact ⟨k, hk, hseq ▸ he, hdata.trans hx'.eq.symm, hcall⟩
  · rw [execution, hs, hnone] at hx
    cases hx

end

/-- **No torn snapshot.** In every execution of one writer running any list of `update_*`
calls and any number of readers running `get_snapshot`, under any schedule:

* a snapshot reader `r` returns at instant `t + 1` is the slot's data at an instant `k ≤ t`
  inside the same call (reader `r` is in the call from `k` to `t`) at which the counter was
  even, so that no update had begun writing; that data is the state after the first `v` calls
  of the writer, each applied whole, and `v` is half the counter;
* of two snapshots reader `r` returns, the later is the state after at least as many calls as
  the earlier, and each one's `update_count` is its number of calls `v`, a `uint64`: the
  counts are non-decreasing while fewer than `2^64` calls have been made. -/
theorem getSnapshot_consistent (program : List (Update × UInt64)) (readers : Nat)
    (sched : Nat → Action) (r : Nat) :
    (∀ t x, Returns r (execution program readers sched t) (execution program readers sched (t + 1)) x →
      ∃ k ≤ t, (∀ m, k ≤ m → m ≤ t → (execution program readers sched m).inCall r = true) ∧
        (execution program readers sched k).writing = false ∧
        (execution program readers sched k).data = x ∧
        x = stateAfter (program.take ((execution program readers sched k).sequence / 2))) ∧
    (∀ t₁ t₂ x₁ x₂, t₁ < t₂ →
      Returns r (execution program readers sched t₁) (execution program readers sched (t₁ + 1)) x₁ →
      Returns r (execution program readers sched t₂) (execution program readers sched (t₂ + 1)) x₂ →
      ∃ v₁ v₂, v₁ ≤ v₂ ∧ v₂ ≤ program.length ∧
        x₁ = stateAfter (program.take v₁) ∧ x₂ = stateAfter (program.take v₂) ∧
        x₁.updateCount = UInt64.ofNat v₁ ∧ x₂.updateCount = UInt64.ofNat v₂ ∧
        (program.length < 2 ^ 64 → x₁.updateCount ≤ x₂.updateCount)) := by
  have snapshot : ∀ t x, Returns r (execution program readers sched t)
      (execution program readers sched (t + 1)) x →
      ∃ k ≤ t, (∀ m, k ≤ m → m ≤ t → (execution program readers sched m).inCall r = true) ∧
        (execution program readers sched k).writing = false ∧
        (execution program readers sched k).sequence = 2 * (execution program readers sched k).completed ∧
        (execution program readers sched k).completed ≤ program.length ∧
        (execution program readers sched k).data = x ∧
        x = stateAfter (program.take (execution program readers sched k).completed) := by
    intro t x hret
    obtain ⟨k, hk, he, hdata, hcall⟩ := returns_origin readers sched hret
    obtain ⟨hw, hseq, hc, hd⟩ := (execution_inv readers sched k).of_even he
    exact ⟨k, hk, hcall, hw, hseq, hc, hdata, hdata.symm.trans hd⟩
  refine ⟨fun t x hret => ?_, fun t₁ t₂ x₁ x₂ hlt h₁ h₂ => ?_⟩
  · obtain ⟨k, hk, hcall, hw, hseq, -, hdata, hx⟩ := snapshot t x hret
    exact ⟨k, hk, hcall, hw, hdata, by rw [hseq, Nat.mul_div_cancel_left _ two_pos]; exact hx⟩
  · obtain ⟨k₁, hk₁, -, -, -, hc₁, -, hx₁⟩ := snapshot t₁ x₁ h₁
    obtain ⟨k₂, hk₂, hcall₂, -, -, hc₂, -, hx₂⟩ := snapshot t₂ x₂ h₂
    have hk : t₁ < k₂ := by
      by_contra hle
      have := hcall₂ (t₁ + 1) (by omega) (by omega)
      rw [Seqlock.inCall_of_returned h₁.2] at this
      cases this
    have hv := @execution_completed_mono program readers sched k₁ k₂ (by omega)
    have count : ∀ v, v ≤ program.length → (stateAfter (program.take v)).updateCount = UInt64.ofNat v :=
      fun v hv => by rw [stateAfter_updateCount, List.length_take, Nat.min_eq_left hv]
    refine ⟨_, _, hv, hc₂, hx₁, hx₂, hx₁ ▸ count _ hc₁, hx₂ ▸ count _ hc₂, fun hlen => ?_⟩
    rw [hx₁, hx₂, count _ hc₁, count _ hc₂]
    apply UInt64.le_def.mpr
    apply BitVec.le_def.mpr
    show (UInt64.ofNat _).toNat ≤ (UInt64.ofNat _).toNat
    simp only [uint64_toNat_ofNat]
    omega

/-- The writer loads the counter for its first call and does nothing more while reader 0 makes
a whole `get_snapshot` call: an update is in progress at every instant of the call, and the
snapshot is the untouched initial state. -/
theorem getSnapshot_during_update :
    let e := execution [(.bid ⟨1⟩ 1, 0)] 1 fun t =>
      ([Action.writerLoad, .readerCall 0, .readerLoad1 0] ++ Field.all.map (Action.readerCopy 0) ++
        [Action.readerLoad2 0]).getD t (.readerLoad2 0)
    (e 1).inCall 0 = false ∧ Returns 0 (e 11) (e 12) .init ∧ ∀ m, m < 12 → (e (m + 1)).writer ≠ .idle :=
  ⟨by decide, ⟨by decide, by decide⟩, by decide⟩

/-! ## The sequential model at idle instants -/

/-- The slot as the sequential model keeps it, with the counter a `uint64`. -/
def Seqlock.toAtomic (σ : Seqlock) : AtomicMarketState := ⟨UInt64.ofNat σ.sequence, σ.data⟩

/-- The sequential model's slot after the writer's calls, one `AtomicMarketState.write` each. -/
def writeAll (calls : List (Update × UInt64)) : AtomicMarketState :=
  calls.foldl (fun state call => state.write (call.1.stores call.2)) .init

theorem writeAll_eq (calls : List (Update × UInt64)) :
    writeAll calls = ⟨UInt64.ofNat (2 * calls.length), stateAfter calls⟩ := by
  have : ∀ (calls : List (Update × UInt64)) (state : AtomicMarketState),
      calls.foldl (fun state call => state.write (call.1.stores call.2)) state =
        ⟨state.sequence + UInt64.ofNat (2 * calls.length),
          calls.foldl (fun d call => (call.1.stores call.2).foldl (fun d store => store d) d) state.data⟩ := by
    intro calls
    induction calls with
    | nil => intro state; simp
    | cons call calls ih =>
      intro state
      rw [List.foldl_cons, ih, AtomicMarketState.write_eq, List.foldl_cons, List.length_cons]
      congr 1
      change state.sequence + 2 + ((2 * calls.length : Nat) : UInt64) =
        state.sequence + ((2 * (calls.length + 1) : Nat) : UInt64)
      push_cast
      ring
  exact (this calls .init).trans (by simp only [AtomicMarketState.init, zero_add]; rfl)

/-- **The concurrent slot refines the sequential one.** Whenever the writer is idle, the slot
is the sequential model's slot after the calls the writer has finished. -/
theorem Seqlock.toAtomic_of_idle {program : List (Update × UInt64)} {σ : Seqlock}
    (h : Inv program σ) (hidle : σ.writer = .idle) :
    σ.toAtomic = writeAll (program.take σ.completed) := by
  have hw := h.writer
  simp only [WriterOk, hidle] at hw
  obtain ⟨hseq, hc, hd⟩ := hw
  rw [writeAll_eq, List.length_take, Nat.min_eq_left hc, ← hseq, ← hd]
  rfl

end FeedHandler.Cache

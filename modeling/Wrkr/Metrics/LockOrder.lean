import Mathlib.Data.Fintype.Basic
import Wrkr.Lib.Machine
import Wrkr.Lib.WaitGraph
import Wrkr.Metrics.Registry

/-!
# Locks of the registry

Threads that call the registry meet at the `defs` lock and at the shard locks of the `storage`
map. `register` takes a shard inside the `defs` lock and `get_handle` takes `defs` inside a shard,
so the two can block each other for good. `no_deadlock` says that this is the only way: as long as
no `register` comes to insert into a shard while a `get_handle` stands in that shard before its
`defs.read()`, no threads ever wait for each other in a cycle. A step that brings such a pair
about is a deadlock at once.
-/
namespace Wrkr.Metrics

open Wrkr.Lib

namespace LockOrder

/-- The shards of the `storage` map, and the one that a metric is in. Metrics may share one. -/
structure Sharding where
  count : Nat
  shard : MetricId → Fin count

/-- The calls that take locks of the registry. -/
inductive Call
  | register (name : String) (kind : MetricKind)
  | lookupMetric (name : String)
  | getHandle (metric : MetricId) (tags : TagSet)
  | visitSeries (metric : MetricId)
  | summarize
  deriving DecidableEq, Repr

/-- Where a thread stands. A position before a lock is the one from which it is taken; what is
held there is said by `writerBit`, `holdsWrite`, `holdsRead`, `shardRead` and `shardWrite`. -/
inductive Pc
  | idle
  /-- Before `self.defs.write()`. -/
  | registerLock (nameId : KeyId) (kind : MetricKind)
  /-- The writer bit of `defs` is set, its readers have not all left. -/
  | registerPending (nameId : KeyId) (kind : MetricKind)
  | registerLocked (nameId : KeyId) (kind : MetricKind)
  /-- Before the shard lock of `self.storage.insert`. -/
  | registerInsert (id : MetricId)
  | registerInserting (id : MetricId)
  | registerReturn
  /-- Before `self.defs.read()`. -/
  | lookupLock (nameId : KeyId)
  | lookupLocked (nameId : KeyId)
  /-- Before the shard lock of `self.storage.get`. -/
  | getShard (metric : MetricId) (tags : TagSet)
  | getLocked (metric : MetricId) (tags : TagSet)
  /-- Without a series for the tags, before `self.defs.read()`. -/
  | getDefs (metric : MetricId) (tags : TagSet)
  | getKind (metric : MetricId) (tags : TagSet)
  | getInsert (metric : MetricId) (tags : TagSet) (kind : MetricKind)
  /-- Before the shard lock of `self.storage.get`. -/
  | visitShard (metric : MetricId)
  | visitLocked (metric : MetricId)
  /-- Before `self.defs.read()`. -/
  | summarizeLock
  /-- Before the lock of shard `i`, with the guard of the shard before it still in the iterator. -/
  | summarizing (i : Nat)
  deriving DecidableEq, Repr

namespace Pc

/-- Holds `defs` exclusively. -/
def holdsWrite : Pc → Bool
  | .registerLocked .. | .registerInsert _ | .registerInserting _ | .registerReturn => true
  | _ => false

/-- New readers and writers of `defs` wait: a writer that waits for its readers keeps others out. -/
def writerBit : Pc → Bool
  | .registerPending .. => true
  | pc => pc.holdsWrite

def holdsRead : Pc → Bool
  | .lookupLocked _ | .getKind .. | .summarizing _ => true
  | _ => false

variable (sh : Sharding) (k : Nat)

/-- The guards of a shard that are held for reading while the call goes on. -/
def shardRead : Pc → Bool
  | .getLocked metric _ | .getDefs metric _ | .getKind metric _ | .getInsert metric _ _
  | .visitLocked metric => (sh.shard metric).val == k
  | .summarizing i => i == k + 1
  | _ => false

/-- The one guard of a shard that is taken for writing under another lock. -/
def shardWrite : Pc → Bool
  | .registerInserting id => (sh.shard id).val == k
  | _ => false

/-- The thread at the second position keeps the thread at the first from its next step. -/
def blockedBy : Pc → Pc → Bool
  | .registerLock .., other => other.writerBit
  -- the bit is taken, the readers that came before have to leave
  | .registerPending .., other => other.holdsRead
  | .registerInsert id, other =>
    other.shardRead sh (sh.shard id) || other.shardWrite sh (sh.shard id)
  | .lookupLock _, other | .getDefs .., other | .summarizeLock, other => other.writerBit
  | .getShard metric _, other | .visitShard metric, other =>
    other.shardWrite sh (sh.shard metric)
  -- past the last shard nothing is locked
  | .summarizing i, other => i != sh.count && other.shardWrite sh i
  | _, _ => false

end Pc

variable {ι H F : Type}

/-- The registry, and where every thread is in its call. -/
structure State (ι H : Type) where
  registry : Registry H
  pc : ι → Pc

/-- A thread begins a call or goes on with it. -/
inductive Action (ι : Type)
  | begin (t : ι) (call : Call)
  | step (t : ι)

variable (sh : Sharding)

/-- `t` waits for `u`. -/
def WaitsFor (s : State ι H) (t u : ι) : Prop := (s.pc t).blockedBy sh (s.pc u) = true

instance (s : State ι H) (t u : ι) : Decidable (WaitsFor sh s t u) :=
  inferInstanceAs (Decidable (_ = true))

/-- `register` has not found the name. -/
def isNew (r : Registry H) (nameId : KeyId) : Bool :=
  (r.defs.findIdx? fun d => d.name = nameId).isNone

/-- The metric exists and has no series for the tags. -/
def misses (r : Registry H) (metric : MetricId) (tags : TagSet) : Bool :=
  (r.storage.get? metric).isSome && (r.seriesGet metric tags).isNone

/-- The number that the next definition gets. -/
def nextId (r : Registry H) : MetricId := UInt32.ofNat r.defs.length

/-- The call with the interning of its name, which comes before any of the locks. -/
def enter (r : Registry H) : Call → Registry H × Pc
  | .register name kind =>
    let (interner, nameId) := r.interner.getOrIntern name
    ({ r with interner }, .registerLock nameId kind)
  | .lookupMetric name =>
    let (interner, nameId) := r.interner.getOrIntern name
    ({ r with interner }, .lookupLock nameId)
  | .getHandle metric tags => (r, .getShard metric tags)
  | .visitSeries metric => (r, .visitShard metric)
  | .summarize => (r, .summarizeLock)

/-- The next atomic step at a position that nobody blocks. Returning drops the guards. -/
def advance (hdr : HdrHistogram H F) (r : Registry H) : Pc → Registry H × Pc
  | .idle => (r, .idle)
  | .registerLock nameId kind => (r, .registerPending nameId kind)
  | .registerPending nameId kind => (r, .registerLocked nameId kind)
  | .registerLocked nameId kind =>
    if isNew r nameId then
      ({ r with defs := r.defs ++ [⟨nameId, kind⟩] }, .registerInsert (nextId r))
    -- the name is known: the id is returned without a word on its kind
    else (r, .idle)
  | .registerInsert id => (r, .registerInserting id)
  | .registerInserting id =>
    ({ r with storage := r.storage.insert id HashTable.empty }, .registerReturn)
  | .registerReturn => (r, .idle)
  | .lookupLock nameId => (r, .lookupLocked nameId)
  | .lookupLocked _ => (r, .idle)
  | .getShard metric tags => (r, .getLocked metric tags)
  | .getLocked metric tags => (r, if misses r metric tags then .getDefs metric tags else .idle)
  | .getDefs metric tags => (r, .getKind metric tags)
  -- the `?` on the kind drops the shard guard as well
  | .getKind metric tags =>
    match r.metricKind metric with
    | some kind => (r, .getInsert metric tags kind)
    | none => (r, .idle)
  | .getInsert metric tags kind =>
    ((r.insertSeries metric tags (Cell.new hdr kind)).1, .idle)
  | .visitShard metric => (r, .visitLocked metric)
  | .visitLocked _ => (r, .idle)
  | .summarizeLock => (r, .summarizing 0)
  | .summarizing i => (r, if i = sh.count then .idle else .summarizing (i + 1))

section Machine

variable [Fintype ι] [DecidableEq ι] (hdr : HdrHistogram H F)

/-- A step of a thread, if no other one holds a lock that it needs. -/
def step (s : State ι H) : Action ι → Option (State ι H)
  | .begin t call =>
    if s.pc t = .idle then
      let (registry, pc) := enter s.registry call
      some ⟨registry, Function.update s.pc t pc⟩
    else none
  -- a thread at `blockedBy` sleeps; its step is taken when it is woken
  | .step t =>
    if s.pc t = .idle ∨ ∃ u, WaitsFor sh s t u then none
    else
      let (registry, pc) := advance sh hdr s.registry (s.pc t)
      some ⟨registry, Function.update s.pc t pc⟩

/-- Any number of threads, all outside the registry. -/
def machine (r₀ : Registry H) : Machine (State ι H) (Action ι) where
  init s := s = ⟨r₀, fun _ => .idle⟩
  step := step sh hdr

end Machine

/-! ### The order of the locks -/

/-- The thread holds shard `k` as a `get_handle` that waits for `defs`. -/
def inWindow (k : Fin sh.count) : Pc → Bool
  | .getDefs metric _ => sh.shard metric == k
  | _ => false

/-- The thread holds `defs` as a `register` that waits for shard `k`. -/
def atInsert (k : Fin sh.count) : Pc → Bool
  | .registerInsert id => sh.shard id == k
  | _ => false

/-- The step brings no `register` and `get_handle` together that each hold what the other waits
for: no new metric comes to its insert while a `get_handle` stands in the shard of its id before
`defs.read()`, and no `get_handle` comes to `defs.read()` while a `register` waits for its
shard. -/
def KeepsApart (s : State ι H) : Action ι → Prop
  | .begin .. => True
  | .step t => match s.pc t with
    | .registerLocked nameId _ => isNew s.registry nameId = true →
      ∀ u, inWindow sh (sh.shard (nextId s.registry)) (s.pc u) = false
    | .getLocked metric tags => misses s.registry metric tags = true →
      ∀ u, atInsert sh (sh.shard metric) (s.pc u) = false
    | _ => True

/-- What holds of every two threads. -/
structure Inv (s : State ι H) : Prop where
  /-- The writer bit has one owner. -/
  exclusive (t u : ι) : (s.pc t).writerBit = true → (s.pc u).writerBit = true → t = u
  /-- `defs` is never held both ways. -/
  excluded (t u : ι) : (s.pc t).holdsWrite = true → (s.pc u).holdsRead = false
  apart (t u : ι) (k : Fin sh.count) : atInsert sh k (s.pc t) = true →
    inWindow sh k (s.pc u) = false

variable {sh}

instance [Fintype ι] (s : State ι H) : DecidablePred (KeepsApart sh s)
  | .begin .. => .isTrue trivial
  | .step t =>
    let allowed (pc : Pc) : Prop := match pc with
      | .registerLocked nameId _ => isNew s.registry nameId = true →
        ∀ u, inWindow sh (sh.shard (nextId s.registry)) (s.pc u) = false
      | .getLocked metric tags => misses s.registry metric tags = true →
        ∀ u, atInsert sh (sh.shard metric) (s.pc u) = false
      | _ => True
    let decides : DecidablePred allowed
      | .registerLocked nameId _ => inferInstanceAs (Decidable (isNew s.registry nameId = true →
        ∀ u, inWindow sh (sh.shard (nextId s.registry)) (s.pc u) = false))
      | .getLocked metric tags => inferInstanceAs (Decidable (misses s.registry metric tags = true →
        ∀ u, atInsert sh (sh.shard metric) (s.pc u) = false))
      | .idle | .registerLock .. | .registerPending .. | .registerInsert _ | .registerInserting _
      | .registerReturn | .lookupLock _ | .lookupLocked _ | .getShard .. | .getDefs .. | .getKind ..
      | .getInsert .. | .visitShard _ | .visitLocked _ | .summarizeLock | .summarizing _ =>
        .isTrue trivial
    decides (s.pc t)

/-- A thread moves; the others see nothing of it but the locks that it holds. -/
structure Fits (sh : Sharding) (s : State ι H) (t : ι) (pc : Pc) : Prop where
  bit : pc.writerBit = true → ∀ u, u ≠ t → (s.pc u).writerBit = false
  write : pc.holdsWrite = true → ∀ u, u ≠ t → (s.pc u).holdsRead = false
  read : pc.holdsRead = true → ∀ u, u ≠ t → (s.pc u).holdsWrite = false
  insert (k : Fin sh.count) : atInsert sh k pc = true → ∀ u, u ≠ t → inWindow sh k (s.pc u) = false
  window (k : Fin sh.count) : inWindow sh k pc = true → ∀ u, u ≠ t → atInsert sh k (s.pc u) = false

namespace Pc

theorem holdsWrite_of_writerBit_false {pc : Pc} (free : pc.writerBit = false) :
    pc.holdsWrite = false := by
  cases pc <;> first | rfl | cases free

theorem holdsRead_of_holdsWrite {pc : Pc} (write : pc.holdsWrite = true) :
    pc.holdsRead = false := by
  cases pc <;> first | rfl | cases write

theorem inWindow_of_atInsert {k : Fin sh.count} {pc : Pc} (insert : atInsert sh k pc = true) :
    inWindow sh k pc = false := by
  cases pc <;> first | rfl | cases insert

end Pc

/-- A thread moves on; for every lock it has now, nobody else has one that excludes it. -/
theorem Inv.moved [DecidableEq ι] {s : State ι H} (inv : Inv sh s) {t : ι} {pc : Pc}
    (fits : Fits sh s t pc) (r : Registry H) : Inv sh (⟨r, Function.update s.pc t pc⟩ : State ι H) := by
  constructor
  -- each of the three is about two threads: both moved, one of them or neither
  · intro a b
    simp only [Function.update_apply]
    split <;> split
    case isTrue.isTrue ha hb => exact fun _ _ => ha.trans hb.symm
    case isTrue.isFalse ha hb =>
      intro left right
      rw [fits.bit left b hb] at right
      cases right
    case isFalse.isTrue ha hb =>
      intro left right
      rw [fits.bit right a ha] at left
      cases left
    case isFalse.isFalse => exact inv.exclusive a b
  · intro a b
    simp only [Function.update_apply]
    split <;> split
    case isTrue.isTrue => exact Pc.holdsRead_of_holdsWrite
    case isTrue.isFalse hb => exact fun left => fits.write left b hb
    case isFalse.isTrue ha _ =>
      intro left
      by_contra right
      rw [fits.read (Bool.eq_true_of_not_eq_false right) a ha] at left
      cases left
    case isFalse.isFalse => exact inv.excluded a b
  · intro a b k
    simp only [Function.update_apply]
    split <;> split
    case isTrue.isTrue => exact Pc.inWindow_of_atInsert
    case isTrue.isFalse hb => exact fun left => fits.insert k left b hb
    case isFalse.isTrue ha _ =>
      intro left
      by_contra right
      rw [fits.window k (Bool.eq_true_of_not_eq_false right) a ha] at left
      cases left
    case isFalse.isFalse => exact inv.apart a b k

theorem fits_enter (s : State ι H) (t : ι) (r : Registry H) (call : Call) :
    Fits sh s t (enter r call).2 := by
  cases call <;> constructor <;> intros <;> contradiction

/-- Every position that a thread moves to takes a lock that nobody keeps from it, keeps one or
drops one. -/
theorem fits_advance (hdr : HdrHistogram H F) {s : State ι H} (inv : Inv sh s) {t : ι}
    (free : ∀ u, (s.pc t).blockedBy sh (s.pc u) = false) (keeps : KeepsApart sh s (.step t)) :
    Fits sh s t (advance sh hdr s.registry (s.pc t)).2 := by
  -- what `t` holds it goes on holding unless it drops it
  have bit (held : (s.pc t).writerBit = true) (u : ι) (other : u ≠ t) :
      (s.pc u).writerBit = false :=
    Bool.eq_false_iff.mpr fun held' => other (inv.exclusive u t held' held)
  have write (held : (s.pc t).holdsWrite = true) (u : ι) (_ : u ≠ t) : (s.pc u).holdsRead = false :=
    inv.excluded t u held
  have read (held : (s.pc t).holdsRead = true) (u : ι) (_ : u ≠ t) : (s.pc u).holdsWrite = false :=
    Bool.eq_false_iff.mpr fun held' => by
      rw [inv.excluded u t held'] at held
      cases held
  rw [KeepsApart] at keeps
  cases at_ : s.pc t with
  | registerLock nameId kind =>
    rw [at_] at free
    exact ⟨fun _ u _ => free u, nofun, nofun, nofun, nofun⟩
  | registerPending nameId kind =>
    rw [at_] at free bit
    exact ⟨fun _ => bit rfl, fun _ u _ => free u, nofun, nofun, nofun⟩
  | registerLocked nameId kind =>
    rw [at_] at bit write keeps
    -- only a new name goes on to `storage.insert`; a known one drops the lock
    by_cases new : isNew s.registry nameId = true
    · simp only [advance, new, if_true]
      refine ⟨fun _ => bit rfl, fun _ => write rfl, nofun, fun k insert u _ => ?_, nofun⟩
      have same : sh.shard (nextId s.registry) = k := by simpa [atInsert] using insert
      exact same ▸ keeps new u
    · simp only [advance, new]
      exact ⟨nofun, nofun, nofun, nofun, nofun⟩
  | registerInsert id =>
    rw [at_] at bit write
    exact ⟨fun _ => bit rfl, fun _ => write rfl, nofun, nofun, nofun⟩
  | registerInserting id =>
    rw [at_] at bit write
    exact ⟨fun _ => bit rfl, fun _ => write rfl, nofun, nofun, nofun⟩
  | getLocked metric tags =>
    rw [at_] at keeps
    -- only a miss goes on to `defs.read()`
    by_cases missing : misses s.registry metric tags = true
    · simp only [advance, missing, if_true]
      refine ⟨nofun, nofun, nofun, nofun, fun k window u _ => ?_⟩
      have same : sh.shard metric = k := by simpa [inWindow] using window
      exact same ▸ keeps missing u
    · simp only [advance, missing]
      exact ⟨nofun, nofun, nofun, nofun, nofun⟩
  -- a reader of `defs` enters when no writer bit is set, which no holder is without
  | lookupLock _ | getDefs metric tags | summarizeLock =>
    rw [at_] at free
    exact ⟨nofun, nofun, fun _ u _ => Pc.holdsWrite_of_writerBit_false (free u), nofun, nofun⟩
  -- the guard of `defs` is kept to the end of the iteration
  | summarizing i =>
    rw [at_] at read
    by_cases last : i = sh.count
    · simp only [advance, last, if_true]
      exact ⟨nofun, nofun, nofun, nofun, nofun⟩
    · simp only [advance, last, if_false]
      exact ⟨nofun, nofun, fun _ => read rfl, nofun, nofun⟩
  | getKind metric tags =>
    simp only [advance]
    split <;> exact ⟨nofun, nofun, nofun, nofun, nofun⟩
  | _ => exact ⟨nofun, nofun, nofun, nofun, nofun⟩

/-! ### Waiting -/

namespace Pc

/-- Threads wait for threads of lower rank. -/
def rank : Pc → Nat
  | .registerLock .. | .lookupLock _ | .getDefs .. | .summarizeLock => 2
  | .registerPending .. | .registerInsert _ | .getShard .. | .visitShard _ => 1
  | _ => 0

theorem rank_of_writerBit {pc : Pc} (held : pc.writerBit = true) : pc.rank < 2 := by
  cases pc with
  | registerPending | registerLocked | registerInsert | registerInserting | registerReturn =>
    exact Nat.le_of_ble_eq_true rfl
  | _ => cases held

theorem rank_of_holdsRead {pc : Pc} (held : pc.holdsRead = true) : pc.rank < 1 := by
  cases pc with
  | lookupLocked | getKind | summarizing => exact Nat.zero_lt_one
  | _ => cases held

theorem rank_of_shardWrite {k : Nat} {pc : Pc} (held : pc.shardWrite sh k = true) :
    pc.rank < 1 ∧ pc.holdsWrite = true := by
  cases pc with
  | registerInserting => exact ⟨Nat.zero_lt_one, rfl⟩
  | _ => cases held

/-- A `get_handle` before `defs.read()` is the one reader of a shard that waits. -/
theorem rank_of_shardRead {k : Fin sh.count} {pc : Pc} (held : pc.shardRead sh k = true) :
    pc.rank < 1 ∨ inWindow sh k pc = true := by
  cases pc with
  | getDefs metric tags =>
    have here : (sh.shard metric).val = k.val := beq_iff_eq.mp held
    exact .inr (beq_iff_eq.mpr (Fin.ext here))
  | getLocked | getKind | getInsert | visitLocked | summarizing => exact .inl Nat.zero_lt_one
  | _ => cases held

end Pc

/-- A thread only waits for threads that are further along the order of the locks, so waiting never
goes round. -/
theorem rank_falls {s : State ι H} (inv : Inv sh s) (t u : ι) (waits : WaitsFor sh s t u) :
    (s.pc u).rank < (s.pc t).rank := by
  rw [WaitsFor] at waits
  cases at_ : s.pc t with
  | registerLock _ _ | lookupLock _ | getDefs _ _ | summarizeLock =>
    rw [at_] at waits
    exact Pc.rank_of_writerBit waits
  | registerPending _ _ =>
    rw [at_] at waits
    exact Pc.rank_of_holdsRead waits
  | getShard _ _ | visitShard _ =>
    rw [at_] at waits
    exact (Pc.rank_of_shardWrite waits).1
  | registerInsert id =>
    rw [at_] at waits
    -- a reader of the shard, or another `register` in it
    rcases Bool.or_eq_true_iff.mp waits with read | write
    · rcases Pc.rank_of_shardRead read with low | window
      · exact low
      -- the one reader of equal standing, which the invariant keeps out
      · have apart := inv.apart t u (sh.shard id) (by rw [at_]; exact beq_self_eq_true _)
        rw [window] at apart
        cases apart
    · exact (Pc.rank_of_shardWrite write).1
  | summarizing i =>
    -- whoever writes a shard holds `defs`, and so does the summary
    rw [at_] at waits
    have writes := (Bool.and_eq_true_iff.mp waits).2
    have excluded := inv.excluded u t (Pc.rank_of_shardWrite writes).2
    rw [at_] at excluded
    cases excluded
  | _ =>
    rw [at_] at waits
    cases waits

theorem eq_of_atInsert {k : Fin sh.count} {pc : Pc} (insert : atInsert sh k pc = true) :
    ∃ id, pc = .registerInsert id ∧ sh.shard id = k := by
  cases pc <;> simp_all [atInsert]

theorem eq_of_inWindow {k : Fin sh.count} {pc : Pc} (window : inWindow sh k pc = true) :
    ∃ metric tags, pc = .getDefs metric tags ∧ sh.shard metric = k := by
  cases pc <;> simp_all [inWindow]

/-- A `register` and a `get_handle` that hold what the other waits for. -/
theorem deadlock_of_meeting {s : State ι H} {t u : ι} {k : Fin sh.count}
    (insert : atInsert sh k (s.pc t) = true) (window : inWindow sh k (s.pc u) = true) :
    Deadlock (WaitsFor sh s) := by
  obtain ⟨id, atT, shardT⟩ := eq_of_atInsert insert
  obtain ⟨metric, tags, atU, shardU⟩ := eq_of_inWindow window
  -- `register` waits for the shard, `get_handle` for the writer bit
  have tu : WaitsFor sh s t u := by
    rw [WaitsFor, atT, atU]
    exact Bool.or_eq_true_iff.mpr (.inl (by simp [Pc.shardRead, shardT, shardU]))
  have ut : WaitsFor sh s u t := by
    rw [WaitsFor, atU, atT]
    rfl
  exact Deadlock.of_pair tu ut

section Runs

variable [Fintype ι] [DecidableEq ι] {hdr : HdrHistogram H F} {r₀ : Registry H}

/-- What a step can be: the begin of a call, or an unblocked step inside of one. -/
theorem step_cases {s s' : State ι H} {a : Action ι} (taken : step sh hdr s a = some s') :
    (∃ t call, a = .begin t call ∧ s' = ⟨(enter s.registry call).1,
        Function.update s.pc t (enter s.registry call).2⟩) ∨
      ∃ t, a = .step t ∧ (∀ u, (s.pc t).blockedBy sh (s.pc u) = false) ∧
        s' = ⟨(advance sh hdr s.registry (s.pc t)).1,
          Function.update s.pc t (advance sh hdr s.registry (s.pc t)).2⟩ := by
  cases a with
  | begin t call =>
    simp only [step] at taken
    split at taken
    · exact .inl ⟨t, call, rfl, (Option.some.inj taken).symm⟩
    · cases taken
  | step t =>
    simp only [step] at taken
    split at taken
    · cases taken
    -- neither idle nor blocked
    · rename_i free
      refine .inr ⟨t, rfl, fun u => ?_, (Option.some.inj taken).symm⟩
      exact Bool.eq_false_iff.mpr fun blocked => free (.inr ⟨u, blocked⟩)

theorem inv_of_reachable {s : State ι H}
    (run : (machine sh hdr r₀).ReachableBy (KeepsApart sh) s) : Inv sh s := by
  refine run.invariant (Inv sh) ?_ ?_
  · rintro _ rfl
    exact ⟨nofun, nofun, nofun⟩
  · intro s a s' inv keeps taken
    obtain ⟨t, call, rfl, rfl⟩ | ⟨t, rfl, free, rfl⟩ := step_cases taken
    · exact inv.moved (fits_enter s t s.registry call) _
    · exact inv.moved (fits_advance hdr inv free keeps) _

/-- A step that does not keep a pair apart ends in a deadlock. -/
theorem deadlock_of_step {s s' : State ι H} {a : Action ι} (taken : step sh hdr s a = some s')
    (meets : ¬KeepsApart sh s a) : Deadlock (WaitsFor sh s') := by
  obtain ⟨t, call, rfl, rfl⟩ | ⟨t, rfl, -, rfl⟩ := step_cases taken
  · exact absurd trivial meets
  · rw [KeepsApart] at meets
    cases at_ : s.pc t with
    | registerLocked nameId kind =>
      simp only [at_, Classical.not_imp, not_forall, Bool.not_eq_false] at meets
      obtain ⟨new, u, window⟩ := meets
      -- `t` itself stands elsewhere
      have other : u ≠ t := by
        rintro rfl
        rw [at_] at window
        cases window
      refine deadlock_of_meeting (t := t) (u := u) (k := sh.shard (nextId s.registry)) ?_ ?_
      · simp [advance, new, atInsert]
      · simpa [Function.update_of_ne other] using window
    | getLocked metric tags =>
      simp only [at_, Classical.not_imp, not_forall, Bool.not_eq_false] at meets
      obtain ⟨missing, u, insert⟩ := meets
      have other : u ≠ t := by
        rintro rfl
        rw [at_] at insert
        cases insert
      refine deadlock_of_meeting (t := u) (u := t) (k := sh.shard metric) ?_ ?_
      · simpa [Function.update_of_ne other] using insert
      · simp [advance, missing, inWindow]
    | _ => simp [at_] at meets

variable (sh hdr r₀)

/-- No threads of a run that keeps the pairs apart wait for each other in a cycle, and the first
step of a run that does not is a deadlock. -/
theorem no_deadlock :
    (∀ s : State ι H, (machine sh hdr r₀).ReachableBy (KeepsApart sh) s →
      ¬Deadlock (WaitsFor sh s)) ∧
      ∀ (s : State ι H) (a : Action ι) (s' : State ι H), step sh hdr s a = some s' →
        ¬KeepsApart sh s a → Deadlock (WaitsFor sh s') :=
  ⟨fun s run => not_deadlock_of_rank (fun t => (s.pc t).rank) (rank_falls (inv_of_reachable run)),
    fun _ _ _ taken meets => deadlock_of_step taken meets⟩

end Runs

/-- All metrics in one shard. -/
def oneShard : Sharding := ⟨1, fun _ => 0⟩

/-- While one thread gets the first handle of a metric, the other registers a second metric: each
holds the lock that the other waits for. -/
theorem register_deadlocks_with_get_handle :
    ∃ s : State (Fin 2) (List UInt64),
      (machine oneShard HdrHistogram.exact Registry.default).Reachable s ∧
        Deadlock (WaitsFor oneShard s) := by
  obtain ⟨s, run, tu, ut⟩ := Machine.exists_reachableBy_of_exec
    (machine oneShard HdrHistogram.exact Registry.default) (fun _ _ => True)
    (fun s : State (Fin 2) (List UInt64) => WaitsFor oneShard s 0 1 ∧ WaitsFor oneShard s 1 0)
    [.begin 0 (.register "a" .counter), .step 0, .step 0, .step 0, .step 0, .step 0, .step 0,
      .begin 1 (.getHandle 0 TagSet.empty), .step 1, .step 1,
      .begin 0 (.register "b" .counter), .step 0, .step 0, .step 0] rfl (by decide)
  exact ⟨s, run, Deadlock.of_pair tu ut⟩

/-- One thread gets the first handle of a metric and has returned before the other registers a second
one: no step brings the two together, both calls return and nobody has waited in a cycle. -/
theorem no_deadlock_in_turn :
    ∃ s : State (Fin 2) (List UInt64),
      (machine oneShard HdrHistogram.exact Registry.default).ReachableBy (KeepsApart oneShard) s ∧
        (∀ t, s.pc t = .idle) ∧ s.registry.defs.length = 2 ∧
        (s.registry.seriesGet 0 TagSet.empty).isSome ∧ ¬Deadlock (WaitsFor oneShard s) := by
  -- the second thread takes its handle between the two registrations
  obtain ⟨s, run, idle, defined, stored⟩ := Machine.exists_reachableBy_of_exec
    (machine oneShard HdrHistogram.exact Registry.default) (KeepsApart oneShard)
    (fun s : State (Fin 2) (List UInt64) => (∀ t, s.pc t = .idle) ∧ s.registry.defs.length = 2 ∧
      (s.registry.seriesGet 0 TagSet.empty).isSome)
    [.begin 0 (.register "a" .counter), .step 0, .step 0, .step 0, .step 0, .step 0, .step 0,
      .begin 1 (.getHandle 0 TagSet.empty), .step 1, .step 1, .step 1, .step 1, .step 1,
      .begin 0 (.register "b" .counter), .step 0, .step 0, .step 0, .step 0, .step 0, .step 0]
    rfl (by decide)
  exact ⟨s, run, idle, defined, stored,
    (no_deadlock oneShard HdrHistogram.exact Registry.default).1 s run⟩

end LockOrder

end Wrkr.Metrics

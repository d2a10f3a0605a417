import Wrkr.Lib.HashTable
import Wrkr.Lib.Machine
import Wrkr.Lib.Sync
import Wrkr.Value

/-!
# The shared store

`SharedStore` keeps its values and one watch channel per awaited key behind a mutex. A `set` or
an `incr` inserts under the lock and notifies outside it; an `incr` then reads its result back
in a second locked section. A `wait_for_key` subscribes in the same locked section in which it
finds the key absent, and then alternates between looking the key up and waiting for a change.

Each locked section, each `borrow`, each `send` and each wake-up is one atomic step of the
machine below. The main result, `no_lost_key_wakeup`, says that a waiter parked on a present
key is always runnable or about to be notified.
-/
namespace Wrkr.Shared

open Wrkr.Lib

/-- `i64::saturating_add`. -/
def saturatingAdd (a b : Int64) : Int64 :=
  Int64.ofInt (max Int64.minValue.toInt (min (a.toInt + b.toInt) Int64.maxValue.toInt))

variable {ι : Type}

/-- What the mutex protects, without the barriers. A sender is never removed from `notifies`,
so the clone that a caller takes out of the lock is named by its key. -/
structure Inner (ι : Type) where
  values : HashTable String Value
  notifies : HashTable String (Watch ι UInt64)

namespace Inner

def get (inner : Inner ι) (key : String) : Option Value := inner.values.get? key

def getCounter (inner : Inner ι) (key : String) : Int64 :=
  ((inner.get key).bind Value.asI64).getD 0

/-- The locked section of `set`. -/
def set (inner : Inner ι) (key : String) (value : Value) : Inner ι :=
  { inner with values := inner.values.insert key value }

/-- The locked section of `incr`. -/
def incr (inner : Inner ι) (key : String) (delta : Int64) : Inner ι :=
  let cur := inner.getCounter key
  let next := saturatingAdd cur delta
  { inner with values := inner.values.insert key (.i64 next) }

def delete (inner : Inner ι) (key : String) : Inner ι :=
  { inner with values := inner.values.remove key }

variable [DecidableEq ι]

/-- The locked section of `wait_for_key` on an absent key: take or create the channel and
subscribe to it. -/
def subscribe (inner : Inner ι) (key : String) (i : ι) : Inner ι × Nat :=
  let sender := (inner.notifies.get? key).getD (Watch.channel 0)
  let (sender, seen) := sender.subscribe i
  ({ inner with notifies := inner.notifies.insert key sender }, seen)

end Inner

inductive Call
  | set (key : String) (value : Value)
  | delete (key : String)
  | incr (key : String) (delta : Int64)
  | waitForKey (key : String)

namespace Call

def key : Call → String
  | .set key _ | .delete key | .incr key _ | .waitForKey key => key

/-- The calls that insert a value and then notify. -/
def Inserts : Call → Prop
  | .set .. | .incr .. => True
  | .delete _ | .waitForKey _ => False

end Call

inductive Pc
  | start
  /-- `set` and `incr`: the value is inserted and the cloned sender is held. -/
  | inserted
  | sending (next : UInt64)
  /-- `incr`: `self.get_counter(key)`. -/
  | readBack
  /-- `wait_for_key`: the receiver has seen version `seen`; `self.get(key)` is next. -/
  | check (seen : Nat)
  | changed (seen : Nat)
  | returned (value : Int64)
  | done
  deriving DecidableEq, Repr

namespace Pc

/-- The value is inserted and the send is still to come. -/
def Unsent : Pc → Prop
  | .inserted | .sending _ => True
  | _ => False

/-- The version seen by a live receiver. -/
def seen? : Pc → Option Nat
  | .check seen | .changed seen => some seen
  | _ => none

end Pc

structure State (ι : Type) where
  inner : Inner ι
  pc : ι → Pc
  /-- The `incr` calls in the order of their locked increments. -/
  log : List ι

variable [DecidableEq ι]

def State.goto (s : State ι) (i : ι) (pc : Pc) : State ι :=
  { s with pc := Function.update s.pc i pc }

/-- Where a call continues once it has nothing to notify. -/
def afterNotify : Call → Pc
  | .incr .. => .readBack
  | _ => .done

/-- Leave the locked section of an insert with a clone of the sender, if there is one. -/
def afterInsert (inner : Inner ι) (call : Call) : Pc :=
  -- nobody has waited for the key: there is no sender to notify
  if inner.notifies.contains call.key then .inserted else afterNotify call

def startStep (s : State ι) (i : ι) : Call → Option (State ι)
  | .set key value =>
    let inner := s.inner.set key value
    some ({ s with inner }.goto i (afterInsert inner (.set key value)))
  | .delete key => some ({ s with inner := s.inner.delete key }.goto i .done)
  | .incr key delta =>
    let inner := s.inner.incr key delta
    some ({ s with inner, log := s.log ++ [i] }.goto i (afterInsert inner (.incr key delta)))
  -- the lookup and the subscription are one locked section
  | .waitForKey key =>
    if s.inner.values.contains key then some (s.goto i .done)
    else
      let (inner, seen) := s.inner.subscribe key i
      some ({ s with inner }.goto i (.check seen))

def borrowStep (s : State ι) (i : ι) (key : String) : Option (State ι) :=
  -- `*tx.borrow()` and `tx.send` are two steps, so two senders may send the same value
  (s.inner.notifies.get? key).map fun channel => s.goto i (.sending (channel.value + 1))

def sendStep (s : State ι) (i : ι) (call : Call) (next : UInt64) : Option (State ι) :=
  (s.inner.notifies.get? call.key).map fun channel =>
    let notifies := s.inner.notifies.insert call.key (channel.send next)
    { s with inner := { s.inner with notifies } }.goto i (afterNotify call)

/-- The lookup of the waiter's loop. Returning drops the receiver. -/
def checkStep (s : State ι) (i : ι) (key : String) (seen : Nat) : Option (State ι) :=
  if (s.inner.get key).isSome then
    (s.inner.notifies.get? key).map fun channel =>
      let notifies := s.inner.notifies.insert key (channel.dropReceiver i)
      { s with inner := { s.inner with notifies } }.goto i .done
  else some (s.goto i (.changed seen))

/-- `rx.changed()` completes once the version differs from the one seen. Its error branch is
not modelled: the sender stays in `notifies`, so the channel is never closed. -/
def changedStep (s : State ι) (i : ι) (key : String) (seen : Nat) : Option (State ι) :=
  match s.inner.notifies.get? key with
  | some channel => if channel.version ≠ seen then some (s.goto i (.check channel.version)) else none
  | none => none

/-- The tasks `i` each make the call `call i` on a store that starts as `inner₀`. -/
def machine (call : ι → Call) (inner₀ : Inner ι) : Machine (State ι) ι where
  init s := s = ⟨inner₀, fun _ => .start, []⟩
  step s i :=
    match s.pc i with
    | .start => startStep s i (call i)
    | .inserted => borrowStep s i (call i).key
    | .sending next => sendStep s i (call i) next
    | .readBack => some (s.goto i (.returned (s.inner.getCounter (call i).key)))
    | .check seen => checkStep s i (call i).key seen
    | .changed seen => changedStep s i (call i).key seen
    | .returned _ | .done => none

/-- Some `set` or `incr` on `key` has inserted its value and has not yet executed its send. -/
def SendPending (call : ι → Call) (s : State ι) (key : String) : Prop :=
  ∃ j, (call j).Inserts ∧ (call j).key = key ∧ (s.pc j).Unsent

/-- The channel of `key` has a version that a receiver at `seen` has not seen. -/
def Unseen (inner : Inner ι) (key : String) (seen : Nat) : Prop :=
  ∃ channel, inner.notifies.get? key = some channel ∧ seen < channel.version

/-! ### Invariant -/

variable {call : ι → Call}

structure Inv (call : ι → Call) (s : State ι) : Prop where
  /-- A waiter in its loop owns a live receiver of the channel of its key. -/
  alive : ∀ i seen, (s.pc i).seen? = some seen →
    ∃ channel, s.inner.notifies.get? (call i).key = some channel ∧ i ∈ channel.receivers ∧
      seen ≤ channel.version
  /-- Only inserting calls hold a sender. -/
  inserts : ∀ i, (s.pc i).Unsent → (call i).Inserts
  parked : ∀ i seen, s.pc i = .changed seen → s.inner.values.contains (call i).key →
    Unseen s.inner (call i).key seen ∨ SendPending call s (call i).key

/-- Every receiver of a channel before the step is still there, at no smaller version. -/
def ChannelsKept (inner inner' : Inner ι) (j : ι) : Prop :=
  ∀ key channel, inner.notifies.get? key = some channel → j ∈ channel.receivers →
    ∃ channel', inner'.notifies.get? key = some channel' ∧ j ∈ channel'.receivers ∧
      channel.version ≤ channel'.version

omit [DecidableEq ι] in
theorem ChannelsKept.of_notifies_eq {inner inner' : Inner ι}
    (same : inner'.notifies = inner.notifies) (j : ι) : ChannelsKept inner inner' j :=
  fun _ channel found member => ⟨channel, same ▸ found, member, Nat.le_refl _⟩

omit [DecidableEq ι] in
/-- Replacing the channel of one key keeps the receivers that the new channel keeps. -/
theorem ChannelsKept.replace {inner : Inner ι} {key : String} {channel' : Watch ι UInt64} {j : ι}
    (kept : ∀ channel, inner.notifies.get? key = some channel → j ∈ channel.receivers →
      j ∈ channel'.receivers ∧ channel.version ≤ channel'.version) :
    ChannelsKept inner { inner with notifies := inner.notifies.insert key channel' } j := by
  intro k channel found member
  by_cases same : k = key
  · subst same
    have ⟨still, grown⟩ := kept channel found member
    exact ⟨channel', by simp, still, grown⟩
  · exact ⟨channel, by simp [HashTable.get?_insert, same, found], member, Nat.le_refl _⟩

/-- A step of task `i` keeps the invariant when it keeps the other tasks' receivers, and the
clauses about `i` itself and about the parked waiters hold after it. -/
theorem Inv.step {s : State ι} {inner : Inner ι} {log : List ι} {i : ι} {pc : Pc}
    (inv : Inv call s)
    (channels : ∀ j, j ≠ i → ChannelsKept s.inner inner j)
    (aliveSelf : ∀ seen, pc.seen? = some seen →
      ∃ channel, inner.notifies.get? (call i).key = some channel ∧ i ∈ channel.receivers ∧
        seen ≤ channel.version)
    (insertsSelf : pc.Unsent → (call i).Inserts)
    (absentSelf : ∀ seen, pc = .changed seen → inner.values.contains (call i).key = false)
    (parked : ∀ j seen, j ≠ i → s.pc j = .changed seen → inner.values.contains (call j).key →
      Unseen inner (call j).key seen ∨
        SendPending call (⟨inner, Function.update s.pc i pc, log⟩ : State ι) (call j).key) :
    Inv call ⟨inner, Function.update s.pc i pc, log⟩ := by
  constructor
  · intro j seen receiver
    by_cases same : j = i
    · subst same
      exact aliveSelf seen (by simpa using receiver)
    · obtain ⟨channel, found, member, bound⟩ := inv.alive j seen (by simpa [same] using receiver)
      obtain ⟨channel', found', member', grown⟩ := channels j same _ channel found member
      exact ⟨channel', found', member', Nat.le_trans bound grown⟩
  · intro j unsent
    by_cases same : j = i
    · subst same
      exact insertsSelf (by simpa using unsent)
    · exact inv.inserts j (by simpa [same] using unsent)
  · intro j seen waiting present
    by_cases same : j = i
    · subst same
      -- task `i` itself parks only after a lookup that found nothing
      have absent := absentSelf seen (by simpa using waiting)
      simp only at present
      simp [absent] at present
    · exact parked j seen same (by simpa [same] using waiting) present

/-- A send that was pending stays pending unless it is the moving task's own. -/
theorem SendPending.update {s : State ι} {inner : Inner ι} {log : List ι} {i : ι} {pc : Pc}
    {key : String} (pending : SendPending call s key) (kept : (s.pc i).Unsent → pc.Unsent) :
    SendPending call (⟨inner, Function.update s.pc i pc, log⟩ : State ι) key := by
  obtain ⟨j, inserts, onKey, unsent⟩ := pending
  refine ⟨j, inserts, onKey, ?_⟩
  by_cases same : j = i
  · subst same
    simpa using kept unsent
  · simpa [same] using unsent

omit [DecidableEq ι] in
/-- A parked waiter keeps its unseen version while its receiver is kept. -/
theorem Inv.unseen_kept {s : State ι} {inner : Inner ι} {j : ι} {seen : Nat} (inv : Inv call s)
    (channels : ChannelsKept s.inner inner j) (waiting : s.pc j = .changed seen)
    (unseen : Unseen s.inner (call j).key seen) : Unseen inner (call j).key seen := by
  obtain ⟨channel, found, newer⟩ := unseen
  -- the waiter has a receiver on the channel, which is what keeps it
  obtain ⟨same, found', member, -⟩ := inv.alive j seen (by simp [waiting, Pc.seen?])
  rw [found] at found'
  cases found'
  obtain ⟨channel', found', -, grown⟩ := channels _ channel found member
  exact ⟨channel', found', Nat.lt_of_lt_of_le newer grown⟩

/-- The last clause of the invariant for a step that inserts nothing and sends nothing. -/
theorem Inv.parked_kept {s : State ι} {inner : Inner ι} {log : List ι} {i j : ι} {pc : Pc}
    {seen : Nat} (inv : Inv call s) (channels : ChannelsKept s.inner inner j)
    (values : inner.values.contains (call j).key → s.inner.values.contains (call j).key)
    (kept : (s.pc i).Unsent → pc.Unsent) (waiting : s.pc j = .changed seen)
    (present : inner.values.contains (call j).key) :
    Unseen inner (call j).key seen ∨
      SendPending call (⟨inner, Function.update s.pc i pc, log⟩ : State ι) (call j).key := by
  rcases inv.parked j seen waiting (values present) with unseen | pending
  · exact .inl (inv.unseen_kept channels waiting unseen)
  · exact .inr (pending.update kept)

/-- A step of task `i` that inserts no value and makes no send. -/
theorem Inv.quietStep {s : State ι} {inner : Inner ι} {log : List ι} {i : ι} {pc : Pc}
    (inv : Inv call s) (channels : ∀ j, j ≠ i → ChannelsKept s.inner inner j)
    (values : ∀ key, inner.values.contains key → s.inner.values.contains key)
    (notUnsent : ¬ (s.pc i).Unsent)
    (aliveSelf : ∀ seen, pc.seen? = some seen →
      ∃ channel, inner.notifies.get? (call i).key = some channel ∧ i ∈ channel.receivers ∧
        seen ≤ channel.version)
    (insertsSelf : pc.Unsent → (call i).Inserts)
    (absentSelf : ∀ seen, pc = .changed seen → inner.values.contains (call i).key = false) :
    Inv call ⟨inner, Function.update s.pc i pc, log⟩ := by
  apply inv.step channels aliveSelf insertsSelf absentSelf
  intro j seen other waiting present
  exact inv.parked_kept (channels j other) (values _) (fun unsent => absurd unsent notUnsent)
    waiting present

/-! ### Steps -/

/-- An insert under the lock: a waiter parked on the key has a channel, so the inserting call
leaves the lock with its sender. -/
theorem Inv.insert {s : State ι} {i : ι} (inv : Inv call s) (value : Value) (log : List ι)
    (starting : s.pc i = .start) (inserts : (call i).Inserts) :
    Inv call ⟨s.inner.set (call i).key value,
      Function.update s.pc i (afterInsert (s.inner.set (call i).key value) (call i)), log⟩ := by
  have notUnsent : ¬ (s.pc i).Unsent := by simp [starting, Pc.Unsent]
  -- an insert never leads into the loop of a waiter
  have landing (pc : Pc) (h : afterInsert (s.inner.set (call i).key value) (call i) = pc) :
      pc = .inserted ∨ pc = .readBack ∨ pc = .done := by
    subst h
    unfold afterInsert afterNotify
    repeat' split
    all_goals simp
  apply inv.step
  · exact fun j _ => ChannelsKept.of_notifies_eq rfl j
  · intro seen receiver
    rcases landing _ rfl with pc | pc | pc <;> simp [pc, Pc.seen?] at receiver
  · exact fun _ => inserts
  · intro seen waiting
    rcases landing _ waiting with pc | pc | pc <;> simp at pc
  · intro j seen _ waiting present
    by_cases onKey : (call j).key = (call i).key
    -- the waiter has a channel, so the insert leaves the lock with its sender
    · right
      obtain ⟨channel, found, -, -⟩ := inv.alive j seen (by simp [waiting, Pc.seen?])
      rw [onKey] at found
      refine ⟨i, inserts, onKey.symm, ?_⟩
      simp [afterInsert, Inner.set, HashTable.contains, found, Pc.Unsent]
    · have same : (s.inner.set (call i).key value).values.contains (call j).key =
          s.inner.values.contains (call j).key := by
        simp [Inner.set, HashTable.contains, HashTable.get?_insert, onKey]
      exact inv.parked_kept (ChannelsKept.of_notifies_eq rfl j) (fun h => same ▸ h)
        (fun unsent => absurd unsent notUnsent) waiting present

theorem inv_startStep {s s' : State ι} {i : ι} (inv : Inv call s) (starting : s.pc i = .start)
    (taken : startStep s i (call i) = some s') : Inv call s' := by
  have notUnsent : ¬ (s.pc i).Unsent := by simp [starting, Pc.Unsent]
  unfold startStep at taken
  split at taken
  next key value called =>
    cases taken
    have insert := inv.insert value s.log starting (by simp [called, Call.Inserts])
    simpa [called, Call.key, State.goto] using insert
  next key called =>
    cases taken
    refine inv.quietStep (fun j _ => ChannelsKept.of_notifies_eq rfl j) ?_ notUnsent
      (by simp [Pc.seen?]) (by simp [Pc.Unsent]) (by simp)
    intro k still
    by_cases deleted : k = key
    · simp [Inner.delete, HashTable.contains, deleted] at still
    · simpa [Inner.delete, HashTable.contains, HashTable.get?_remove_of_ne _ deleted] using still
  next key delta called =>
    cases taken
    have insert := inv.insert (.i64 (saturatingAdd (s.inner.getCounter key) delta)) (s.log ++ [i])
      starting (by simp [called, Call.Inserts])
    simpa [called, Call.key, Inner.set, Inner.incr, State.goto] using insert
  next key called =>
    split at taken
    next =>
      cases taken
      exact inv.quietStep (fun j _ => ChannelsKept.of_notifies_eq rfl j) (fun _ => id) notUnsent
        (by simp [Pc.seen?]) (by simp [Pc.Unsent]) (by simp)
    next =>
      cases taken
      -- the old receivers stay subscribed, at the same version
      have kept (j : ι) : ChannelsKept s.inner (s.inner.subscribe key i).1 j := by
        apply ChannelsKept.replace
        intro channel found member
        simp [found, member]
      refine inv.quietStep (fun j _ => kept j) (fun _ => id) notUnsent ?_ (by simp [Pc.Unsent])
        (by simp)
      intro seen receiver
      simp only [Pc.seen?, Option.some.injEq] at receiver
      subst receiver
      simp [called, Call.key]

theorem inv_borrowStep {s s' : State ι} {i : ι} (inv : Inv call s) (holding : s.pc i = .inserted)
    (taken : borrowStep s i (call i).key = some s') : Inv call s' := by
  simp only [borrowStep, Option.map_eq_some_iff] at taken
  obtain ⟨channel, -, rfl⟩ := taken
  apply inv.step
  · exact fun j _ => ChannelsKept.of_notifies_eq rfl j
  · simp [Pc.seen?]
  · exact fun _ => inv.inserts i (by simp [holding, Pc.Unsent])
  · simp
  · intro j seen _ waiting present
    exact inv.parked_kept (ChannelsKept.of_notifies_eq rfl j) id (by simp [Pc.Unsent]) waiting present

/-- The send: every waiter parked on the key now has an unseen version. -/
theorem inv_sendStep {s s' : State ι} {i : ι} {next : UInt64} (inv : Inv call s)
    (taken : sendStep s i (call i) next = some s') : Inv call s' := by
  simp only [sendStep, Option.map_eq_some_iff] at taken
  obtain ⟨channel, found, rfl⟩ := taken
  have kept (j : ι) : ChannelsKept s.inner
      { s.inner with notifies := s.inner.notifies.insert (call i).key (channel.send next) } j := by
    apply ChannelsKept.replace
    intro old found' member
    rw [found] at found'
    cases found'
    simp [member, Watch.version_le_send]
  -- the call that sends does not wait itself
  have quiet : ∀ seen, afterNotify (call i) ≠ .check seen ∧ afterNotify (call i) ≠ .changed seen := by
    intro seen
    unfold afterNotify
    split <;> simp
  apply inv.step
  · exact fun j _ => kept j
  · intro seen receiver
    unfold afterNotify at receiver
    split at receiver <;> simp [Pc.seen?] at receiver
  · intro unsent
    unfold afterNotify at unsent
    split at unsent <;> simp [Pc.Unsent] at unsent
  · intro seen waiting
    exact absurd waiting (quiet seen).2
  · intro j seen _ waiting present
    -- a waiter on this key has something new to see, one on another key is as well off as before
    by_cases onKey : (call j).key = (call i).key
    · left
      obtain ⟨same, found', member, bound⟩ := inv.alive j seen (by simp [waiting, Pc.seen?])
      rw [onKey, found] at found'
      cases found'
      refine ⟨channel.send next, by simp [onKey], ?_⟩
      rw [Watch.send_version_of_mem member]
      omega
    · rcases inv.parked j seen waiting present with unseen | ⟨k, inserts, atKey, unsent⟩
      · exact .inl (inv.unseen_kept (kept j) waiting unseen)
      · right
        refine ⟨k, inserts, atKey, ?_⟩
        have other : k ≠ i := by
          rintro rfl
          exact onKey atKey.symm
        simpa [other] using unsent

theorem inv_checkStep {s s' : State ι} {i : ι} {seen : Nat} (inv : Inv call s)
    (checking : s.pc i = .check seen)
    (taken : checkStep s i (call i).key seen = some s') : Inv call s' := by
  have notUnsent : ¬ (s.pc i).Unsent := by simp [checking, Pc.Unsent]
  unfold checkStep at taken
  split at taken
  next =>
    rw [Option.map_eq_some_iff] at taken
    obtain ⟨channel, found, rfl⟩ := taken
    have kept (j : ι) (other : j ≠ i) : ChannelsKept s.inner
        { s.inner with
          notifies := s.inner.notifies.insert (call i).key (channel.dropReceiver i) } j := by
      apply ChannelsKept.replace
      intro old found' member
      rw [found] at found'
      cases found'
      simp [Watch.dropReceiver, member, other]
    exact inv.quietStep kept (fun _ => id) notUnsent (by simp [Pc.seen?]) (by simp [Pc.Unsent])
      (by simp)
  -- the key is not there yet, so the task goes on to wait
  next absent =>
    cases taken
    apply inv.quietStep (fun j _ => ChannelsKept.of_notifies_eq rfl j) (fun _ => id) notUnsent _
      (by simp [Pc.Unsent])
    · intro seen _
      simpa [Inner.get, HashTable.contains] using absent
    · intro seen' receiver
      exact inv.alive i seen' (by simpa [checking, Pc.seen?] using receiver)

theorem inv_changedStep {s s' : State ι} {i : ι} {seen : Nat} (inv : Inv call s)
    (waiting : s.pc i = .changed seen)
    (taken : changedStep s i (call i).key seen = some s') : Inv call s' := by
  have notUnsent : ¬ (s.pc i).Unsent := by simp [waiting, Pc.Unsent]
  unfold changedStep at taken
  split at taken
  next channel found =>
    split at taken
    next =>
      cases taken
      refine inv.quietStep (fun j _ => ChannelsKept.of_notifies_eq rfl j) (fun _ => id) notUnsent ?_
        (by simp [Pc.Unsent]) (by simp)
      intro seen' receiver
      simp only [Pc.seen?, Option.some.injEq] at receiver
      -- the receiver is of the channel that the key has now
      obtain ⟨same, found', member, -⟩ := inv.alive i seen (by simp [waiting, Pc.seen?])
      rw [found] at found'
      cases found'
      exact ⟨channel, found, member, Nat.le_of_eq receiver.symm⟩
    next => simp at taken
  next => simp at taken

theorem inv_step {inner₀ : Inner ι} {s s' : State ι} {i : ι} (inv : Inv call s)
    (taken : (machine call inner₀).step s i = some s') : Inv call s' := by
  simp only [machine] at taken
  split at taken
  next starting => exact inv_startStep inv starting taken
  next holding => exact inv_borrowStep inv holding taken
  next => exact inv_sendStep inv taken
  next reading =>
    cases taken
    exact inv.quietStep (fun j _ => ChannelsKept.of_notifies_eq rfl j) (fun _ => id)
      (by simp [reading, Pc.Unsent]) (by simp [Pc.seen?]) (by simp [Pc.Unsent]) (by simp)
  next checking => exact inv_checkStep inv checking taken
  next waiting => exact inv_changedStep inv waiting taken
  next => simp at taken
  next => simp at taken

theorem inv_of_reachable {inner₀ : Inner ι} {s : State ι}
    (run : (machine call inner₀).Reachable s) : Inv call s := by
  apply run.invariant (Inv call)
  · rintro s rfl
    constructor
    · simp [Pc.seen?]
    · simp [Pc.Unsent]
    · simp
  · intro s i s' inv taken
    exact inv_step inv taken

/-- In every interleaving of `set`, `incr`, `delete` and `wait_for_key` calls, a waiter parked
in `rx.changed()` on a present key has an unseen version, or some call has inserted a value
for that key and has not sent yet. -/
theorem no_lost_key_wakeup (call : ι → Call) (inner₀ : Inner ι) {s : State ι}
    (run : (machine call inner₀).Reachable s) {i : ι} {key : String} {seen : Nat}
    (waiter : call i = .waitForKey key) (parked : s.pc i = .changed seen)
    (present : s.inner.values.contains key = true) :
    (∃ channel, s.inner.notifies.get? key = some channel ∧ channel.version ≠ seen) ∨
      SendPending call s key := by
  have onKey : (call i).key = key := by rw [waiter, Call.key]
  rcases (inv_of_reachable run).parked i seen parked (onKey ▸ present) with unseen | pending
  · obtain ⟨channel, found, newer⟩ := unseen
    exact .inl ⟨channel, onKey ▸ found, Nat.ne_of_gt newer⟩
  · exact .inr (onKey ▸ pending)

def Inner.default : Inner ι := ⟨HashTable.empty, HashTable.empty⟩

/-- A waiter and a `set` on the key it waits for. -/
def waitAndSet : Fin 2 → Call
  | 0 => .waitForKey "token"
  | 1 => .set "token" .null

/-- The waiter has parked, and the `set` has inserted and not sent yet. -/
theorem no_lost_key_wakeup_set_in_flight :
    ∃ s : State (Fin 2), (machine waitAndSet Inner.default).Reachable s ∧
      (s.pc 0 = .changed 0 ∧ s.inner.values.contains "token" = true) ∧
      ((∃ channel, s.inner.notifies.get? "token" = some channel ∧ channel.version ≠ 0) ∨
        SendPending waitAndSet s "token") := by
  obtain ⟨s, run, parked, present⟩ := Machine.exists_reachableBy_of_exec
    (machine waitAndSet Inner.default) (fun _ _ => True)
    (fun s => s.pc 0 = .changed 0 ∧ s.inner.values.contains "token" = true)
    [0, 0, 1] rfl (by decide)
  exact ⟨s, run, ⟨parked, present⟩, no_lost_key_wakeup _ _ run rfl parked present⟩

end Wrkr.Shared

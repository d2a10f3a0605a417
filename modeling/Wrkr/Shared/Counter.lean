import Mathlib.Algebra.Ring.Int.Defs
import Mathlib.Data.Fintype.Card
import Mathlib.Algebra.BigOperators.Group.List.Basic
import Wrkr.Shared.Store

/-!
# Counters of the shared store

`incr` is documented to return the new value. It increments under the lock, but reads the value
back in a second locked section after the notification, so another `incr` on the key can run in
between. `incr_linearizable` says that the calls return the values their own increments
produced in every interleaving in which that does not happen; `incr_results_collide` is an
interleaving of two calls that both return 2.
-/
namespace Wrkr.Shared

open Wrkr.Lib

namespace Call

/-- What the call adds to a counter. -/
def delta : Call → Int64
  | .incr _ delta => delta
  | _ => 0

def Increments (key : String) : Call → Prop
  | .incr key' _ => key' = key
  | _ => False

instance (key : String) : (call : Call) → Decidable (call.Increments key)
  | .incr key' _ => inferInstanceAs (Decidable (key' = key))
  | .set .. | .delete _ | .waitForKey _ => inferInstanceAs (Decidable False)

theorem Increments.eq_incr {key : String} {call : Call} (h : call.Increments key) :
    call = .incr key call.delta := by
  cases call with
  | incr key' d =>
    have same : key' = key := h
    rw [same, delta]
  | set _ _ => exact absurd h id
  | delete _ => exact absurd h id
  | waitForKey _ => exact absurd h id

/-- The calls the counter of `key` may see: everything but a `set` or a `delete` on it. -/
def KeepsCounter (key : String) : Call → Prop
  | .set key' _ | .delete key' => key' ≠ key
  | .incr .. | .waitForKey _ => True

end Call

/-- Between the locked increment and the read-back. -/
def Pc.Unread : Pc → Prop
  | .inserted | .sending _ | .readBack => True
  | _ => False

instance : (pc : Pc) → Decidable pc.Unread
  | .inserted | .sending _ | .readBack => isTrue trivial
  | .start | .check _ | .changed _ | .returned _ | .done => isFalse id

variable {ι : Type}

/-- The `incr` calls on `key` in the order of their locked increments. -/
def State.order (s : State ι) (call : ι → Call) (key : String) : List ι :=
  s.log.filter fun i => (call i).Increments key

def total (call : ι → Call) (order : List ι) : Int :=
  (order.map fun i => (call i).delta.toInt).sum

@[simp] theorem total_append (call : ι → Call) (xs ys : List ι) :
    total call (xs ++ ys) = total call xs + total call ys := by
  simp [total]

@[simp] theorem total_singleton (call : ι → Call) (i : ι) :
    total call [i] = (call i).delta.toInt := by
  simp [total]

/-- All partial sums lie within `i64`. -/
def Representable (call : ι → Call) (initial : Int) (order : List ι) : Prop :=
  ∀ before, before <+: order →
    Int64.minValue.toInt ≤ initial + total call before ∧
      initial + total call before ≤ Int64.maxValue.toInt

theorem Representable.of_append {call : ι → Call} {initial : Int} {xs ys : List ι}
    (range : Representable call initial (xs ++ ys)) : Representable call initial xs :=
  fun before isPrefix => range before (isPrefix.trans (List.prefix_append xs ys))

/-- `order` is a total order of the `incr` calls on `key`, complete for those that have
returned, in which the call at place `j` returns `initial + d_1 + ... + d_j`. -/
structure Linearization (call : ι → Call) (key : String) (initial : Int) (s : State ι)
    (order : List ι) : Prop where
  nodup : order.Nodup
  increments : ∀ i ∈ order, (call i).Increments key
  complete : ∀ i value, (call i).Increments key → s.pc i = .returned value → i ∈ order
  result : ∀ before i after value, order = before ++ i :: after → s.pc i = .returned value →
    value.toInt = initial + total call (before ++ [i])

variable [DecidableEq ι]

/-- A locked increment that changes the counter is taken only while no other `incr` on the key
is between its own increment and its read-back. -/
def Undisturbed (call : ι → Call) (key : String) (s : State ι) (i : ι) : Prop :=
  -- an `incr` by zero disturbs nobody
  s.pc i = .start → (call i).Increments key → (call i).delta ≠ 0 →
    ∀ j, (call j).Increments key → ¬ (s.pc j).Unread

instance [Fintype ι] (call : ι → Call) (key : String) (s : State ι) (i : ι) :
    Decidable (Undisturbed call key s i) :=
  inferInstanceAs (Decidable (_ → _ → _ → ∀ _, _ → ¬ _))

/-! ### The counter of a key -/

theorem saturatingAdd_toInt {a b : Int64} (low : Int64.minValue.toInt ≤ a.toInt + b.toInt)
    (high : a.toInt + b.toInt ≤ Int64.maxValue.toInt) :
    (saturatingAdd a b).toInt = a.toInt + b.toInt := by
  -- the sum is in range, so nothing saturates
  have clamped : max Int64.minValue.toInt (min (a.toInt + b.toInt) Int64.maxValue.toInt) =
      a.toInt + b.toInt := by omega
  rw [saturatingAdd, clamped]
  apply Int64.toInt_ofInt_of_le
  · exact low
  · exact Int.lt_of_le_of_lt high (by decide)

omit [DecidableEq ι] in
theorem getCounter_set_of_ne (inner : Inner ι) {key key' : String} (value : Value)
    (other : key' ≠ key) : (inner.set key' value).getCounter key = inner.getCounter key := by
  simp [Inner.getCounter, Inner.get, Inner.set, HashTable.get?_insert_of_ne _ _ other.symm]

omit [DecidableEq ι] in
theorem getCounter_incr_self (inner : Inner ι) (key : String) (delta : Int64) :
    (inner.incr key delta).getCounter key = saturatingAdd (inner.getCounter key) delta := by
  simp [Inner.getCounter, Inner.get, Inner.incr, Value.asI64]

omit [DecidableEq ι] in
theorem getCounter_delete_of_ne (inner : Inner ι) {key key' : String} (other : key' ≠ key) :
    (inner.delete key').getCounter key = inner.getCounter key := by
  simp [Inner.getCounter, Inner.get, Inner.delete, HashTable.get?_remove_of_ne _ other.symm]

/-! ### Steps as the counter of a key sees them -/

variable {call : ι → Call} {key : String} {s s' : State ι} {i : ι}

/-- What a step of task `i` does to the counter of `key` and to the calls that increment it. -/
inductive CounterStep (call : ι → Call) (key : String) (s s' : State ι) (i : ι) : Prop
  | increment (pc : Pc)
      (starting : s.pc i = .start)
      (increments : (call i).Increments key)
      (unread : pc.Unread)
      (moved : s'.pc = Function.update s.pc i pc)
      (order : s'.order call key = s.order call key ++ [i])
      (counter : s'.inner.getCounter key =
        saturatingAdd (s.inner.getCounter key) (call i).delta)
  | readBack
      (reading : s.pc i = .readBack)
      (moved : s'.pc = Function.update s.pc i (.returned (s.inner.getCounter (call i).key)))
      (order : s'.order call key = s.order call key)
      (counter : s'.inner.getCounter key = s.inner.getCounter key)
  | other (pc : Pc)
      (silent : (call i).Increments key →
        s.pc i ≠ .start ∧ pc ≠ .start ∧ (pc.Unread → (s.pc i).Unread) ∧
          ∀ value, pc ≠ .returned value)
      (moved : s'.pc = Function.update s.pc i pc)
      (order : s'.order call key = s.order call key)
      (counter : s'.inner.getCounter key = s.inner.getCounter key)

/-- The first step of a call. -/
theorem counterStep_start (keeps : (call i).KeepsCounter key) (starting : s.pc i = .start)
    (taken : startStep s i (call i) = some s') : CounterStep call key s s' i := by
  unfold startStep at taken
  split at taken
  next key' value called =>
    cases taken
    rw [called] at keeps
    refine .other _ ?_ rfl rfl ?_
    · rw [called]
      exact fun increments => absurd increments id
    · exact getCounter_set_of_ne _ value keeps
  next key' called =>
    cases taken
    rw [called] at keeps
    refine .other _ ?_ rfl rfl ?_
    · rw [called]
      exact fun increments => absurd increments id
    · exact getCounter_delete_of_ne _ keeps
  next key' delta called =>
    cases taken
    -- an `incr` on another key is one of the other steps
    by_cases same : key' = key
    · subst same
      have increments : (call i).Increments key' := by rw [called]; rfl
      refine .increment _ starting increments ?_ rfl ?_ ?_
      · unfold afterInsert afterNotify
        split <;> trivial
      · simp [State.order, State.goto, List.filter_append, increments]
      · rw [called]
        exact getCounter_incr_self _ key' delta
    · have notKey : ¬ (call i).Increments key := by rw [called]; exact same
      refine .other _ (fun increments => absurd increments notKey) rfl ?_ ?_
      · simp [State.order, State.goto, List.filter_append, notKey]
      · exact getCounter_set_of_ne _ _ same
  next key' called =>
    have notKey : ¬ (call i).Increments key := by rw [called]; exact id
    split at taken
    · cases taken
      exact .other _ (fun increments => absurd increments notKey) rfl rfl rfl
    · cases taken
      exact .other _ (fun increments => absurd increments notKey) rfl rfl rfl

theorem counterStep {inner₀ : Inner ι} (keeps : (call i).KeepsCounter key)
    (taken : (machine call inner₀).step s i = some s') : CounterStep call key s s' i := by
  simp only [machine] at taken
  split at taken
  next starting => exact counterStep_start keeps starting taken
  next holding =>
    simp only [borrowStep, Option.map_eq_some_iff] at taken
    obtain ⟨channel, -, rfl⟩ := taken
    refine .other _ (fun _ => ⟨?_, by rintro ⟨⟩, ?_, by rintro _ ⟨⟩⟩) rfl rfl rfl
    · rw [holding]; rintro ⟨⟩
    · rw [holding]; exact fun _ => trivial
  next sending =>
    simp only [sendStep, Option.map_eq_some_iff] at taken
    obtain ⟨channel, -, rfl⟩ := taken
    refine .other _ (fun increments => ?_) rfl rfl rfl
    -- after the send an `incr` goes on to read its value back
    rw [increments.eq_incr]
    refine ⟨?_, by rintro ⟨⟩, ?_, by rintro _ ⟨⟩⟩
    · rw [sending]; rintro ⟨⟩
    · rw [sending]; exact fun _ => trivial
  next reading =>
    cases taken
    exact .readBack reading rfl rfl rfl
  next checking =>
    unfold checkStep at taken
    split at taken
    · rw [Option.map_eq_some_iff] at taken
      obtain ⟨channel, -, rfl⟩ := taken
      exact .other _ (fun _ => ⟨by rw [checking]; rintro ⟨⟩, by rintro ⟨⟩, by rintro ⟨⟩,
        by rintro _ ⟨⟩⟩) rfl rfl rfl
    · cases taken
      exact .other _ (fun _ => ⟨by rw [checking]; rintro ⟨⟩, by rintro ⟨⟩, by rintro ⟨⟩,
        by rintro _ ⟨⟩⟩) rfl rfl rfl
  next waiting =>
    unfold changedStep at taken
    split at taken
    · split at taken
      · cases taken
        exact .other _ (fun _ => ⟨by rw [waiting]; rintro ⟨⟩, by rintro ⟨⟩, by rintro ⟨⟩,
          by rintro _ ⟨⟩⟩) rfl rfl rfl
      · simp at taken
    · simp at taken
  next => simp at taken
  next => simp at taken

/-! ### Invariant -/

structure CounterInv (call : ι → Call) (key : String) (initial : Int) (s : State ι) : Prop where
  nodup : (s.order call key).Nodup
  started : ∀ i, i ∈ s.order call key ↔ (call i).Increments key ∧ s.pc i ≠ .start
  counter : Representable call initial (s.order call key) →
    (s.inner.getCounter key).toInt = initial + total call (s.order call key)
  /-- Nothing has changed the counter since a call that is still to read its result. -/
  unread : ∀ before i after, s.order call key = before ++ i :: after → (s.pc i).Unread →
    total call after = 0
  result : Representable call initial (s.order call key) →
    ∀ before i after value, s.order call key = before ++ i :: after →
      s.pc i = .returned value → value.toInt = initial + total call (before ++ [i])

omit [DecidableEq ι] in
/-- A place in a list that has grown by one is the new end or an old place. -/
theorem append_singleton_split {xs before after : List ι} {i j : ι}
    (split : xs ++ [i] = before ++ j :: after) :
    (xs = before ∧ j = i ∧ after = []) ∨
      ∃ rest, after = rest ++ [i] ∧ xs = before ++ j :: rest := by
  rcases List.eq_nil_or_concat after with rfl | ⟨rest, last, rfl⟩
  · left
    have parts := List.append_inj' split rfl
    simp only [List.cons.injEq, and_true] at parts
    exact ⟨parts.1, parts.2.symm, rfl⟩
  · right
    have shape : xs ++ [i] = (before ++ j :: rest) ++ [last] := by simpa using split
    have parts := List.append_inj' shape rfl
    simp only [List.cons.injEq, and_true] at parts
    exact ⟨rest, by rw [List.concat_eq_append, parts.2], parts.1⟩

theorem CounterInv.increment {initial : Int} {pc : Pc} (inv : CounterInv call key initial s)
    (undisturbed : Undisturbed call key s i) (starting : s.pc i = .start)
    (increments : (call i).Increments key) (unread : pc.Unread)
    (moved : s'.pc = Function.update s.pc i pc)
    (order : s'.order call key = s.order call key ++ [i])
    (counter : s'.inner.getCounter key = saturatingAdd (s.inner.getCounter key) (call i).delta) :
    CounterInv call key initial s' := by
  -- a call is in the order once it has left its start
  have fresh : i ∉ s.order call key := fun member => ((inv.started i).mp member).2 starting
  have notStart : pc ≠ .start := by rintro rfl; exact unread
  have notReturned (value : Int64) : pc ≠ .returned value := by rintro rfl; exact unread
  constructor
  · rw [order, List.nodup_append]
    refine ⟨inv.nodup, by simp, ?_⟩
    rintro a member b last rfl
    rw [List.mem_singleton] at last
    exact fresh (last ▸ member)
  · intro j
    rw [order, moved, List.mem_append, List.mem_singleton, inv.started j]
    by_cases same : j = i
    · subst same
      simp [increments, notStart]
    · simp [same]
  · intro range
    rw [order] at range ⊢
    have before := inv.counter range.of_append
    -- the whole order is one of the prefixes
    have bounds := range _ (List.prefix_refl _)
    rw [total_append, total_singleton] at bounds ⊢
    rw [counter, saturatingAdd_toInt (by omega) (by omega)]
    omega
  · intro before j after split pending
    rw [order] at split
    rcases append_singleton_split split with ⟨-, rfl, rfl⟩ | ⟨rest, rfl, older⟩
    · rfl
    · have member : j ∈ s.order call key := by rw [older]; simp
      have other : j ≠ i := by rintro rfl; exact fresh member
      have pending' : (s.pc j).Unread := by simpa [moved, other] using pending
      have settled := inv.unread before j rest older pending'
      -- the new increment is undisturbing, so with `j` pending it adds nothing
      have zero : (call i).delta = 0 := by
        by_contra changes
        exact undisturbed starting increments changes j ((inv.started j).mp member).1 pending'
      simp [settled, zero]
  · intro range before j after value split returned
    rw [order] at range split
    -- the call that has just incremented has not returned
    have other : j ≠ i := by
      rintro rfl
      exact notReturned value (by simpa [moved] using returned)
    rcases append_singleton_split split with ⟨-, same, -⟩ | ⟨rest, rfl, older⟩
    · exact absurd same other
    · exact inv.result range.of_append before j rest value older
        (by simpa [moved, other] using returned)

/-- A step that leaves the order and the counter alone. -/
theorem CounterInv.quiet {initial : Int} {pc : Pc} (inv : CounterInv call key initial s)
    (moved : s'.pc = Function.update s.pc i pc)
    (order : s'.order call key = s.order call key)
    (counter : s'.inner.getCounter key = s.inner.getCounter key)
    (started : (call i).Increments key → s.pc i ≠ .start ∧ pc ≠ .start)
    (unread : (call i).Increments key → pc.Unread → (s.pc i).Unread)
    (returned : (call i).Increments key → ∀ value, pc = .returned value →
      (s.pc i).Unread ∧ value = s.inner.getCounter key) :
    CounterInv call key initial s' := by
  constructor
  · rw [order]
    exact inv.nodup
  · intro j
    rw [order, moved, inv.started j]
    by_cases same : j = i
    · subst same
      simp only [Function.update_self]
      constructor
      · rintro ⟨increments, -⟩
        exact ⟨increments, (started increments).2⟩
      · rintro ⟨increments, -⟩
        exact ⟨increments, (started increments).1⟩
    · simp [same]
  · rw [order, counter]
    exact inv.counter
  · intro before j after split pending
    rw [order] at split
    have member : j ∈ s.order call key := by rw [split]; simp
    apply inv.unread before j after split
    by_cases same : j = i
    · subst same
      exact unread ((inv.started j).mp member).1 (by simpa [moved] using pending)
    · simpa [moved, same] using pending
  -- the call that returns has nobody behind it that changes the counter, so what it reads is its
  -- own result
  · intro range before j after value split done
    rw [order] at range split
    by_cases same : j = i
    · subst same
      have member : j ∈ s.order call key := by rw [split]; simp
      obtain ⟨pending, rfl⟩ := returned ((inv.started j).mp member).1 value
        (by simpa [moved] using done)
      have settled := inv.unread before j after split pending
      have whole : s.order call key = (before ++ [j]) ++ after := by simpa using split
      rw [inv.counter range, whole, total_append, settled, Int.add_zero]
    · exact inv.result range before j after value split (by simpa [moved, same] using done)

theorem CounterInv.step {initial : Int} (inv : CounterInv call key initial s)
    (undisturbed : Undisturbed call key s i) (stepped : CounterStep call key s s' i) :
    CounterInv call key initial s' := by
  cases stepped with
  | increment pc starting increments unread moved order counter =>
    exact inv.increment undisturbed starting increments unread moved order counter
  -- the value was fixed by the increment, and nobody has come in between
  | readBack reading moved order counter =>
    apply inv.quiet moved order counter
    · simp [reading]
    · exact fun _ unread => absurd unread id
    · intro increments value returned
      cases returned
      rw [increments.eq_incr]
      exact ⟨by rw [reading]; trivial, rfl⟩
  | other pc silent moved order counter =>
    apply inv.quiet moved order counter
    · exact fun increments => ⟨(silent increments).1, (silent increments).2.1⟩
    · exact fun increments => (silent increments).2.2.1
    · exact fun increments value returned => absurd returned ((silent increments).2.2.2 value)

theorem counterInv_of_reachableBy {inner₀ : Inner ι}
    (keeps : ∀ i, (call i).KeepsCounter key)
    (run : (machine call inner₀).ReachableBy (Undisturbed call key) s) :
    CounterInv call key (inner₀.getCounter key).toInt s := by
  apply run.invariant
  · rintro s rfl
    constructor <;> simp [State.order, total]
  · intro s i s' inv undisturbed taken
    exact inv.step undisturbed (counterStep (keeps i) taken)

/-! ### Results of `incr` -/

omit [DecidableEq ι] in
theorem CounterInv.linearization {initial : Int} (inv : CounterInv call key initial s)
    (range : Representable call initial (s.order call key)) :
    Linearization call key initial s (s.order call key) := by
  constructor
  · exact inv.nodup
  · exact fun i member => ((inv.started i).mp member).1
  · intro i value increments returned
    exact (inv.started i).mpr ⟨increments, by simp [returned]⟩
  · exact inv.result range

/-- The `incr` calls on `key`, `n` of them, have returned the values `1..n`, each once. -/
structure CountsUp [Fintype ι] (call : ι → Call) (key : String) (s : State ι) (n : Nat) :
    Prop where
  count : n = (Finset.univ.filter fun i => (call i).Increments key).card
  between : ∀ i, (call i).Increments key →
    ∃ value, s.pc i = .returned value ∧ 1 ≤ value.toInt ∧ value.toInt ≤ n
  once : ∀ m : Nat, 1 ≤ m → m ≤ n →
    ∃! i, (call i).Increments key ∧ ∃ value, s.pc i = .returned value ∧ value.toInt = m

omit [DecidableEq ι] in
theorem total_of_ones {order : List ι} (ones : ∀ i ∈ order, (call i).delta = 1) :
    total call order = order.length := by
  induction order with
  | nil => rfl
  | cons i rest ih =>
    have one : total call [i] = 1 := by
      rw [total_singleton, ones i (by simp)]
      rfl
    have later := ih fun j member => ones j (by simp [member])
    rw [← List.singleton_append, total_append, one, later]
    simp [Int.add_comm]

/-- With unit increments from zero, the place of a call in the order is its result. -/
theorem Linearization.countsUp [Fintype ι] {order : List ι}
    (lin : Linearization call key 0 s order)
    (ones : ∀ i, (call i).Increments key → (call i).delta = 1)
    (returned : ∀ i, (call i).Increments key → ∃ value, s.pc i = .returned value) :
    CountsUp call key s order.length := by
  have member (i : ι) : i ∈ order ↔ (call i).Increments key := by
    constructor
    · exact lin.increments i
    · intro increments
      obtain ⟨value, isReturned⟩ := returned i increments
      exact lin.complete i value increments isReturned
  -- the calls up to this one have added one each
  have place {before after : List ι} {i : ι} {value : Int64} (split : order = before ++ i :: after)
      (isReturned : s.pc i = .returned value) : value.toInt = before.length + 1 := by
    have result := lin.result before i after value split isReturned
    have unit : ∀ j ∈ before ++ [i], (call j).delta = 1 := by
      intro j inPrefix
      apply ones j
      rw [← member j, split]
      rw [List.mem_append, List.mem_singleton] at inPrefix
      rw [List.mem_append, List.mem_cons]
      exact inPrefix.imp_right .inl
    rw [result, total_of_ones unit]
    simp
  constructor
  · rw [← List.toFinset_card_of_nodup lin.nodup]
    congr 1
    ext i
    simp [member]
  · intro i increments
    obtain ⟨before, after, split⟩ := List.append_of_mem ((member i).mpr increments)
    obtain ⟨value, isReturned⟩ := returned i increments
    have result := place split isReturned
    have length : order.length = before.length + (after.length + 1) := by rw [split]; simp
    exact ⟨value, isReturned, by omega, by omega⟩
  -- the call at place m - 1 returns m, and no other is at this place
  · intro m low high
    have inside : m - 1 < order.length := by omega
    have split : order = order.take (m - 1) ++ order[m - 1] :: order.drop (m - 1 + 1) := by
      simp
    have increments := (member order[m - 1]).mp (List.getElem_mem inside)
    obtain ⟨value, isReturned⟩ := returned _ increments
    have result := place split isReturned
    rw [List.length_take_of_le (Nat.le_of_lt inside)] at result
    refine ⟨order[m - 1], ⟨increments, value, isReturned, by omega⟩, ?_⟩
    rintro j ⟨increments', value', isReturned', same⟩
    obtain ⟨before, after, split'⟩ := List.append_of_mem ((member j).mpr increments')
    have result' := place split' isReturned'
    have length : before.length = m - 1 := by omega
    have found : order[m - 1]? = some j := by rw [split', ← length]; simp
    rw [List.getElem?_eq_getElem inside] at found
    exact (Option.some.inj found).symm

/-- In every interleaving in which no changing increment falls between another call's increment
and its read-back, and while the partial sums fit, the calls on a counter return the values
their own increments produced; in particular `n` calls with delta 1 on an absent key return
`1..n`, each once. -/
theorem incr_linearizable [Fintype ι] (call : ι → Call) (inner₀ : Inner ι) (key : String)
    (keeps : ∀ i, (call i).KeepsCounter key) {s : State ι}
    (run : (machine call inner₀).ReachableBy (Undisturbed call key) s)
    (range : Representable call (inner₀.getCounter key).toInt (s.order call key)) :
    Linearization call key (inner₀.getCounter key).toInt s (s.order call key) ∧
      (inner₀.get key = none → (∀ i, (call i).Increments key → (call i).delta = 1) →
        (∀ i, (call i).Increments key → ∃ value, s.pc i = .returned value) →
        ∃ n, CountsUp call key s n) := by
  have lin := (counterInv_of_reachableBy keeps run).linearization range
  refine ⟨lin, fun absent ones returned => ?_⟩
  have zero : (inner₀.getCounter key).toInt = 0 := by simp [Inner.getCounter, absent]
  rw [zero] at lin
  exact ⟨_, lin.countsUp ones returned⟩

/-- Two tasks that draw an id from the same counter. -/
def drawTwoIds (_ : Fin 2) : Call := .incr "id" 1

/-- One call after the other: they return 1 and 2. -/
theorem incr_linearizable_in_turn :
    ∃ s : State (Fin 2),
      (machine drawTwoIds Inner.default).ReachableBy (Undisturbed drawTwoIds "id") s ∧
        (s.pc 0 = .returned 1 ∧ s.pc 1 = .returned 2) ∧
        Linearization drawTwoIds "id" 0 s (s.order drawTwoIds "id") ∧
        ∃ n, CountsUp drawTwoIds "id" s n := by
  obtain ⟨s, run, first, second, log⟩ := Machine.exists_reachableBy_of_exec
    (machine drawTwoIds Inner.default) (Undisturbed drawTwoIds "id")
    (fun s => s.pc 0 = .returned 1 ∧ s.pc 1 = .returned 2 ∧ s.log = [0, 1])
    [0, 0, 1, 1] rfl (by decide)
  have order : s.order drawTwoIds "id" = [0, 1] := by rw [State.order, log]; decide
  -- no sum on the way overflows
  have range : Representable drawTwoIds 0 (s.order drawTwoIds "id") := by
    intro before isPrefix
    rw [order, ← List.mem_inits] at isPrefix
    revert before
    decide
  have zero : ((Inner.default : Inner (Fin 2)).getCounter "id").toInt = 0 := by decide
  obtain ⟨lin, counts⟩ := incr_linearizable drawTwoIds Inner.default "id" (fun _ => trivial) run
    (zero ▸ range)
  refine ⟨s, run, ⟨first, second⟩, zero ▸ lin, counts rfl (fun _ _ => rfl) ?_⟩
  intro i _
  rcases (by omega : i = 0 ∨ i = 1) with rfl | rfl
  · exact ⟨1, first⟩
  · exact ⟨2, second⟩

/-- Both calls increment before either reads its result back: both return 2, which is no
linearization. -/
theorem incr_results_collide :
    ∃ s : State (Fin 2), (machine drawTwoIds Inner.default).Reachable s ∧
      (s.pc 0 = .returned 2 ∧ s.pc 1 = .returned 2) ∧
      Representable drawTwoIds 0 (s.order drawTwoIds "id") ∧
      ¬ ∃ order, Linearization drawTwoIds "id" 0 s order := by
  obtain ⟨s, run, first, second, log⟩ := Machine.exists_reachableBy_of_exec
    (machine drawTwoIds Inner.default) (fun _ _ => True)
    (fun s => s.pc 0 = .returned 2 ∧ s.pc 1 = .returned 2 ∧ s.log = [0, 1])
    [0, 1, 0, 1] rfl (by decide)
  refine ⟨s, run, ⟨first, second⟩, ?_, ?_⟩
  · have order : s.order drawTwoIds "id" = [0, 1] := by rw [State.order, log]; decide
    intro before isPrefix
    rw [order, ← List.mem_inits] at isPrefix
    revert before
    decide
  · rintro ⟨order, lin⟩
    -- whichever call comes first, its own increment produced 1
    cases order with
    | nil =>
      have member := lin.complete 0 2 rfl first
      simp at member
    | cons i rest =>
      have returned : s.pc i = .returned 2 := by
        rcases (by omega : i = 0 ∨ i = 1) with rfl | rfl
        · exact first
        · exact second
      have result := lin.result [] i rest 2 rfl returned
      simp [drawTwoIds, Call.delta] at result

end Wrkr.Shared

import Mathlib.Data.Finset.Card
import Mathlib.Data.Fintype.Basic
import Wrkr.Lib.Machine
import Wrkr.Metrics.Interning

/-!
# Threads that intern

`Interner::get_or_intern` looks a string up under the read lock of `map`, lets go of it, and
inserts under the write locks of `map` and `vec` after a second look. Between the two looks other
threads may have interned the string. `interner_bijective` says that nothing comes of it: outside
of the write section `map` and `vec` are inverse to each other, and what the calls return fits
together over the whole run.
-/
namespace Wrkr.Metrics

open Wrkr.Lib

namespace Interner

/-- `map` and `vec` are inverse to each other, and the ids are the numbers below the length. -/
structure Inverse (n : Interner) : Prop where
  nodup : n.vec.Nodup
  agree (s : String) (id : KeyId) : n.map.get? s = some id ↔ n.vec[id.toNat]? = some s
  contiguous (id : KeyId) : (∃ s, n.map.get? s = some id) ↔ id.toNat < n.vec.length

theorem Ample.inverse {n : Interner} (ample : n.Ample) : n.Inverse := by
  have agree (s : String) (id : KeyId) :
      n.map.get? s = some id ↔ n.vec[id.toNat]? = some s := by
    constructor
    · exact ample.resolve
    · intro here
      rw [ample.wf.agree]
      exact ⟨id.toNat, here, (UInt32.ofNat_toNat).symm⟩
  refine ⟨ample.wf.nodup, agree, fun id => ?_⟩
  simp only [agree, List.getElem?_eq_some_iff]
  constructor
  -- the ids are the positions in `vec`
  · rintro ⟨s, low, -⟩
    exact low
  · intro low
    exact ⟨n.vec[id.toNat], low, rfl⟩

end Interner

namespace InternerRace

inductive Call
  | getOrIntern (s : String)
  | resolve (id : KeyId)
  deriving DecidableEq, Repr

/-- Where a thread stands. Which guards it has there is said by `mapRead`, `mapWrite`, `vecRead`
and `vecWrite`. -/
inductive Pc
  | idle
  /-- Before `self.map.read()`. -/
  | lookupLock (s : String)
  | lookup (s : String)
  | hit (s : String) (id : KeyId)
  /-- Not found; the guard is dropped at the end of its block. -/
  | miss (s : String)
  /-- Before `self.map.write()`. -/
  | mapLock (s : String)
  /-- Before `self.vec.write()`. -/
  | vecLock (s : String)
  /-- Before the second look. -/
  | recheck (s : String)
  /-- Before `vec.push`. -/
  | push (s : String) (id : KeyId)
  /-- Before `map.insert`: the string is in `vec` only. -/
  | insert (s : String) (id : KeyId)
  /-- The guards are dropped in the reverse order of their locks. -/
  | leaveVec (s : String) (id : KeyId)
  | leaveMap (s : String) (id : KeyId)
  /-- Before `self.vec.read()`. -/
  | resolveLock (id : KeyId)
  | resolving (id : KeyId)
  | resolved (id : KeyId) (answer : Option String)
  deriving DecidableEq, Repr

namespace Pc

def mapRead : Pc → Bool
  | .lookup _ | .hit .. | .miss _ => true
  | _ => false

/-- The critical section of a writer. -/
def mapWrite : Pc → Bool
  | .vecLock _ | .recheck _ | .push .. | .insert .. | .leaveVec .. | .leaveMap .. => true
  | _ => false

def vecRead : Pc → Bool
  | .resolving _ | .resolved .. => true
  | _ => false

def vecWrite : Pc → Bool
  | .recheck _ | .push .. | .insert .. | .leaveVec .. => true
  | _ => false

/-- The thread at the second position keeps the thread at the first from its next step. -/
def blockedBy : Pc → Pc → Bool
  | .lookupLock _, other => other.mapWrite
  | .mapLock _, other => other.mapRead || other.mapWrite
  | .vecLock _, other => other.vecRead || other.vecWrite
  | .resolveLock _, other => other.vecWrite
  | _, _ => false

/-- The string of a `get_or_intern`. -/
def text : Pc → Option String
  | .lookupLock s | .lookup s | .hit s _ | .miss s | .mapLock s | .vecLock s | .recheck s
  | .push s _ | .insert s _ | .leaveVec s _ | .leaveMap s _ => some s
  | _ => none

/-- What the next step returns from `get_or_intern`. -/
def returns : Pc → Option (String × KeyId)
  | .hit s id | .leaveMap s id => some (s, id)
  | _ => none

/-- The string that is in `vec` and not yet in `map`. -/
def pushed : Pc → List String
  | .insert s _ => [s]
  | _ => []

end Pc

/-- A return of `resolve`, with the ids that had been handed out when the call began. -/
structure Answer where
  since : List (String × KeyId)
  id : KeyId
  answer : Option String
  deriving DecidableEq, Repr

def Pc.answers (since : List (String × KeyId)) : Pc → Option Answer
  | .resolved id answer => some ⟨since, id, answer⟩
  | _ => none

variable {ι : Type}

/-- The fields after `pc` record what the calls returned; no step reads them. -/
structure State (ι : Type) where
  interner : Interner
  pc : ι → Pc
  returned : List (String × KeyId)
  /-- What had been returned when the call of the thread began. -/
  since : ι → List (String × KeyId)
  answered : List Answer

inductive Action (ι : Type)
  | begin (t : ι) (call : Call)
  | step (t : ι)

def enter : Call → Pc
  | .getOrIntern s => .lookupLock s
  | .resolve id => .resolveLock id

/-- A thread goes on at `pc`. -/
def State.goto [DecidableEq ι] (s : State ι) (t : ι) (interner : Interner) (pc : Pc) : State ι :=
  { s with interner, pc := Function.update s.pc t pc }

/-- The returns that come with the next step of the thread. -/
def State.log (s : State ι) (t : ι) : State ι :=
  { s with
    returned := s.returned ++ (s.pc t).returns.toList
    answered := s.answered ++ ((s.pc t).answers (s.since t)).toList }

/-- The ids that are out are put down for the call of the thread. -/
def State.note [DecidableEq ι] (s : State ι) (t : ι) : State ι :=
  { s with since := Function.update s.since t s.returned }

/-- The next atomic step at a position that nobody blocks. -/
def advance (n : Interner) : Pc → Interner × Pc
  | .idle => (n, .idle)
  | .lookupLock s => (n, .lookup s)
  | .lookup s =>
    match n.map.get? s with
    | some id => (n, .hit s id)
    | none => (n, .miss s)
  | .hit _ _ => (n, .idle)
  | .miss s => (n, .mapLock s)
  | .mapLock s => (n, .vecLock s)
  | .vecLock s => (n, .recheck s)
  -- another thread may have inserted it since the first look
  | .recheck s =>
    match n.map.get? s with
    | some id => (n, .leaveVec s id)
    | none => (n, .push s (UInt32.ofNat n.vec.length))
  | .push s id => ({ n with vec := n.vec ++ [s] }, .insert s id)
  | .insert s id => ({ n with map := n.map.insert s id }, .leaveVec s id)
  | .leaveVec s id => (n, .leaveMap s id)
  | .leaveMap _ _ => (n, .idle)
  | .resolveLock id => (n, .resolving id)
  | .resolving id => (n, .resolved id (n.resolve id))
  | .resolved _ _ => (n, .idle)

section Steps

variable [Fintype ι] [DecidableEq ι]

def step (s : State ι) : Action ι → Option (State ι)
  | .begin t call =>
    if s.pc t = .idle then some ((s.note t).goto t s.interner (enter call)) else none
  | .step t =>
    if s.pc t = .idle ∨ ∃ u, (s.pc t).blockedBy (s.pc u) = true then none
    else
      let (interner, pc) := advance s.interner (s.pc t)
      some ((s.log t).goto t interner pc)

variable (ι) in
def machine : Machine (State ι) (Action ι) where
  init s := s = ⟨Interner.new, fun _ => .idle, [], fun _ => [], []⟩
  step := step

/-- The strings of the run are among `names`. -/
def CallsWithin (names : Finset String) (_ : State ι) : Action ι → Prop
  | .begin _ (.getOrIntern s) => s ∈ names
  | _ => True

instance (names : Finset String) (s : State ι) : (a : Action ι) → Decidable (CallsWithin names s a)
  | .begin _ (.getOrIntern s) => inferInstanceAs (Decidable (s ∈ names))
  | .begin _ (.resolve _) | .step _ => isTrue trivial

end Steps

/-- What the threads can rely on in a state of a run. -/
structure Bijective (s : State ι) : Prop where
  /-- Whenever no writer is inside its critical section. -/
  inverse : (∀ t, (s.pc t).mapWrite = false) → s.interner.Inverse
  one_id (str : String) (id id' : KeyId) :
    (str, id) ∈ s.returned → (str, id') ∈ s.returned → id = id'
  distinct (str str' : String) (id : KeyId) :
    (str, id) ∈ s.returned → (str', id) ∈ s.returned → str = str'
  /-- An id that is out stays the id of its string, and resolves to it. -/
  kept (str : String) (id : KeyId) : (str, id) ∈ s.returned →
    s.interner.map.get? str = some id ∧ s.interner.resolve id = some str
  answered : ∀ r ∈ s.answered, ∀ str, (str, r.id) ∈ r.since → r.answer = some str

/-! ### Invariant -/

/-- What a thread at this position knows of the interner that the finished inserts have made. -/
def Pc.Knows (n : Interner) (since : List (String × KeyId)) : Pc → Prop
  | .push s id | .insert s id => n.map.get? s = none ∧ id = UInt32.ofNat n.vec.length
  | .hit s id | .leaveVec s id | .leaveMap s id => n.map.get? s = some id
  | .resolved id answer => ∀ s, (s, id) ∈ since → answer = some s
  | _ => True

/-- `n` is the interner as the finished inserts have left it. -/
structure Inv (names : Finset String) (n : Interner) (s : State ι) : Prop where
  wf : n.Wf
  within : ∀ str ∈ n.vec, str ∈ names
  text (t : ι) (str : String) : (s.pc t).text = some str → str ∈ names
  exclusive (t u : ι) : (s.pc t).mapWrite = true → (s.pc u).mapWrite = true → t = u
  map : s.interner.map = n.map
  /-- A push comes before its insert. -/
  vec_writer (t : ι) : (s.pc t).mapWrite = true → s.interner.vec = n.vec ++ (s.pc t).pushed
  vec_quiet : (∀ t, (s.pc t).mapWrite = false) → s.interner.vec = n.vec
  knows (t : ι) : (s.pc t).Knows n (s.since t)
  returned (str : String) (id : KeyId) : (str, id) ∈ s.returned → n.map.get? str = some id
  since (t : ι) : s.since t ⊆ s.returned
  answered : ∀ r ∈ s.answered, ∀ str, (str, r.id) ∈ r.since → r.answer = some str

/-- Only a writer knows what is not in the map. -/
theorem Pc.Knows.mono {n n' : Interner} (ext : Interner.Extends n n')
    {since : List (String × KeyId)} {pc : Pc} (outside : pc.mapWrite = false)
    (knows : pc.Knows n since) : pc.Knows n' since := by
  cases pc with
  | hit s id => exact ext s id knows
  | resolved id answer => exact knows
  | push | insert | leaveVec | leaveMap => cases outside
  | _ => trivial

namespace Inv

variable {names : Finset String} {n n' : Interner} {s : State ι} {t : ι} {pc : Pc}

theorem ample (inv : Inv names n s) (few : names.card < 2 ^ 32) : n.Ample := by
  refine ⟨inv.wf, ?_⟩
  have subset : n.vec.toFinset ⊆ names := fun str member =>
    inv.within str (List.mem_toFinset.mp member)
  have card := Finset.card_le_card subset
  rw [List.toFinset_card_of_nodup inv.wf.nodup] at card
  exact card.trans few.le

/-- `vec` never falls behind. -/
theorem prefix_vec (inv : Inv names n s) : n.vec <+: s.interner.vec := by
  by_cases quiet : ∀ t, (s.pc t).mapWrite = false
  · rw [inv.vec_quiet quiet]
  · simp only [not_forall, Bool.not_eq_false] at quiet
    obtain ⟨t, writes⟩ := quiet
    exact ⟨_, (inv.vec_writer t writes).symm⟩

theorem resolve (inv : Inv names n s) (few : names.card < 2 ^ 32) {str : String} {id : KeyId}
    (found : n.map.get? str = some id) : s.interner.resolve id = some str := by
  obtain ⟨pushed, vec⟩ := inv.prefix_vec
  have here := (inv.ample few).resolve found
  have low := (List.getElem?_eq_some_iff.mp here).1
  rw [Interner.resolve, ← vec, List.getElem?_append_left low]
  exact here

theorem log (inv : Inv names n s) (t : ι) : Inv names n (s.log t) := by
  refine { inv with returned := ?_, since := ?_, answered := ?_ }
  · intro str id member
    rcases List.mem_append.mp member with old | new
    · exact inv.returned str id old
    have knows := inv.knows t
    cases at_ : s.pc t with
    -- an id is returned where a call ends
    | hit | leaveMap =>
      rw [at_] at knows new
      cases List.mem_singleton.mp new
      exact knows
    | _ =>
      rw [at_] at new
      cases new
  · exact fun u => List.subset_append_of_subset_left _ (inv.since u)
  · intro r member
    rcases List.mem_append.mp member with old | new
    · exact inv.answered r old
    have knows := inv.knows t
    cases at_ : s.pc t with
    | resolved id answer =>
      rw [at_] at knows new
      cases List.mem_singleton.mp new
      exact knows
    | _ =>
      rw [at_] at new
      cases new

variable [DecidableEq ι]

theorem note (inv : Inv names n s) (idle : s.pc t = .idle) : Inv names n (s.note t) := by
  refine { inv with knows := ?_, since := ?_ }
  · intro u
    by_cases same : u = t
    · subst same
      simp only [State.note, idle]
      trivial
    · simpa [State.note, same] using inv.knows u
  · intro u
    by_cases same : u = t
    · subst same
      simp [State.note]
    · simpa [State.note, same] using inv.since u

/-- A step outside of the write section. -/
theorem goto_outside (inv : Inv names n s) (was : (s.pc t).mapWrite = false)
    (still : pc.mapWrite = false) (text : ∀ str, pc.text = some str → str ∈ names)
    (knows : pc.Knows n (s.since t)) : Inv names n (s.goto t s.interner pc) := by
  -- the writers are those of before
  have writers (u : ι) : ((s.goto t s.interner pc).pc u).mapWrite = (s.pc u).mapWrite := by
    by_cases same : u = t
    · subst same
      simp [State.goto, was, still]
    · simp [State.goto, same]
  refine { inv with text := ?_, exclusive := ?_, vec_writer := ?_, vec_quiet := ?_, knows := ?_ }
  · intro u str
    by_cases same : u = t
    · subst same
      simpa [State.goto] using text str
    · simpa [State.goto, same] using inv.text u str
  -- a step outside changes neither map nor list, so only the text and the knowledge of the task
  -- itself are new
  · intro u v
    rw [writers, writers]
    exact inv.exclusive u v
  · intro u writes
    rw [writers] at writes
    have other : u ≠ t := by
      rintro rfl
      simp [was] at writes
    simpa [State.goto, other] using inv.vec_writer u writes
  · simp only [writers]
    exact inv.vec_quiet
  · intro u
    by_cases same : u = t
    · subst same
      simpa [State.goto] using knows
    · simpa [State.goto, same] using inv.knows u

/-- A step of the one writer, into its section, within it or out of it. -/
theorem goto_writer {interner : Interner} (inv : Inv names n s)
    (alone : ∀ u, u ≠ t → (s.pc u).mapWrite = false) (ext : Interner.Extends n n') (wf : n'.Wf)
    (within : ∀ str ∈ n'.vec, str ∈ names) (map : interner.map = n'.map)
    (vec : interner.vec = n'.vec ++ pc.pushed) (text : ∀ str, pc.text = some str → str ∈ names)
    (knows : pc.Knows n' (s.since t)) : Inv names n' (s.goto t interner pc) := by
  have moved : (s.goto t interner pc).pc t = pc := by simp [State.goto]
  have stays {u : ι} (other : u ≠ t) : (s.goto t interner pc).pc u = s.pc u := by
    simp [State.goto, other]
  have writer {u : ι} (writes : ((s.goto t interner pc).pc u).mapWrite = true) : u = t := by
    by_contra other
    rw [stays other, alone u other] at writes
    cases writes
  constructor
  case wf => exact wf
  case within => exact within
  case text =>
    intro u str
    by_cases same : u = t
    · rw [same, moved]
      exact text str
    · rw [stays same]
      exact inv.text u str
  case exclusive => exact fun u v left right => (writer left).trans (writer right).symm
  case map => exact map
  case vec_writer =>
    intro u writes
    rw [writer writes, moved]
    exact vec
  -- when nobody writes, the writer has just left and has nothing pushed
  case vec_quiet =>
    intro quiet
    have outside := quiet t
    rw [moved] at outside
    have none : pc.pushed = [] := by cases pc <;> first | rfl | cases outside
    have all : interner.vec = n'.vec := by simpa [none] using vec
    exact all
  -- the others know what they knew, as the interner only grows
  case knows =>
    intro u
    by_cases same : u = t
    · rw [same, moved]
      exact knows
    · rw [stays same]
      exact (inv.knows u).mono ext (alone u same)
  case returned => exact fun str id member => ext str id (inv.returned str id member)
  case since => exact inv.since
  case answered => exact inv.answered

/-- A step within the write section that leaves the finished inserts as they are. -/
theorem goto_within {interner : Interner} (inv : Inv names n s) (writes : (s.pc t).mapWrite = true)
    (map : interner.map = n.map) (vec : interner.vec = n.vec ++ pc.pushed)
    (text : ∀ str, pc.text = some str → str ∈ names) (knows : pc.Knows n (s.since t)) :
    Inv names n (s.goto t interner pc) := by
  refine inv.goto_writer ?_ (Interner.Extends.refl n) inv.wf inv.within map vec text knows
  exact fun u other => Bool.eq_false_iff.mpr fun also => other (inv.exclusive u t also writes)

/-- The insert: the interner is then what `get_or_intern` makes of it in one go. -/
theorem insert (inv : Inv names n s) {str : String} {id : KeyId} (at_ : s.pc t = .insert str id) :
    Inv names (n.getOrIntern str).1
      (s.goto t { s.interner with map := s.interner.map.insert str id } (.leaveVec str id)) := by
  have writes : (s.pc t).mapWrite = true := by rw [at_]; rfl
  have vec := inv.vec_writer t writes
  have text := inv.text t str
  have knows := inv.knows t
  rw [at_] at vec text knows
  obtain ⟨absent, rfl⟩ := knows
  -- the second look has found nothing, and the id is the next position
  have made := Interner.getOrIntern_of_none absent
  refine inv.goto_writer ?_ (Interner.getOrIntern_extends n str) (inv.wf.getOrIntern str) ?_ ?_ ?_
    ?_ ?_
  · exact fun u other => Bool.eq_false_iff.mpr fun also => other (inv.exclusive u t also writes)
  · intro str' member
    rw [made] at member
    rcases List.mem_append.mp member with old | new
    · exact inv.within str' old
    · rw [List.mem_singleton.mp new]
      exact text rfl
  · rw [made, inv.map]
  · simpa [made, Pc.pushed] using vec
  · intro str' same
    cases same
    exact text rfl
  · rw [Pc.Knows, made]
    exact HashTable.get?_insert_self ..

theorem advance [Fintype ι] (inv : Inv names n s) (few : names.card < 2 ^ 32)
    (free : ∀ u, (s.pc t).blockedBy (s.pc u) = false) :
    ∃ n', (n' = n ∨ ∃ str, n' = (n.getOrIntern str).1) ∧
      Inv names n' (s.goto t (advance s.interner (s.pc t)).1 (advance s.interner (s.pc t)).2) := by
  have text := inv.text t
  have knows := inv.knows t
  cases at_ : s.pc t with
  | idle | lookupLock str | miss str | resolveLock id | hit str id | resolved id answer =>
    rw [at_] at text
    refine ⟨n, .inl rfl, inv.goto_outside (by rw [at_]; rfl) rfl ?_ trivial⟩
    first | exact text | rintro _ ⟨⟩
  | lookup str =>
    rw [at_] at text
    refine ⟨n, .inl rfl, ?_⟩
    simp only [InternerRace.advance, inv.map]
    split
    next id found => exact inv.goto_outside (by rw [at_]; rfl) rfl text found
    next => exact inv.goto_outside (by rw [at_]; rfl) rfl text trivial
  | resolving id =>
    refine ⟨n, .inl rfl, inv.goto_outside (by rw [at_]; rfl) rfl (by rintro _ ⟨⟩) ?_⟩
    exact fun str member => inv.resolve few (inv.returned str id (inv.since t member))
  | mapLock str =>
    -- no other thread has the lock
    rw [at_] at text free
    have alone (u : ι) : (s.pc u).mapWrite = false := (Bool.or_eq_false_iff.mp (free u)).2
    have vec : s.interner.vec = n.vec ++ [] := by simpa using inv.vec_quiet alone
    exact ⟨n, .inl rfl, inv.goto_writer (fun u _ => alone u) (Interner.Extends.refl n) inv.wf
      inv.within inv.map vec text trivial⟩
  -- the writer keeps `map` locked until `leaveMap`, so the others see nothing of this
  | vecLock str =>
    have writes : (s.pc t).mapWrite = true := by rw [at_]; rfl
    have vec := inv.vec_writer t writes
    rw [at_] at text vec
    exact ⟨n, .inl rfl, inv.goto_within writes inv.map vec text trivial⟩
  | recheck str =>
    have writes : (s.pc t).mapWrite = true := by rw [at_]; rfl
    have vec := inv.vec_writer t writes
    rw [at_] at text vec
    have vec' : s.interner.vec = n.vec := by simpa [Pc.pushed] using vec
    refine ⟨n, .inl rfl, ?_⟩
    simp only [InternerRace.advance, inv.map, vec']
    split
    next id found => exact inv.goto_within writes inv.map vec text found
    next absent => exact inv.goto_within writes inv.map vec text ⟨absent, rfl⟩
  -- from here to the insert `vec` is one string ahead of `map`
  | push str id =>
    have writes : (s.pc t).mapWrite = true := by rw [at_]; rfl
    have vec := inv.vec_writer t writes
    rw [at_] at text vec knows
    have pushed : s.interner.vec ++ [str] = n.vec ++ [str] := by simpa [Pc.pushed] using vec
    exact ⟨n, .inl rfl, inv.goto_within writes inv.map pushed text knows⟩
  | insert str id => exact ⟨_, .inr ⟨str, rfl⟩, inv.insert at_⟩
  | leaveVec str id =>
    have writes : (s.pc t).mapWrite = true := by rw [at_]; rfl
    have vec := inv.vec_writer t writes
    rw [at_] at text vec knows
    exact ⟨n, .inl rfl, inv.goto_within writes inv.map vec text knows⟩
  | leaveMap str id =>
    have writes : (s.pc t).mapWrite = true := by rw [at_]; rfl
    have vec := inv.vec_writer t writes
    rw [at_] at vec
    exact ⟨n, .inl rfl, inv.goto_within writes inv.map vec (by rintro _ ⟨⟩) trivial⟩

end Inv

section Runs

variable [Fintype ι] [DecidableEq ι] {names : Finset String} {n : Interner} {s s' : State ι}

theorem step_cases {a : Action ι} (taken : step s a = some s') :
    (∃ t call, a = .begin t call ∧ s.pc t = .idle ∧
        s' = (s.note t).goto t s.interner (enter call)) ∨
      ∃ t, a = .step t ∧ (∀ u, (s.pc t).blockedBy (s.pc u) = false) ∧
        s' = (s.log t).goto t (advance s.interner (s.pc t)).1 (advance s.interner (s.pc t)).2 := by
  cases a with
  | begin t call =>
    simp only [step] at taken
    split at taken
    next idle => exact .inl ⟨t, call, rfl, idle, (Option.some.inj taken).symm⟩
    next => cases taken
  | step t =>
    simp only [step] at taken
    split at taken
    next => cases taken
    next free =>
      refine .inr ⟨t, rfl, fun u => ?_, (Option.some.inj taken).symm⟩
      exact Bool.eq_false_iff.mpr fun blocked => free (.inr ⟨u, blocked⟩)

theorem Inv.step {a : Action ι} (inv : Inv names n s) (few : names.card < 2 ^ 32)
    (within : CallsWithin names s a) (taken : step s a = some s') :
    ∃ n', (n' = n ∨ ∃ str, n' = (n.getOrIntern str).1) ∧ Inv names n' s' := by
  obtain ⟨t, call, rfl, idle, rfl⟩ | ⟨t, rfl, free, rfl⟩ := step_cases taken
  -- a thread that begins a call has no guard
  · have outside : (s.pc t).mapWrite = false := by rw [idle]; rfl
    refine ⟨n, .inl rfl, ?_⟩
    cases call with
    | getOrIntern str =>
      refine (inv.note idle).goto_outside outside rfl ?_ trivial
      intro str' same
      cases same
      exact within
    | resolve id => exact (inv.note idle).goto_outside outside rfl nofun trivial
  · exact (inv.log t).advance few free

theorem exists_inv (few : names.card < 2 ^ 32)
    (run : (machine ι).ReachableBy (CallsWithin names) s) : ∃ n, Inv names n s := by
  refine run.invariant (fun s => ∃ n, Inv names n s) ?_ ?_
  · rintro _ rfl
    exact ⟨Interner.new, Interner.wf_new, nofun, nofun, nofun, rfl, nofun, fun _ => rfl,
      fun _ => trivial, nofun, fun _ => List.Subset.refl _, nofun⟩
  · rintro s a s' ⟨n, inv⟩ within taken
    obtain ⟨n', -, inv'⟩ := inv.step few within taken
    exact ⟨n', inv'⟩

omit [Fintype ι] [DecidableEq ι] in
theorem Inv.bijective (inv : Inv names n s) (few : names.card < 2 ^ 32) : Bijective s := by
  constructor
  case inverse =>
    intro quiet
    -- with no writer in between, the two maps are those of the last whole insert
    have same : s.interner = n := congrArg₂ Interner.mk inv.map (inv.vec_quiet quiet)
    rw [same]
    exact (inv.ample few).inverse
  case one_id =>
    intro str id id' first second
    have found := inv.returned str id first
    rw [inv.returned str id' second] at found
    exact (Option.some.inj found).symm
  case distinct =>
    intro str str' id first second
    exact inv.wf.injective (inv.ample few).few (inv.returned str id first)
      (inv.returned str' id second)
  case kept =>
    intro str id member
    have found := inv.returned str id member
    exact ⟨inv.map ▸ found, inv.resolve few found⟩
  case answered => exact inv.answered

/-- No step takes an id away from a string. -/
theorem Inv.extends {a : Action ι} (inv : Inv names n s) (few : names.card < 2 ^ 32)
    (within : CallsWithin names s a) (taken : InternerRace.step s a = some s') :
    Interner.Extends s.interner s'.interner := by
  obtain ⟨n', same | ⟨str, made⟩, inv'⟩ := inv.step few within taken
  · intro str id found
    rw [inv'.map, same, ← inv.map]
    exact found
  · intro str id found
    rw [inv'.map, made]
    rw [inv.map] at found
    exact Interner.getOrIntern_extends n _ _ _ found

/-- In every state that threads with fewer than 2^32 strings reach, `map` and `vec` are inverse to
each other outside of the write section and all that was returned fits them; no step changes the
id of a string. -/
theorem interner_bijective (few : names.card < 2 ^ 32)
    (run : (machine ι).ReachableBy (CallsWithin names) s) :
    Bijective s ∧ ∀ (a : Action ι) (s' : State ι), CallsWithin names s a → step s a = some s' →
      Interner.Extends s.interner s'.interner := by
  obtain ⟨n, inv⟩ := exists_inv few run
  exact ⟨inv.bijective few, fun _ _ within taken => inv.extends few within taken⟩

/-- Two threads miss the same string one after the other; the second finds it on its second look.
A third call resolves the id. -/
theorem interner_bijective_of_race :
    ∃ s : State (Fin 2), (machine (Fin 2)).ReachableBy (CallsWithin {"GET"}) s ∧ Bijective s ∧
      s.returned = [("GET", 0), ("GET", 0)] ∧ s.answered = [⟨s.returned, 0, some "GET"⟩] := by
  obtain ⟨s, run, returned, answered⟩ := Machine.exists_reachableBy_of_exec
    (machine (Fin 2)) (CallsWithin {"GET"})
    (fun s => s.returned = [("GET", 0), ("GET", 0)] ∧
      s.answered = [⟨s.returned, 0, some "GET"⟩])
    [.begin 0 (.getOrIntern "GET"), .begin 1 (.getOrIntern "GET"),
      -- both look before either inserts
      .step 0, .step 1, .step 0, .step 1, .step 0, .step 1,
      .step 0, .step 0, .step 0, .step 0, .step 0, .step 0, .step 0,
      .step 1, .step 1, .step 1, .step 1, .step 1,
      .begin 0 (.resolve 0), .step 0, .step 0, .step 0] rfl (by decide)
  exact ⟨s, run, (interner_bijective (by simp) run).1, returned, answered⟩

end Runs

end InternerRace

end Wrkr.Metrics

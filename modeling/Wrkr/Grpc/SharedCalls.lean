import Mathlib.Data.Finset.Basic
import Mathlib.Logic.Function.Basic
import Wrkr.Grpc.Shared
import Wrkr.Lib.Machine

/-!
# Calls of a shared gRPC client by many VUs

The VUs call `load`, `connect`, `method` and `client` of one `SharedGrpcClient` at any time. A load
works under a lock; the connection is made inside a `OnceCell`, one attempt at a time, while the
other callers wait; `method` takes no lock between its look into the cache, its look at the schema
and its insert.

What a compilation or an attempt to connect comes to is left open. The schemas compiled, the
connections made and the answers given are kept as histories, the newest entry first.
-/
namespace Wrkr.Grpc

open Wrkr.Lib SharedGrpcClient

namespace SharedCalls

/-- The calls that tasks make on the shared client. -/
inductive Call
  | load (spec : LoadSpec)
  | method (fullMethod : String)
  | connect (target : String) (opts : ConnectOptions)
  | client
  deriving DecidableEq, Repr

/-- What a call returns to the task. -/
inductive Answer (Method Client π γ : Type)
  | done (result : Except (SharedError π γ) Unit)
  | method (result : Except (SharedError π γ) Method)
  | client (client : Option Client)

/-- Where a VU is in its call. -/
inductive Pc (Schema Method : Type)
  | idle
  | called (call : Call)
  /-- The VU has `load_lock`. -/
  | locked (spec : LoadSpec)
  | compiling (spec : LoadSpec)
  /-- `load_spec.set` is next. -/
  | compiled (spec : LoadSpec) (schema : Schema)
  /-- `schema.set` is next. -/
  | specSet (spec : LoadSpec) (schema : Schema)
  | clearing (spec : LoadSpec)
  | cleared (spec : LoadSpec)
  /-- The cache has no entry for the method. -/
  | missed (fullMethod : String)
  | found (fullMethod : String) (method : Method)
  /-- The arguments have been compared; `client.get_or_try_init` is next. -/
  | joining (target : String) (opts : ConnectOptions)
  | connecting (target : String) (opts : ConnectOptions)
  deriving DecidableEq, Repr

namespace Pc

variable {Schema Method : Type}

/-- Between the lock of `load` and the end of the call. -/
def InLoad : Pc Schema Method → Prop
  | .locked _ | .compiling _ | .compiled _ _ | .specSet _ _ | .clearing _ | .cleared _ => True
  | _ => False

/-- A schema is compiled, and not all cells are set. -/
def Publishing : Pc Schema Method → Prop
  | .compiled _ _ | .specSet _ _ => True
  | _ => False

/-- The task holds the lock and waits for the compiler. -/
def Compiling : Pc Schema Method → Prop
  | .compiling _ => True
  | _ => False

/-- The task has the permit and waits for the connection. -/
def Connecting : Pc Schema Method → Prop
  | .connecting _ _ => True
  | _ => False

end Pc

/-- The shared client with its lock and its permit, and where every task is. What has been compiled,
connected and answered is kept to be spoken about. -/
structure State (ι Schema Method Client π γ : Type) where
  shared : SharedGrpcClient Schema Method Client
  loadLock : Option ι
  /-- Who has the permit of the `OnceCell`. -/
  initPermit : Option ι
  pc : ι → Pc Schema Method
  schemas : List (LoadSpec × Schema)
  pools : List (ConnectSpec × Client)
  answered : List (Call × Answer Method Client π γ)

/-- A task begins a call or goes on with it; the two outcomes from outside come when they like. -/
inductive Action (ι Schema Client π γ : Type)
  | call (i : ι) (call : Call)
  | proceed (i : ι)
  /-- `compile_from_proto` returns. -/
  | compile (i : ι) (outcome : Except π Schema)
  /-- `connect_pooled` returns. -/
  | connect (i : ι) (outcome : Except γ Client)

variable {ι Schema Method Client π γ : Type} [DecidableEq ι]

namespace State

/-- Only the position of task `i` changes. -/
def goto (s : State ι Schema Method Client π γ) (i : ι) (pc : Pc Schema Method) :
    State ι Schema Method Client π γ :=
  { s with pc := Function.update s.pc i pc }

/-- The call returns, and the task is idle again. -/
def answer (s : State ι Schema Method Client π γ) (i : ι) (call : Call)
    (answer : Answer Method Client π γ) : State ι Schema Method Client π γ :=
  { s with
      pc := Function.update s.pc i .idle
      answered := (call, answer) :: s.answered }

end State

section Code

variable (schemaMethod : Schema → String → Except π Method)

/-- The next atomic step of the call of a VU; none while it waits. -/
def proceed (s : State ι Schema Method Client π γ) (i : ι) :
    Option (State ι Schema Method Client π γ) :=
  match s.pc i with
  | .idle => none
  | .called (.load spec) =>
    match s.loadLock with
    | some _ => none
    | none => some { s.goto i (.locked spec) with loadLock := some i }
  | .locked spec =>
    match s.shared.loadSpec with
    | some existing =>
      let result := if existing ≠ spec then .error .loadSpecMismatch else .ok ()
      some { s.answer i (.load spec) (.done result) with loadLock := none }
    | none => some (s.goto i (.compiling spec))
  | .compiling _ => none
  | .compiled spec schema =>
    some { s.goto i (.specSet spec schema) with
      shared := { s.shared with loadSpec := setOnce s.shared.loadSpec spec } }
  | .specSet spec schema =>
    some { s.goto i (.clearing spec) with
      shared := { s.shared with schema := setOnce s.shared.schema schema } }
  | .clearing spec =>
    some { s.goto i (.cleared spec) with shared := { s.shared with methods := [] } }
  | .cleared spec =>
    some { s.answer i (.load spec) (.done (.ok ())) with loadLock := none }
  | .called (.method fullMethod) =>
    match s.shared.methods.lookup fullMethod with
    | some existing => some (s.answer i (.method fullMethod) (.method (.ok existing)))
    | none => some (s.goto i (.missed fullMethod))
  | .missed fullMethod =>
    match s.shared.schema with
    | none => some (s.answer i (.method fullMethod) (.method (.error .notLoaded)))
    | some schema =>
      match schemaMethod schema fullMethod with
      | .error e => some (s.answer i (.method fullMethod) (.method (.error (.proto e))))
      | .ok method => some (s.goto i (.found fullMethod method))
  | .found fullMethod method =>
    -- `entry(key).or_insert_with`: another VU may have been faster
    match s.shared.methods.lookup fullMethod with
    | some existing => some (s.answer i (.method fullMethod) (.method (.ok existing)))
    | none =>
      some { s.answer i (.method fullMethod) (.method (.ok method)) with
        shared := { s.shared with methods := (fullMethod, method) :: s.shared.methods } }
  | .called (.connect target opts) =>
    match s.shared.connectSpec with
    | some existing =>
      if existing ≠ .of target opts then
        some (s.answer i (.connect target opts) (.done (.error .connectSpecMismatch)))
      else some (s.goto i (.joining target opts))
    | none =>
      some { s.goto i (.joining target opts) with
        shared := { s.shared with connectSpec := some (.of target opts) } }
  | .joining target opts =>
    match s.shared.client, s.initPermit with
    | some _, _ => some (s.answer i (.connect target opts) (.done (.ok ())))
    | none, some _ => none
    | none, none => some { s.goto i (.connecting target opts) with initPermit := some i }
  | .connecting _ _ => none
  | .called .client => some (s.answer i .client (.client s.shared.client))

/-- One step of one task. A task that waits for the lock or the permit has none until it is free. -/
def step (s : State ι Schema Method Client π γ) :
    Action ι Schema Client π γ → Option (State ι Schema Method Client π γ)
  | .call i call =>
    match s.pc i with
    | .idle => some (s.goto i (.called call))
    | _ => none
  | .proceed i => proceed schemaMethod s i
  | .compile i outcome =>
    match s.pc i with
    | .compiling spec =>
      match outcome with
      | .error e =>
        some { s.answer i (.load spec) (.done (.error (.proto e))) with loadLock := none }
      | .ok schema =>
        some { s.goto i (.compiled spec schema) with schemas := (spec, schema) :: s.schemas }
    | _ => none
  | .connect i outcome =>
    match s.pc i with
    | .connecting target opts =>
      match outcome with
      | .error e =>
        some { s.answer i (.connect target opts) (.done (.error (.grpc e))) with
          initPermit := none }
      -- the permit is given up with the cell set, and every waiting call finds the client
      | .ok client =>
        some { s.answer i (.connect target opts) (.done (.ok ())) with
          shared := { s.shared with client := some client }
          initPermit := none
          pools := (.of target opts, client) :: s.pools }
    | _ => none

variable (ι Client γ) in
/-- Any number of tasks share one client that knows nothing yet. -/
def machine :
    Machine (State ι Schema Method Client π γ) (Action ι Schema Client π γ) where
  init s := s = ⟨new, none, none, fun _ => .idle, [], [], []⟩
  step := step schemaMethod

end Code

variable {schemaMethod : Schema → String → Except π Method}
  {s s' : State ι Schema Method Client π γ} {i : ι}

/-! ### What a step does -/

/-- What is known when a call that has neither the lock nor the permit is answered. -/
inductive Justified (s : State ι Schema Method Client π γ) (i : ι) :
    Call → Answer Method Client π γ → Prop
  | cached {fullMethod : String} {method : Method} :
      s.shared.methods.lookup fullMethod = some method →
      Justified s i (.method fullMethod) (.method (.ok method))
  | notLoaded {fullMethod : String} : s.shared.schema = none →
      Justified s i (.method fullMethod) (.method (.error .notLoaded))
  | noMethod {fullMethod : String} {e : π} :
      Justified s i (.method fullMethod) (.method (.error (.proto e)))
  | otherSpec {target : String} {opts : ConnectOptions} {existing : ConnectSpec} :
      s.shared.connectSpec = some existing → existing ≠ .of target opts →
      Justified s i (.connect target opts) (.done (.error .connectSpecMismatch))
  | connected {target : String} {opts : ConnectOptions} {client : Client} :
      s.pc i = .joining target opts → s.shared.client = some client →
      Justified s i (.connect target opts) (.done (.ok ()))
  | client : Justified s i .client (.client s.shared.client)

/-- What is known of the new place of a VU outside of `load` and of an attempt to connect. -/
def Arrives (schemaMethod : Schema → String → Except π Method)
    (s : State ι Schema Method Client π γ) : Pc Schema Method → Prop
  | .called _ | .missed _ => True
  | .found fullMethod method =>
    ∃ schema, s.shared.schema = some schema ∧ schemaMethod schema fullMethod = .ok method
  | .joining target opts => s.shared.connectSpec = some (.of target opts)
  | _ => False

/-- The steps of one VU. -/
inductive Move (schemaMethod : Schema → String → Except π Method)
    (s : State ι Schema Method Client π γ) (i : ι) : State ι Schema Method Client π γ → Prop
  | go {pc : Pc Schema Method} : ¬(s.pc i).InLoad → ¬(s.pc i).Connecting →
      Arrives schemaMethod s pc → Move schemaMethod s i (s.goto i pc)
  | answer {call : Call} {answer : Answer Method Client π γ} :
      ¬(s.pc i).InLoad → ¬(s.pc i).Connecting → Justified s i call answer →
      Move schemaMethod s i (s.answer i call answer)
  | lock {spec : LoadSpec} : s.pc i = .called (.load spec) → s.loadLock = none →
      Move schemaMethod s i { s.goto i (.locked spec) with loadLock := some i }
  | loadedBefore {spec existing : LoadSpec} : s.pc i = .locked spec →
      s.shared.loadSpec = some existing →
      Move schemaMethod s i
        { s.answer i (.load spec)
            (.done (if existing ≠ spec then .error .loadSpecMismatch else .ok ())) with
          loadLock := none }
  | compile {spec : LoadSpec} : s.pc i = .locked spec → s.shared.loadSpec = none →
      Move schemaMethod s i (s.goto i (.compiling spec))
  | compileFailed {spec : LoadSpec} {e : π} : s.pc i = .compiling spec →
      Move schemaMethod s i
        { s.answer i (.load spec) (.done (.error (.proto e))) with loadLock := none }
  | compiled {spec : LoadSpec} {schema : Schema} : s.pc i = .compiling spec →
      Move schemaMethod s i
        { s.goto i (.compiled spec schema) with schemas := (spec, schema) :: s.schemas }
  | setSpec {spec : LoadSpec} {schema : Schema} : s.pc i = .compiled spec schema →
      Move schemaMethod s i
        { s.goto i (.specSet spec schema) with
          shared := { s.shared with loadSpec := setOnce s.shared.loadSpec spec } }
  | setSchema {spec : LoadSpec} {schema : Schema} : s.pc i = .specSet spec schema →
      Move schemaMethod s i
        { s.goto i (.clearing spec) with
          shared := { s.shared with schema := setOnce s.shared.schema schema } }
  | clear {spec : LoadSpec} : s.pc i = .clearing spec →
      Move schemaMethod s i
        { s.goto i (.cleared spec) with shared := { s.shared with methods := [] } }
  | loaded {spec : LoadSpec} : s.pc i = .cleared spec →
      Move schemaMethod s i
        { s.answer i (.load spec) (.done (.ok ())) with loadLock := none }
  | insert {fullMethod : String} {method : Method} : s.pc i = .found fullMethod method →
      Move schemaMethod s i
        { s.answer i (.method fullMethod) (.method (.ok method)) with
          shared := { s.shared with methods := (fullMethod, method) :: s.shared.methods } }
  | ask {target : String} {opts : ConnectOptions} : s.pc i = .called (.connect target opts) →
      s.shared.connectSpec = none →
      Move schemaMethod s i
        { s.goto i (.joining target opts) with
          shared := { s.shared with connectSpec := some (.of target opts) } }
  | attempt {target : String} {opts : ConnectOptions} : s.pc i = .joining target opts →
      s.shared.client = none → s.initPermit = none →
      Move schemaMethod s i { s.goto i (.connecting target opts) with initPermit := some i }
  | connectFailed {target : String} {opts : ConnectOptions} {e : γ} :
      s.pc i = .connecting target opts →
      Move schemaMethod s i
        { s.answer i (.connect target opts) (.done (.error (.grpc e))) with initPermit := none }
  | connected {target : String} {opts : ConnectOptions} {client : Client} :
      s.pc i = .connecting target opts →
      Move schemaMethod s i
        { s.answer i (.connect target opts) (.done (.ok ())) with
          shared := { s.shared with client := some client }
          initPermit := none
          pools := (.of target opts, client) :: s.pools }

/-- The idea: a position decides which of the moves the step is. Where the source branches on what
is shared (the lock, the specs, the cell of the connection), the proof branches on the same value,
so each leaf is one constructor. -/
theorem proceed_move (taken : proceed schemaMethod s i = some s') : Move schemaMethod s i s' := by
  unfold proceed at taken
  split at taken
  next => cases taken
  -- `load` waits for the lock, and then goes by what an earlier one has left
  next spec here =>
    split at taken
    next => cases taken
    next free =>
      cases taken
      exact .lock here free
  next spec here =>
    split at taken
    next existing remembered =>
      cases taken
      exact .loadedBefore here remembered
    next first =>
      cases taken
      exact .compile here first
  next => cases taken
  next spec schema here =>
    cases taken
    exact .setSpec here
  next spec schema here =>
    cases taken
    exact .setSchema here
  next spec here =>
    cases taken
    exact .clear here
  next spec here =>
    cases taken
    exact .loaded here
  -- `method` looks into the cache, then builds outside of its lock, then looks again
  next fullMethod here =>
    split at taken
    next existing cached =>
      cases taken
      exact .answer (by simp [here, Pc.InLoad]) (by simp [here, Pc.Connecting]) (.cached cached)
    next =>
      cases taken
      exact .go (by simp [here, Pc.InLoad]) (by simp [here, Pc.Connecting]) trivial
  next fullMethod here =>
    have outside : ¬(s.pc i).InLoad := by simp [here, Pc.InLoad]
    have still : ¬(s.pc i).Connecting := by simp [here, Pc.Connecting]
    split at taken
    next none =>
      cases taken
      exact .answer outside still (.notLoaded none)
    next schema held =>
      split at taken
      next e _ =>
        cases taken
        exact .answer outside still .noMethod
      next method built =>
        cases taken
        exact .go outside still ⟨schema, held, built⟩
  next fullMethod method here =>
    split at taken
    next existing cached =>
      cases taken
      exact .answer (by simp [here, Pc.InLoad]) (by simp [here, Pc.Connecting]) (.cached cached)
    next =>
      cases taken
      exact .insert here
  -- `connect` compares its target first and only then joins those that wait for the cell
  next target opts here =>
    split at taken
    next existing remembered =>
      split at taken
      next other =>
        cases taken
        exact .answer (by simp [here, Pc.InLoad]) (by simp [here, Pc.Connecting])
          (.otherSpec remembered other)
      next same =>
        cases taken
        refine .go (by simp [here, Pc.InLoad]) (by simp [here, Pc.Connecting]) ?_
        rw [Arrives, remembered, not_not.mp same]
    next first =>
      cases taken
      exact .ask here first
  next target opts here =>
    split at taken
    next client _ connected =>
      cases taken
      exact .answer (by simp [here, Pc.InLoad]) (by simp [here, Pc.Connecting])
        (.connected here connected)
    next => cases taken
    next none free =>
      cases taken
      exact .attempt here none free
  next => cases taken
  next here =>
    cases taken
    exact .answer (by simp [here, Pc.InLoad]) (by simp [here, Pc.Connecting]) .client

/-- The task that an action is about. -/
def Action.task : Action ι Schema Client π γ → ι
  | .call i _ | .proceed i | .compile i _ | .connect i _ => i

/-- Every step of the machine is a move of the task that takes it. -/
theorem step_move {a : Action ι Schema Client π γ} (taken : step schemaMethod s a = some s') :
    Move schemaMethod s a.task s' := by
  cases a with
  | call i call =>
    simp only [step] at taken
    split at taken
    next here =>
      cases taken
      exact .go (by simp [Action.task, here, Pc.InLoad]) (by simp [Action.task, here, Pc.Connecting])
        trivial
    next => cases taken
  | proceed i => exact proceed_move taken
  | compile i outcome =>
    simp only [step] at taken
    split at taken
    next spec here =>
      cases outcome with
      | error e =>
        cases taken
        exact .compileFailed here
      | ok schema =>
        cases taken
        exact .compiled here
    next => cases taken
  | connect i outcome =>
    simp only [step] at taken
    split at taken
    next target opts here =>
      cases outcome with
      | error e =>
        cases taken
        exact .connectFailed here
      | ok client =>
        cases taken
        exact .connected here
    next => cases taken

@[simp] theorem goto_pc_self (s : State ι Schema Method Client π γ) (i : ι)
    (pc : Pc Schema Method) : (s.goto i pc).pc i = pc := Function.update_self ..

@[simp] theorem answer_pc_self (s : State ι Schema Method Client π γ) (i : ι) (call : Call)
    (answer : Answer Method Client π γ) : (s.answer i call answer).pc i = .idle :=
  Function.update_self ..

/-- A step of a VU leaves the others where they are. -/
theorem Move.pc_other (move : Move schemaMethod s i s') {j : ι} (other : j ≠ i) :
    s'.pc j = s.pc j := by
  cases move <;> exact Function.update_of_ne other _ _

/-! ### The lock and the schema -/

/-- The cells of the schema, by where the VU is that has the lock. -/
def CellsAt (shared : SharedGrpcClient Schema Method Client) (schemas : List (LoadSpec × Schema)) :
    Option (Pc Schema Method) → Prop
  | some (.compiling _) => shared.loadSpec = none ∧ shared.schema = none ∧ schemas = []
  | some (.compiled spec schema) =>
    shared.loadSpec = none ∧ shared.schema = none ∧ schemas = [(spec, schema)]
  | some (.specSet spec schema) =>
    shared.loadSpec = some spec ∧ shared.schema = none ∧ schemas = [(spec, schema)]
  | some (.clearing spec) | some (.cleared spec) =>
    ∃ schema, shared.loadSpec = some spec ∧ shared.schema = some schema ∧
      schemas = [(spec, schema)]
  | _ =>
    (shared.loadSpec = none ∧ shared.schema = none ∧ schemas = []) ∨
      ∃ spec schema, shared.loadSpec = some spec ∧ shared.schema = some schema ∧
        schemas = [(spec, schema)]

/-- Only the task that holds the lock is inside of `load`, and what the cells hold fits what has
been compiled and how far that task has come. -/
structure LoadInv (s : State ι Schema Method Client π γ) : Prop where
  lock : ∀ i, s.loadLock = some i ↔ (s.pc i).InLoad
  cells : CellsAt s.shared s.schemas (s.loadLock.map s.pc)

omit [DecidableEq ι] in
/-- The cells as the holder of the lock sees them. -/
theorem LoadInv.at (inv : LoadInv s) {pc : Pc Schema Method} (here : s.pc i = pc)
    (inLoad : pc.InLoad) : CellsAt s.shared s.schemas (some pc) := by
  have held := (inv.lock i).mpr (here ▸ inLoad)
  have cells := inv.cells
  rwa [held, Option.map_some, here] at cells

omit [DecidableEq ι] in
/-- A published schema is the only one that has been compiled. -/
theorem LoadInv.published (inv : LoadInv s) {schema : Schema} (held : s.shared.schema = some schema) :
    ∃ spec, s.shared.loadSpec = some spec ∧ s.schemas = [(spec, schema)] := by
  have cells := inv.cells
  unfold CellsAt at cells
  split at cells
  next => simp [held] at cells
  next => simp [held] at cells
  next => simp [held] at cells
  next spec _ =>
    obtain ⟨schema', remembered, held', compiled⟩ := cells
    rw [held] at held'
    cases held'
    exact ⟨spec, remembered, compiled⟩
  next spec _ =>
    obtain ⟨schema', remembered, held', compiled⟩ := cells
    rw [held] at held'
    cases held'
    exact ⟨spec, remembered, compiled⟩
  next =>
    rcases cells with ⟨-, none, -⟩ | ⟨spec, schema', remembered, held', compiled⟩
    · rw [held] at none
      cases none
    · rw [held] at held'
      cases held'
      exact ⟨spec, remembered, compiled⟩

/-- The holder of the lock stays in `load`. -/
theorem LoadInv.within (inv : LoadInv s) (inLoad : (s.pc i).InLoad) (lock : s'.loadLock = s.loadLock)
    (others : ∀ j, j ≠ i → s'.pc j = s.pc j) (still : (s'.pc i).InLoad)
    (cells : CellsAt s'.shared s'.schemas (some (s'.pc i))) : LoadInv s' := by
  have held := (inv.lock i).mpr inLoad
  constructor
  · intro j
    by_cases same : j = i
    · subst same
      simp [lock, held, still]
    · rw [lock, others j same]
      exact inv.lock j
  · rwa [lock, held, Option.map_some]

/-- The holder of the lock is done. -/
theorem LoadInv.release (inv : LoadInv s) (inLoad : (s.pc i).InLoad) (lock : s'.loadLock = none)
    (others : ∀ j, j ≠ i → s'.pc j = s.pc j) (done : ¬(s'.pc i).InLoad)
    (cells : CellsAt s'.shared s'.schemas none) : LoadInv s' := by
  have held := (inv.lock i).mpr inLoad
  constructor
  · intro j
    rw [lock]
    by_cases same : j = i
    · subst same
      simp [done]
    -- only the holder was inside
    · have free : ¬(s.pc j).InLoad := by
        rw [← inv.lock j, held, Option.some.injEq]
        exact fun eq => same eq.symm
      simp [others j same, free]
  · rwa [lock, Option.map_none]

/-- A step that has nothing to do with `load`. -/
theorem LoadInv.elsewhere (inv : LoadInv s) (outside : ¬(s.pc i).InLoad)
    (lock : s'.loadLock = s.loadLock) (others : ∀ j, j ≠ i → s'.pc j = s.pc j)
    (still : ¬(s'.pc i).InLoad) (loadSpec : s'.shared.loadSpec = s.shared.loadSpec)
    (schema : s'.shared.schema = s.shared.schema) (schemas : s'.schemas = s.schemas) :
    LoadInv s' := by
  constructor
  · intro j
    by_cases same : j = i
    · subst same
      rw [lock, inv.lock j]
      simp [outside, still]
    · rw [lock, others j same]
      exact inv.lock j
  -- the holder of the lock, if any, is another task, and stands where it stood
  · have place : s'.loadLock.map s'.pc = s.loadLock.map s.pc := by
      rw [lock]
      cases held : s.loadLock with
      | none => rfl
      | some j =>
        have other : j ≠ i := by
          rintro rfl
          exact outside ((inv.lock j).mp held)
        simp [others j other]
    have cells := inv.cells
    rw [place]
    unfold CellsAt at cells ⊢
    rwa [loadSpec, schema, schemas]

/-- Every move keeps the invariant of the lock: only its holder touches the cells of `load`, so for
everybody else nothing changes. -/
theorem LoadInv.move (inv : LoadInv s) (move : Move schemaMethod s i s') : LoadInv s' := by
  have others (j : ι) (other : j ≠ i) : s'.pc j = s.pc j := move.pc_other other
  cases move with
  | @go pc outside _ arrives =>
    refine inv.elsewhere outside rfl others ?_ rfl rfl rfl
    rw [goto_pc_self]
    cases pc <;> simp_all [Arrives, Pc.InLoad]
  | answer outside _ _ =>
    refine inv.elsewhere outside rfl others ?_ rfl rfl rfl
    simp [Pc.InLoad]
  -- the only move that takes the lock: nobody is between lock and unlock
  | @lock spec here free =>
    have cells := inv.cells
    rw [free] at cells
    have nobody (j : ι) : ¬(s.pc j).InLoad := by
      rw [← inv.lock j, free]
      simp
    constructor
    · intro j
      by_cases same : j = i
      · subst same
        simp [Pc.InLoad]
      · have place : (s.goto i (.locked spec)).pc j = s.pc j := others j same
        simp only [place, nobody j, iff_false, Option.some.injEq]
        exact fun eq => same eq.symm
    · change CellsAt s.shared s.schemas (some ((s.goto i (.locked spec)).pc i))
      rw [goto_pc_self]
      exact cells
  | loadedBefore here remembered =>
    have cells := inv.at here trivial
    exact inv.release (by simp [here, Pc.InLoad]) rfl others (by simp [Pc.InLoad]) cells
  | compile here first =>
    refine inv.within (by simp [here, Pc.InLoad]) rfl others (by simp [Pc.InLoad]) ?_
    rw [goto_pc_self]
    rcases inv.at here trivial with fresh | ⟨spec, schema, remembered, -⟩
    · exact fresh
    · rw [first] at remembered
      cases remembered
  | compileFailed here =>
    exact inv.release (by simp [here, Pc.InLoad]) rfl others (by simp [Pc.InLoad])
      (.inl (inv.at here trivial))
  | compiled here =>
    refine inv.within (by simp [here, Pc.InLoad]) rfl others (by simp [Pc.InLoad]) ?_
    obtain ⟨first, none, nothing⟩ := inv.at here trivial
    rw [goto_pc_self]
    exact ⟨first, none, by rw [nothing]⟩
  -- both cells are still empty here, so each `setOnce` is the one that counts
  | setSpec here =>
    refine inv.within (by simp [here, Pc.InLoad]) rfl others (by simp [Pc.InLoad]) ?_
    obtain ⟨first, none, compiled⟩ := inv.at here trivial
    rw [goto_pc_self]
    exact ⟨by simp [first, setOnce], none, compiled⟩
  | @setSchema spec schema here =>
    refine inv.within (by simp [here, Pc.InLoad]) rfl others (by simp [Pc.InLoad]) ?_
    obtain ⟨remembered, none, compiled⟩ := inv.at here trivial
    rw [goto_pc_self]
    exact ⟨schema, remembered, by simp [none, setOnce], compiled⟩
  | clear here =>
    refine inv.within (by simp [here, Pc.InLoad]) rfl others (by simp [Pc.InLoad]) ?_
    rw [goto_pc_self]
    exact inv.at here trivial
  | loaded here =>
    obtain ⟨schema, published⟩ := inv.at here trivial
    exact inv.release (by simp [here, Pc.InLoad]) rfl others (by simp [Pc.InLoad])
      (.inr ⟨_, schema, published⟩)
  -- the moves of `method` and `connect` touch no cell of `load`
  | insert here | connectFailed here | connected here =>
    exact inv.elsewhere (by simp [here, Pc.InLoad]) rfl others (by simp [Pc.InLoad]) rfl rfl rfl
  | ask here _ =>
    exact inv.elsewhere (by simp [here, Pc.InLoad]) rfl others (by simp [Pc.InLoad]) rfl rfl rfl
  | attempt here _ _ =>
    exact inv.elsewhere (by simp [here, Pc.InLoad]) rfl others (by simp [Pc.InLoad]) rfl rfl rfl

/-! ### The permit and the connection -/

/-- One task at most has the permit of the cell, it has asked for the target that is stored, and the
connection is the one that was made for it. -/
structure ConnectInv (s : State ι Schema Method Client π γ) : Prop where
  permit : ∀ i, s.initPermit = some i ↔ (s.pc i).Connecting
  /-- An attempt is made only as long as there is no connection. -/
  waiting : s.initPermit ≠ none → s.shared.client = none
  asked : ∀ i target opts, (s.pc i = .joining target opts ∨ s.pc i = .connecting target opts) →
    s.shared.connectSpec = some (.of target opts)
  unconnected : s.shared.client = none → s.pools = []
  pool : ∀ client, s.shared.client = some client →
    ∃ spec, s.shared.connectSpec = some spec ∧ s.pools = [(spec, client)]

/-- A step that has nothing to do with an attempt to connect. -/
theorem ConnectInv.elsewhere (inv : ConnectInv s) (outside : ¬(s.pc i).Connecting)
    (permit : s'.initPermit = s.initPermit) (others : ∀ j, j ≠ i → s'.pc j = s.pc j)
    (still : ¬(s'.pc i).Connecting)
    (arrives : ∀ target opts, s'.pc i = .joining target opts →
      s.shared.connectSpec = some (.of target opts))
    (spec : s'.shared.connectSpec = s.shared.connectSpec)
    (client : s'.shared.client = s.shared.client) (pools : s'.pools = s.pools) :
    ConnectInv s' := by
  constructor
  case permit =>
    intro j
    by_cases same : j = i
    · subst same
      rw [permit, inv.permit j]
      simp [outside, still]
    · rw [permit, others j same]
      exact inv.permit j
  case waiting =>
    rw [permit, client]
    exact inv.waiting
  -- a task that joins has just found its own target stored
  case asked =>
    intro j target opts place
    rw [spec]
    by_cases same : j = i
    · subst same
      rcases place with joining | connecting
      · exact arrives target opts joining
      · rw [connecting] at still
        exact absurd trivial still
    · rw [others j same] at place
      exact inv.asked j target opts place
  case unconnected =>
    rw [client, pools]
    exact inv.unconnected
  case pool =>
    rw [client, pools, spec]
    exact inv.pool

/-- An attempt ends, and a connection that it has made is the first. -/
theorem ConnectInv.settle (inv : ConnectInv s) {target : String} {opts : ConnectOptions}
    (here : s.pc i = .connecting target opts) (permit : s'.initPermit = none)
    (others : ∀ j, j ≠ i → s'.pc j = s.pc j) (done : s'.pc i = .idle)
    (spec : s'.shared.connectSpec = s.shared.connectSpec)
    (outcome : (s'.shared.client = none ∧ s'.pools = s.pools) ∨
      ∃ client, s'.shared.client = some client ∧
        s'.pools = (.of target opts, client) :: s.pools) : ConnectInv s' := by
  have held := (inv.permit i).mpr (by rw [here]; trivial)
  have nothing := inv.unconnected (inv.waiting (by simp [held]))
  have asked := inv.asked i target opts (.inr here)
  constructor
  case permit =>
    intro j
    rw [permit]
    by_cases same : j = i
    · subst same
      simp [done, Pc.Connecting]
    · have other : ¬(s.pc j).Connecting := by
        rw [← inv.permit j, held, Option.some.injEq]
        exact fun eq => same eq.symm
      simp [others j same, other]
  case waiting => exact fun holder => absurd permit holder
  case asked =>
    intro j target' opts' place
    by_cases same : j = i
    · subst same
      simp [done] at place
    · rw [others j same] at place
      rw [spec]
      exact inv.asked j target' opts' place
  -- the attempt was made while there was no connection, so an older pool is impossible
  case unconnected =>
    intro none
    rcases outcome with ⟨-, pools⟩ | ⟨client, some, -⟩
    · rw [pools, nothing]
    · rw [none] at some
      cases some
  case pool =>
    intro client some
    rcases outcome with ⟨none, -⟩ | ⟨client', some', pools⟩
    · rw [none] at some
      cases some
    · rw [some'] at some
      cases some
      exact ⟨_, spec.trans asked, by rw [pools, nothing]⟩

/-- Every move keeps the invariant of the connection. Only the holder of the permit fills the cell;
a task that joins finds the target stored before. -/
theorem ConnectInv.move (inv : ConnectInv s) (move : Move schemaMethod s i s') :
    ConnectInv s' := by
  have others (j : ι) (other : j ≠ i) : s'.pc j = s.pc j := move.pc_other other
  cases move with
  -- the one way to come to `joining` without storing the target
  | @go pc _ outside arrives =>
    refine inv.elsewhere outside rfl others ?_ ?_ rfl rfl rfl
    · rw [goto_pc_self]
      cases pc <;> simp_all [Arrives, Pc.Connecting]
    · intro target opts joining
      rw [goto_pc_self] at joining
      rwa [joining] at arrives
  | answer _ outside _ =>
    exact inv.elsewhere outside rfl others (by simp [Pc.Connecting]) (by simp) rfl rfl rfl
  | lock here _ | loadedBefore here _ | compile here _ =>
    exact inv.elsewhere (by simp [here, Pc.Connecting]) rfl others (by simp [Pc.Connecting])
      (by simp) rfl rfl rfl
  | compileFailed here | compiled here | setSpec here | setSchema here | clear here | loaded here
  | insert here =>
    exact inv.elsewhere (by simp [here, Pc.Connecting]) rfl others (by simp [Pc.Connecting])
      (by simp) rfl rfl rfl
  | @ask target opts here first =>
    -- nobody has got this far, and there is no connection
    have unconnected : s.shared.client = none := by
      cases client : s.shared.client with
      | none => rfl
      | some c =>
        obtain ⟨spec, remembered, -⟩ := inv.pool c client
        rw [first] at remembered
        cases remembered
    constructor
    case permit =>
      intro j
      by_cases same : j = i
      · subst same
        have free := inv.permit j
        rw [here] at free
        rw [goto_pc_self]
        exact free
      · have place : (s.goto i (.joining target opts)).pc j = s.pc j := others j same
        rw [place]
        exact inv.permit j
    case waiting => exact inv.waiting
    case asked =>
      intro j target' opts' place
      by_cases same : j = i
      · subst same
        simp only [goto_pc_self, Pc.joining.injEq, reduceCtorEq, or_false] at place
        rw [place.1, place.2]
      · rw [others j same] at place
        have remembered := inv.asked j target' opts' place
        rw [first] at remembered
        cases remembered
    case unconnected => exact inv.unconnected
    case pool =>
      intro c connected
      rw [unconnected] at connected
      cases connected
  | @attempt target opts here none free =>
    constructor
    case permit =>
      intro j
      by_cases same : j = i
      · subst same
        simp [Pc.Connecting]
      · have nobody : ¬(s.pc j).Connecting := by
          rw [← inv.permit j, free]
          simp
        have place : (s.goto i (.connecting target opts)).pc j = s.pc j := others j same
        simp only [place, nobody, iff_false, Option.some.injEq]
        exact fun eq => same eq.symm
    case waiting => exact fun _ => none
    case asked =>
      intro j target' opts' place
      by_cases same : j = i
      · subst same
        simp only [goto_pc_self, reduceCtorEq, Pc.connecting.injEq, false_or] at place
        rw [← place.1, ← place.2]
        exact inv.asked j target opts (.inl here)
      · rw [others j same] at place
        exact inv.asked j target' opts' place
    case unconnected => exact inv.unconnected
    case pool => exact inv.pool
  | connectFailed here =>
    have held := (inv.permit i).mpr (by rw [here]; trivial)
    exact inv.settle here rfl others (by simp) rfl (.inl ⟨inv.waiting (by simp [held]), rfl⟩)
  | connected here => exact inv.settle here rfl others (by simp) rfl (.inr ⟨_, rfl, rfl⟩)

/-! ### Cells that are set stay -/

/-- What is set stays set: the specs, the schema and the client are written once. -/
structure Grows (shared shared' : SharedGrpcClient Schema Method Client) : Prop where
  loadSpec : ∀ spec, shared.loadSpec = some spec → shared'.loadSpec = some spec
  schema : ∀ schema, shared.schema = some schema → shared'.schema = some schema
  connectSpec : ∀ spec, shared.connectSpec = some spec → shared'.connectSpec = some spec
  client : ∀ client, shared.client = some client → shared'.client = some client

theorem Grows.refl (shared : SharedGrpcClient Schema Method Client) : Grows shared shared :=
  ⟨fun _ => id, fun _ => id, fun _ => id, fun _ => id⟩

theorem setOnce_of_some {α : Type} {cell : Option α} {a : α} (set : cell = some a) (b : α) :
    setOnce cell b = some a := by rw [set, setOnce, Option.some_or]

/-- No move takes back what is set. -/
theorem Move.grows (move : Move schemaMethod s i s') (connect : ConnectInv s) :
    Grows s.shared s'.shared := by
  cases move with
  | setSpec here =>
    exact ⟨fun _ set => setOnce_of_some set _, fun _ => id, fun _ => id, fun _ => id⟩
  | setSchema here =>
    exact ⟨fun _ => id, fun _ set => setOnce_of_some set _, fun _ => id, fun _ => id⟩
  | ask here first =>
    refine ⟨fun _ => id, fun _ => id, fun spec set => ?_, fun _ => id⟩
    rw [first] at set
    cases set
  -- the permit says that nobody has published a client yet
  | connected here =>
    have held := (connect.permit i).mpr (by rw [here]; trivial)
    refine ⟨fun _ => id, fun _ => id, fun _ => id, fun client set => ?_⟩
    rw [connect.waiting (by simp [held])] at set
    cases set
  | clear here | insert here => exact ⟨fun _ => id, fun _ => id, fun _ => id, fun _ => id⟩
  | _ => exact .refl _

/-! ### The methods -/

/-- The method is what the published schema says. -/
def OfSchema (schemaMethod : Schema → String → Except π Method)
    (shared : SharedGrpcClient Schema Method Client) (fullMethod : String) (method : Method) : Prop :=
  ∃ schema, shared.schema = some schema ∧ schemaMethod schema fullMethod = .ok method

theorem OfSchema.mono {shared shared' : SharedGrpcClient Schema Method Client}
    {fullMethod : String} {method : Method} (of : OfSchema schemaMethod shared fullMethod method)
    (grows : Grows shared shared') : OfSchema schemaMethod shared' fullMethod method := by
  obtain ⟨schema, held, built⟩ := of
  exact ⟨schema, grows.schema schema held, built⟩

/-- The cached methods, and the one that a task is about to cache, are those of the loaded
schema. -/
structure CacheInv (schemaMethod : Schema → String → Except π Method)
    (s : State ι Schema Method Client π γ) : Prop where
  known : ∀ fullMethod method, s.shared.methods.lookup fullMethod = some method →
    OfSchema schemaMethod s.shared fullMethod method
  found : ∀ i fullMethod method, s.pc i = .found fullMethod method →
    OfSchema schemaMethod s.shared fullMethod method

/-- Every move keeps the cache right: the schema that it is about stays the same. -/
theorem CacheInv.move (inv : CacheInv schemaMethod s) (move : Move schemaMethod s i s')
    (grows : Grows s.shared s'.shared) : CacheInv schemaMethod s' := by
  -- what is cached after the move: `clear` empties it, `insert` adds what its VU has built
  have known : ∀ fullMethod method, s'.shared.methods.lookup fullMethod = some method →
      OfSchema schemaMethod s.shared fullMethod method := by
    cases move with
    | clear here =>
      intro fullMethod method cached
      cases cached
    | @insert name built here =>
      intro fullMethod method cached
      change ((name, built) :: s.shared.methods).lookup fullMethod = some method at cached
      rw [List.lookup_cons] at cached
      split at cached
      next same =>
        cases cached
        rw [beq_iff_eq.mp same]
        exact inv.found i name built here
      next => exact inv.known fullMethod method cached
    | _ => exact inv.known
  refine ⟨fun fullMethod method cached => (known fullMethod method cached).mono grows, ?_⟩
  intro j fullMethod method place
  -- what a VU is about to insert was built a moment ago, or was right before
  by_cases same : j = i
  · subst same
    cases move with
    | go _ _ arrives =>
      rw [goto_pc_self] at place
      rw [place] at arrives
      exact arrives
    | _ => simp at place
  · rw [move.pc_other same] at place
    exact (inv.found j fullMethod method place).mono grows

/-! ### The answers -/

/-- What an answer says about the cells. -/
inductive Holds (schemaMethod : Schema → String → Except π Method)
    (shared : SharedGrpcClient Schema Method Client) : Call → Answer Method Client π γ → Prop
  | loaded {spec : LoadSpec} {schema : Schema} : shared.loadSpec = some spec →
      shared.schema = some schema → Holds schemaMethod shared (.load spec) (.done (.ok ()))
  | otherLoad {spec other : LoadSpec} {schema : Schema} : shared.loadSpec = some other →
      shared.schema = some schema → other ≠ spec →
      Holds schemaMethod shared (.load spec) (.done (.error .loadSpecMismatch))
  | notCompiled {spec : LoadSpec} {e : π} :
      Holds schemaMethod shared (.load spec) (.done (.error (.proto e)))
  | method {fullMethod : String} {method : Method} :
      OfSchema schemaMethod shared fullMethod method →
      Holds schemaMethod shared (.method fullMethod) (.method (.ok method))
  | notLoaded {fullMethod : String} :
      Holds schemaMethod shared (.method fullMethod) (.method (.error .notLoaded))
  | noMethod {fullMethod : String} {e : π} :
      Holds schemaMethod shared (.method fullMethod) (.method (.error (.proto e)))
  | connected {target : String} {opts : ConnectOptions} {client : Client} :
      shared.connectSpec = some (.of target opts) → shared.client = some client →
      Holds schemaMethod shared (.connect target opts) (.done (.ok ()))
  | otherConnect {target : String} {opts : ConnectOptions} {other : ConnectSpec} :
      shared.connectSpec = some other → other ≠ .of target opts →
      Holds schemaMethod shared (.connect target opts) (.done (.error .connectSpecMismatch))
  | notConnected {target : String} {opts : ConnectOptions} {e : γ} :
      Holds schemaMethod shared (.connect target opts) (.done (.error (.grpc e)))
  | client {client : Client} : shared.client = some client →
      Holds schemaMethod shared .client (.client (some client))
  | noClient : Holds schemaMethod shared .client (.client none)

/-- What an answer has said stays true. -/
theorem Holds.mono {shared shared' : SharedGrpcClient Schema Method Client} {call : Call}
    {answer : Answer Method Client π γ} (holds : Holds schemaMethod shared call answer)
    (grows : Grows shared shared') : Holds schemaMethod shared' call answer := by
  cases holds with
  | loaded spec schema => exact .loaded (grows.loadSpec _ spec) (grows.schema _ schema)
  | otherLoad spec schema other =>
    exact .otherLoad (grows.loadSpec _ spec) (grows.schema _ schema) other
  | notCompiled => exact .notCompiled
  | method of => exact .method (of.mono grows)
  | notLoaded => exact .notLoaded
  | noMethod => exact .noMethod
  | connected spec client => exact .connected (grows.connectSpec _ spec) (grows.client _ client)
  | otherConnect spec other => exact .otherConnect (grows.connectSpec _ spec) other
  | notConnected => exact .notConnected
  | client connected => exact .client (grows.client _ connected)
  | noClient => exact .noClient

/-- The later answer denies what the earlier one has promised. -/
inductive Forgets : Call × Answer Method Client π γ → Call × Answer Method Client π γ → Prop
  | schema {spec : LoadSpec} {fullMethod : String} :
      Forgets (.load spec, .done (.ok ())) (.method fullMethod, .method (.error .notLoaded))
  | client {target : String} {opts : ConnectOptions} :
      Forgets (.connect target opts, .done (.ok ())) (.client, .client none)

/-- The answers given so far are true of what is shared, and no later one forgets what an earlier
one said. -/
structure AnswersInv (schemaMethod : Schema → String → Except π Method)
    (s : State ι Schema Method Client π γ) : Prop where
  holds : ∀ call answer, (call, answer) ∈ s.answered → Holds schemaMethod s.shared call answer
  ordered : s.answered.Pairwise fun later earlier => ¬Forgets earlier later

omit [DecidableEq ι] in
theorem AnswersInv.keep (inv : AnswersInv schemaMethod s) (answered : s'.answered = s.answered)
    (grows : Grows s.shared s'.shared) : AnswersInv schemaMethod s' := by
  refine ⟨fun call answer member => ?_, answered ▸ inv.ordered⟩
  rw [answered] at member
  exact (inv.holds call answer member).mono grows

omit [DecidableEq ι] in
/-- One more answer, which is true and forgets nothing. -/
theorem AnswersInv.push (inv : AnswersInv schemaMethod s) {call : Call}
    {answer : Answer Method Client π γ} (answered : s'.answered = (call, answer) :: s.answered)
    (grows : Grows s.shared s'.shared) (holds : Holds schemaMethod s'.shared call answer)
    (mindful : ∀ earlier ∈ s.answered, ¬Forgets earlier (call, answer)) :
    AnswersInv schemaMethod s' := by
  constructor
  · intro call' answer' member
    rw [answered, List.mem_cons] at member
    rcases member with new | old
    · cases new
      exact holds
    -- what an earlier answer says is not taken back
    · exact (inv.holds call' answer' old).mono grows
  · rw [answered]
    exact List.pairwise_cons.mpr ⟨mindful, inv.ordered⟩

omit [DecidableEq ι] in
/-- What justifies an answer holds, and nothing that was promised is denied. -/
theorem Justified.spec {call : Call} {answer : Answer Method Client π γ}
    (justified : Justified s i call answer) (connect : ConnectInv s)
    (cache : CacheInv schemaMethod s) (inv : AnswersInv schemaMethod s) :
    Holds schemaMethod s.shared call answer ∧
      ∀ earlier ∈ s.answered, ¬Forgets earlier (call, answer) := by
  cases justified with
  | cached cached => exact ⟨.method (cache.known _ _ cached), fun _ _ forgets => by cases forgets⟩
  -- a load that was answered has set the schema, and the cell is never emptied
  | notLoaded none =>
    refine ⟨.notLoaded, fun earlier member forgets => ?_⟩
    cases forgets with
    | schema =>
      cases inv.holds _ _ member with
      | loaded _ held =>
        rw [none] at held
        cases held
  | noMethod => exact ⟨.noMethod, fun _ _ forgets => by cases forgets⟩
  | otherSpec remembered other =>
    exact ⟨.otherConnect remembered other, fun _ _ forgets => by cases forgets⟩
  | connected here connected =>
    exact ⟨.connected (connect.asked i _ _ (.inl here)) connected,
      fun _ _ forgets => by cases forgets⟩
  -- the same for a connection
  | client =>
    cases connected : s.shared.client with
    | some client => exact ⟨.client connected, fun _ _ forgets => by cases forgets⟩
    | none =>
      refine ⟨.noClient, fun earlier member forgets => ?_⟩
      cases forgets with
      | client =>
        cases inv.holds _ _ member with
        | connected _ held =>
          rw [connected] at held
          cases held

/-- Every move keeps the answers: most give none, and one that does has just read or written what it
answers about. -/
theorem AnswersInv.move (inv : AnswersInv schemaMethod s) (move : Move schemaMethod s i s')
    (load : LoadInv s) (connect : ConnectInv s) (cache : CacheInv schemaMethod s) :
    AnswersInv schemaMethod s' := by
  have grows := move.grows connect
  cases move with
  | answer _ _ justified =>
    obtain ⟨holds, mindful⟩ := justified.spec connect cache inv
    exact inv.push rfl grows (holds.mono grows) mindful
  | @loadedBefore spec existing here remembered =>
    -- whoever set the arguments has set the schema before giving up the lock
    have published : ∃ schema, s.shared.schema = some schema := by
      rcases load.at here trivial with ⟨none, -⟩ | ⟨_, schema, -, held, -⟩
      · rw [none] at remembered
        cases remembered
      · exact ⟨schema, held⟩
    obtain ⟨schema, held⟩ := published
    by_cases other : existing ≠ spec
    · rw [if_pos other] at grows ⊢
      exact inv.push rfl grows (.otherLoad remembered held other) fun _ _ forgets => by cases forgets
    · rw [if_neg other] at grows ⊢
      obtain rfl := not_not.mp other
      exact inv.push rfl grows (.loaded remembered held) fun _ _ forgets => by cases forgets
  | compileFailed here =>
    exact inv.push rfl grows .notCompiled fun _ _ forgets => by cases forgets
  | loaded here =>
    obtain ⟨schema, remembered, held, -⟩ := load.at here trivial
    exact inv.push rfl grows (.loaded remembered held) fun _ _ forgets => by cases forgets
  | insert here =>
    exact inv.push rfl grows (.method ((cache.found i _ _ here).mono grows))
      fun _ _ forgets => by cases forgets
  | connectFailed here =>
    exact inv.push rfl grows .notConnected fun _ _ forgets => by cases forgets
  | connected here =>
    exact inv.push rfl grows (.connected (connect.asked i _ _ (.inr here)) rfl)
      fun _ _ forgets => by cases forgets
  | _ => exact inv.keep rfl grows

/-! ### All interleavings -/

/-- All that holds between two steps, one part for each concern. -/
structure Inv (schemaMethod : Schema → String → Except π Method)
    (s : State ι Schema Method Client π γ) : Prop where
  load : LoadInv s
  connect : ConnectInv s
  cache : CacheInv schemaMethod s
  answers : AnswersInv schemaMethod s

/-- The invariant holds in every state that is reached, however the tasks take turns. -/
theorem inv_of_reachable (run : (machine ι Client γ schemaMethod).Reachable s) :
    Inv schemaMethod s := by
  refine run.invariant (Inv schemaMethod) ?_ ?_
  · rintro s rfl
    constructor
    case load => exact ⟨fun i => by simp [Pc.InLoad], .inl ⟨rfl, rfl, rfl⟩⟩
    case connect => constructor <;> simp [Pc.Connecting, new]
    case cache => constructor <;> simp [new]
    case answers => exact ⟨by simp, .nil⟩
  · intro s a s' inv taken
    -- one move at a time, and each part of the invariant along it
    have move := step_move taken
    exact
      { load := inv.load.move move
        connect := inv.connect.move move
        cache := inv.cache.move move (move.grows inv.connect)
        answers := inv.answers.move move inv.load inv.connect inv.cache }

/-- There is no VU in the middle of a call, or one of them can go on. -/
theorem Inv.progress [Inhabited π] [Inhabited γ] (inv : Inv schemaMethod s)
    (busy : s.pc i ≠ .idle) :
    ∃ a : Action ι Schema Client π γ, s.pc a.task ≠ .idle ∧ (step schemaMethod s a).isSome := by
  -- a VU that has the lock, or that connects, does not wait for anything
  have holder (j : ι) (inLoad : (s.pc j).InLoad) :
      ∃ a : Action ι Schema Client π γ, s.pc a.task ≠ .idle ∧ (step schemaMethod s a).isSome := by
    cases here : s.pc j with
    | compiling spec =>
      exact ⟨.compile j (.error default), by simp [Action.task, here], by simp [step, here]⟩
    | locked spec =>
      refine ⟨.proceed j, by simp [Action.task, here], ?_⟩
      simp only [step, proceed, here]
      split <;> rfl
    | compiled spec schema | specSet spec schema | clearing spec | cleared spec =>
      exact ⟨.proceed j, by simp [Action.task, here], by simp [step, proceed, here]⟩
    | _ => simp [here, Pc.InLoad] at inLoad
  have connecting (j : ι) (attempt : (s.pc j).Connecting) :
      ∃ a : Action ι Schema Client π γ, s.pc a.task ≠ .idle ∧ (step schemaMethod s a).isSome := by
    cases here : s.pc j with
    | connecting target opts =>
      exact ⟨.connect j (.error default), by simp [Action.task, here], by simp [step, here]⟩
    | _ => simp [here, Pc.Connecting] at attempt
  cases here : s.pc i with
  | idle => exact absurd here busy
  | locked _ | compiling _ | compiled _ _ | specSet _ _ | clearing _ | cleared _ =>
    exact holder i (by simp [here, Pc.InLoad])
  | connecting _ _ => exact connecting i (by simp [here, Pc.Connecting])
  -- whoever has the permit goes on, and if nobody has, this VU takes it
  | joining target opts =>
    cases connected : s.shared.client with
    | some client =>
      exact ⟨.proceed i, by simp [Action.task, here], by simp [step, proceed, here, connected]⟩
    | none =>
      cases held : s.initPermit with
      | some j => exact connecting j ((inv.connect.permit j).mp held)
      | none =>
        exact ⟨.proceed i, by simp [Action.task, here],
          by simp [step, proceed, here, connected, held]⟩
  | missed fullMethod =>
    refine ⟨.proceed i, by simp [Action.task, here], ?_⟩
    simp only [step, proceed, here]
    split
    · rfl
    · split <;> rfl
  | found fullMethod method =>
    refine ⟨.proceed i, by simp [Action.task, here], ?_⟩
    simp only [step, proceed, here]
    split <;> rfl
  | called call =>
    cases call with
    | load spec =>
      cases held : s.loadLock with
      | some j => exact holder j ((inv.load.lock j).mp held)
      | none => exact ⟨.proceed i, by simp [Action.task, here], by simp [step, proceed, here, held]⟩
    | method fullMethod =>
      refine ⟨.proceed i, by simp [Action.task, here], ?_⟩
      simp only [step, proceed, here]
      split <;> rfl
    | connect target opts =>
      refine ⟨.proceed i, by simp [Action.task, here], ?_⟩
      simp only [step, proceed, here]
      split
      · split <;> rfl
      · rfl
    | client => exact ⟨.proceed i, by simp [Action.task, here], by simp [step, proceed, here]⟩

/-- What the VUs can rely on. -/
structure Consistent (schemaMethod : Schema → String → Except π Method)
    (s : State ι Schema Method Client π γ) : Prop where
  one_compiles : ∀ i j, (s.pc i).Compiling → (s.pc j).Compiling → i = j
  one_connects : ∀ i j, (s.pc i).Connecting → (s.pc j).Connecting → i = j
  one_schema : s.schemas.length ≤ 1
  one_pool : s.pools.length ≤ 1
  /-- A load that succeeds has asked for what was compiled, and one that is refused has not. -/
  loads : ∀ spec, (.load spec, .done (.ok ())) ∈ s.answered →
    ∃ schema, s.schemas = [(spec, schema)]
  other_loads : ∀ spec, (.load spec, .done (.error .loadSpecMismatch)) ∈ s.answered →
    ∃ other schema, s.schemas = [(other, schema)] ∧ other ≠ spec
  methods : ∀ fullMethod method, (.method fullMethod, .method (.ok method)) ∈ s.answered →
    ∃ spec schema, s.schemas = [(spec, schema)] ∧ schemaMethod schema fullMethod = .ok method
  connects : ∀ target opts, (.connect target opts, .done (.ok ())) ∈ s.answered →
    ∃ client, s.pools = [(.of target opts, client)]
  clients : ∀ client, (.client, .client (some client)) ∈ s.answered →
    ∃ spec, s.pools = [(spec, client)]
  ordered : s.answered.Pairwise fun later earlier => ¬Forgets earlier later
  progress : ∀ i, s.pc i ≠ .idle →
    ∃ a : Action ι Schema Client π γ, s.pc a.task ≠ .idle ∧ (step schemaMethod s a).isSome

omit [DecidableEq ι] in
/-- The compiler succeeds once at most. -/
theorem LoadInv.one_schema (inv : LoadInv s) : s.schemas.length ≤ 1 := by
  have cells := inv.cells
  unfold CellsAt at cells
  split at cells
  next => simp [cells.2.2]
  next => simp [cells.2.2]
  next => simp [cells.2.2]
  next =>
    obtain ⟨schema, -, -, compiled⟩ := cells
    simp [compiled]
  next =>
    obtain ⟨schema, -, -, compiled⟩ := cells
    simp [compiled]
  -- nobody has the lock: nothing is loaded, or everything
  next => rcases cells with ⟨-, -, compiled⟩ | ⟨spec, schema, -, -, compiled⟩ <;> simp [compiled]

/-- However the calls of the VUs are interleaved and whatever the compilations and the attempts to
connect come to: at most one schema is ever compiled and one pool connected, one at a time; every
success is one of these, every method answered is one of this schema, nothing that a VU has been
told to be there is missing later, and no VU waits forever. -/
theorem shared_calls_consistent [Inhabited π] [Inhabited γ]
    (schemaMethod : Schema → String → Except π Method)
    {s : State ι Schema Method Client π γ}
    (run : (machine ι Client γ schemaMethod).Reachable s) : Consistent schemaMethod s := by
  have inv := inv_of_reachable run
  constructor
  -- compiling is only done with the lock held
  case one_compiles =>
    intro i j here there
    have inLoad (k : ι) (compiling : (s.pc k).Compiling) : s.loadLock = some k := by
      rw [inv.load.lock]
      cases place : s.pc k <;> simp_all [Pc.Compiling, Pc.InLoad]
    exact Option.some.inj ((inLoad i here).symm.trans (inLoad j there))
  case one_connects =>
    intro i j here there
    have first := (inv.connect.permit i).mpr here
    exact Option.some.inj (first.symm.trans ((inv.connect.permit j).mpr there))
  case one_schema => exact inv.load.one_schema
  case one_pool =>
    cases connected : s.shared.client with
    | none => simp [inv.connect.unconnected connected]
    | some client =>
      obtain ⟨spec, -, pools⟩ := inv.connect.pool client connected
      simp [pools]
  -- the answer says what the cells held then, and the cells agree with what was compiled
  case loads =>
    intro spec member
    cases inv.answers.holds _ _ member with
    | @loaded _ schema remembered held =>
      obtain ⟨spec', remembered', compiled⟩ := inv.load.published held
      rw [remembered] at remembered'
      cases remembered'
      exact ⟨schema, compiled⟩
  case other_loads =>
    intro spec member
    cases inv.answers.holds _ _ member with
    | @otherLoad _ existing schema remembered held other =>
      obtain ⟨spec', remembered', compiled⟩ := inv.load.published held
      rw [remembered] at remembered'
      cases remembered'
      exact ⟨existing, schema, compiled, other⟩
  case methods =>
    intro fullMethod method member
    cases inv.answers.holds _ _ member with
    | method of =>
      obtain ⟨schema, held, built⟩ := of
      obtain ⟨spec, -, compiled⟩ := inv.load.published held
      exact ⟨spec, schema, compiled, built⟩
  case connects =>
    intro target opts member
    cases inv.answers.holds _ _ member with
    | @connected _ _ client asked connected =>
      obtain ⟨spec, asked', pools⟩ := inv.connect.pool client connected
      rw [asked] at asked'
      cases asked'
      exact ⟨client, pools⟩
  case clients =>
    intro client member
    cases inv.answers.holds _ _ member with
    | client connected =>
      obtain ⟨spec, -, pools⟩ := inv.connect.pool client connected
      exact ⟨spec, pools⟩
  case ordered => exact inv.answers.ordered
  case progress => exact fun i busy => inv.progress busy

/-- A schema whose methods are their own names. -/
def ownNames (_ : Unit) (fullMethod : String) : Except Unit String := .ok fullMethod

/-- Two VUs load and connect at once: the first one's attempt to connect fails, the second one's is
the connection that both get in the end. -/
theorem shared_calls_consistent_twoVus :
    ∃ s : State (Fin 2) Unit String Nat Unit Unit,
      (machine (Fin 2) Nat Unit ownNames).Reachable s ∧ s.answered.length = 7 ∧
        s.schemas.length ≤ 1 ∧ s.pools.length ≤ 1 := by
  let spec : LoadSpec := { includePaths := ["proto"], protoFile := "echo.proto" }
  let opts : ConnectOptions := { timeout := none, tls := none }
  -- both load, both ask to connect, the second one's attempt lasts, and both look up the method
  obtain ⟨s, run, answers⟩ := Machine.exists_reachableBy_of_exec
    (machine (Fin 2) Nat Unit ownNames) (fun _ _ => True) (fun s => s.answered.length = 7)
    [.call 0 (.load spec), .call 1 (.load spec), .proceed 0, .proceed 0, .compile 0 (.ok ()),
      .proceed 0, .proceed 0, .proceed 0, .proceed 0, .proceed 1, .proceed 1,
      .call 0 (.connect "server" opts), .call 1 (.connect "server" opts), .proceed 0, .proceed 1,
      .proceed 0, .connect 0 (.error ()), .proceed 1, .call 0 (.connect "server" opts), .proceed 0,
      .connect 1 (.ok 5), .proceed 0, .call 0 (.method "echo"), .proceed 0, .call 1 (.method "echo"),
      .proceed 1, .proceed 0, .proceed 1, .proceed 0, .proceed 1] rfl (by decide)
  have consistent := shared_calls_consistent ownNames run
  exact ⟨s, run, answers, consistent.one_schema, consistent.one_pool⟩

end SharedCalls

end Wrkr.Grpc

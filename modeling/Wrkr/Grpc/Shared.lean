import Mathlib.Data.List.Induction
import Wrkr.Grpc.Proto

/-!
# The shared gRPC client

One client serves all VUs: the first schema that is loaded and the first connection that is made
are kept, and a later call must ask for the same. `load` compiles before it remembers what was
asked for; `connect` remembers first. So a load that fails leaves no trace, and a connect that
fails leaves its arguments, which every later connect is then compared with.

What a call finds outside (the files of a schema, the server) is its own argument, since it may be
another one at each call.
-/
namespace Wrkr.Grpc

/-- The TLS options of a connection. -/
structure TlsConfig where
  caPem : Option (List UInt8)
  identityPem : Option (List UInt8)
  identityKeyPem : Option (List UInt8)
  domainName : Option String
  insecureSkipVerify : Bool
  deriving DecidableEq, Repr

/-- The timeout is in nanoseconds. -/
structure ConnectOptions where
  timeout : Option Nat
  tls : Option TlsConfig
  deriving DecidableEq, Repr

/-- The source keeps `PathBuf`s and compares them by their components. A path is given here by one
text for each list of components (`a/b` for `a//b` as well), so that equal paths are equal texts. -/
structure LoadSpec where
  includePaths : List String
  protoFile : String
  deriving DecidableEq, Repr

/-- The same, as they are remembered. -/
structure ConnectSpecTls where
  caPem : Option (List UInt8)
  identityPem : Option (List UInt8)
  identityKeyPem : Option (List UInt8)
  domainName : Option String
  insecureSkipVerify : Bool
  deriving DecidableEq, Repr

/-- What a connection was asked for. -/
structure ConnectSpec where
  target : String
  timeout : Option Nat
  tls : Option ConnectSpecTls
  deriving DecidableEq, Repr

/-- The spec keeps everything that two calls can differ in. -/
def ConnectSpec.of (target : String) (opts : ConnectOptions) : ConnectSpec where
  target := target
  timeout := opts.timeout
  tls := opts.tls.map fun tls =>
    { caPem := tls.caPem
      identityPem := tls.identityPem
      identityKeyPem := tls.identityKeyPem
      domainName := tls.domainName
      insecureSkipVerify := tls.insecureSkipVerify }

/-- `ProtoError` and the error of a connection are `π` and `γ`. -/
inductive SharedError (π γ : Type)
  | loadSpecMismatch
  | connectSpecMismatch
  | notLoaded
  | proto (e : π)
  | grpc (e : γ)
  deriving DecidableEq, Repr

/-- The cells that the VUs share: two for `load`, two for `connect`, and the cache of methods. -/
structure SharedGrpcClient (Schema Method Client : Type) where
  loadSpec : Option LoadSpec
  schema : Option Schema
  methods : List (String × Method)
  connectSpec : Option ConnectSpec
  client : Option Client
  deriving DecidableEq, Repr

namespace SharedGrpcClient

variable {Schema Method Client π γ : Type}

def new : SharedGrpcClient Schema Method Client :=
  { loadSpec := none, schema := none, methods := [], connectSpec := none, client := none }

/-- `OnceLock::set`, which leaves a cell that is set as it is. -/
def setOnce {α : Type} (cell : Option α) (a : α) : Option α := cell.or (some a)

/-- Under the lock: a second load must be the same as the first one, and the spec is stored after
the compilation. -/
def load (s : SharedGrpcClient Schema Method Client) (includePaths : List String)
    (protoFile : String) (compileFromProto : Except π Schema) :
    SharedGrpcClient Schema Method Client × Except (SharedError π γ) Unit :=
  let spec : LoadSpec := { includePaths, protoFile }
  match s.loadSpec with
  | some existing => if existing ≠ spec then (s, .error .loadSpecMismatch) else (s, .ok ())
  | none =>
    match compileFromProto with
    -- nothing is stored, so the next load may name other files
    | .error e => (s, .error (.proto e))
    | .ok schema =>
      ({ s with
          loadSpec := setOnce s.loadSpec spec
          schema := setOnce s.schema schema
          methods := [] }, .ok ())

/-- A method is built from the schema once and then taken from the cache. -/
def method (schemaMethod : Schema → String → Except π Method)
    (s : SharedGrpcClient Schema Method Client) (fullMethod : String) :
    SharedGrpcClient Schema Method Client × Except (SharedError π γ) Method :=
  match s.methods.lookup fullMethod with
  | some existing => (s, .ok existing)
  | none =>
    match s.schema with
    | none => (s, .error .notLoaded)
    | some schema =>
      match schemaMethod schema fullMethod with
      | .error e => (s, .error (.proto e))
      | .ok method => ({ s with methods := (fullMethod, method) :: s.methods }, .ok method)

/-- `OnceCell::get_or_try_init`: the cell and what is returned. -/
def getOrTryInit {α ε : Type} (cell : Option α) (attempt : Except ε α) :
    Option α × Except ε α :=
  match cell with
  | some a => (some a, .ok a)
  | none =>
    match attempt with
    | .ok a => (some a, .ok a)
    | .error e => (none, .error e)

/-- The last statement of `connect`; `connectPooled` is the outcome of an attempt to connect. -/
def initClient (s : SharedGrpcClient Schema Method Client) (connectPooled : Except γ Client) :
    SharedGrpcClient Schema Method Client × Except (SharedError π γ) Unit :=
  let (client, result) := getOrTryInit s.client connectPooled
  ({ s with client }, (result.map fun _ => ()).mapError .grpc)

/-- The spec is stored before there is a connection, so it stays when the attempt fails. -/
def connect (s : SharedGrpcClient Schema Method Client) (target : String) (opts : ConnectOptions)
    (connectPooled : Except γ Client) :
    SharedGrpcClient Schema Method Client × Except (SharedError π γ) Unit :=
  let spec := ConnectSpec.of target opts
  match s.connectSpec with
  | some existing =>
    if existing ≠ spec then (s, .error .connectSpecMismatch) else s.initClient connectPooled
  | none => { s with connectSpec := some spec }.initClient connectPooled

end SharedGrpcClient

open SharedGrpcClient

/-! ### Histories of `connect` -/

/-- A call with the outcome that an attempt to connect has at its time. -/
structure ConnectCall (Client γ : Type) where
  target : String
  opts : ConnectOptions
  connectPooled : Except γ Client

namespace ConnectCall

variable {Schema Method Client π γ : Type}

def spec (call : ConnectCall Client γ) : ConnectSpec := .of call.target call.opts

def Connects (call : ConnectCall Client γ) : Prop := ∃ client, call.connectPooled = .ok client

variable (Schema Method π)

/-- The shared client after the calls. -/
def state (calls : List (ConnectCall Client γ)) : SharedGrpcClient Schema Method Client :=
  calls.foldl (fun s call => (s.connect (π := π) call.target call.opts call.connectPooled).1) new

/-- What a call returns after the earlier ones. -/
def answer (before : List (ConnectCall Client γ)) (call : ConnectCall Client γ) :
    Except (SharedError π γ) Unit :=
  ((state Schema Method π before).connect call.target call.opts call.connectPooled).2

/-- One of the calls, with such a spec, has succeeded. -/
def Succeeded (calls : List (ConnectCall Client γ)) (p : ConnectSpec → Prop) : Prop :=
  ∃ before call rest, calls = before ++ call :: rest ∧
    answer Schema Method π before call = .ok () ∧ p call.spec

/-- A failed call leaves the client as it was: only a success with another spec makes a later call
a mismatch, and as long as there is no success a call gets the outcome of its own attempt. -/
def FailureForgotten (calls : List (ConnectCall Client γ)) : Prop :=
  ∀ before call rest, calls = before ++ call :: rest →
    (answer Schema Method π before call = .error .connectSpecMismatch →
      Succeeded Schema Method π before (· ≠ call.spec)) ∧
    (¬Succeeded Schema Method π before (fun _ => True) →
      answer Schema Method π before call = (call.connectPooled.map fun _ => ()).mapError .grpc)

variable {Schema Method π}

/-- One of the calls that ask for the same as the first one finds a connection. -/
def FirstConnects (calls : List (ConnectCall Client γ)) : Prop :=
  ∃ first, calls.head? = some first ∧ ∃ call ∈ calls, call.spec = first.spec ∧ call.Connects

/-- Every call that asks for something else than the first one comes after a call that asked for
the same as the first one and found a connection. -/
def OthersAfterConnection (calls : List (ConnectCall Client γ)) : Prop :=
  ∀ before call rest, calls = before ++ call :: rest →
    ∀ first, calls.head? = some first → call.spec ≠ first.spec → FirstConnects before

theorem connect_mismatch {s : SharedGrpcClient Schema Method Client} {call : ConnectCall Client γ}
    {spec : ConnectSpec} (remembered : s.connectSpec = some spec) (other : call.spec ≠ spec) :
    s.connect (π := π) call.target call.opts call.connectPooled =
      (s, .error .connectSpecMismatch) := by
  have differs : spec ≠ .of call.target call.opts := Ne.symm other
  simp [connect, remembered, differs]

/-- With the same spec the call comes to the attempt. -/
theorem connect_match {s : SharedGrpcClient Schema Method Client} {call : ConnectCall Client γ}
    (same : ∀ spec, s.connectSpec = some spec → call.spec = spec) :
    s.connect (π := π) call.target call.opts call.connectPooled =
      { s with connectSpec := some call.spec }.initClient call.connectPooled := by
  unfold connect
  cases remembered : s.connectSpec with
  | none => rfl
  | some spec =>
    obtain rfl := same spec remembered
    have kept : { s with connectSpec := some call.spec } = s := by rw [← remembered]
    rw [kept]
    exact if_neg (fun differs => differs rfl)

theorem initClient_cell (s : SharedGrpcClient Schema Method Client)
    (connectPooled : Except γ Client) :
    (s.initClient (π := π) connectPooled).1.connectSpec = s.connectSpec ∧
      ((s.initClient (π := π) connectPooled).1.client.isSome ↔
        s.client.isSome ∨ ∃ client, connectPooled = .ok client) := by
  cases held : s.client <;> cases connectPooled <;> simp [initClient, getOrTryInit, held]

theorem initClient_answer (s : SharedGrpcClient Schema Method Client)
    (connectPooled : Except γ Client) :
    (s.initClient (π := π) connectPooled).2 =
      if s.client.isSome then .ok () else (connectPooled.map fun _ => ()).mapError .grpc := by
  cases held : s.client <;> cases connectPooled <;>
    simp [initClient, getOrTryInit, held, Except.map, Except.mapError]

theorem state_snoc (calls : List (ConnectCall Client γ)) (call : ConnectCall Client γ) :
    state Schema Method π (calls ++ [call]) =
      ((state Schema Method π calls).connect (π := π) call.target call.opts
        call.connectPooled).1 := by
  simp [state]

theorem firstConnects_snoc (calls : List (ConnectCall Client γ)) (call : ConnectCall Client γ) :
    FirstConnects (calls ++ [call]) ↔ FirstConnects calls ∨
      (∀ first, calls.head? = some first → call.spec = first.spec) ∧ call.Connects := by
  cases calls with
  | nil => simp [FirstConnects]
  | cons first calls => simp [FirstConnects, or_and_right, exists_or, or_assoc]

variable (Schema Method π) in
/-- The remembered arguments are those of the first call, whether it succeeded or not. -/
theorem state_cells (calls : List (ConnectCall Client γ)) :
    (state Schema Method π calls).connectSpec = calls.head?.map spec ∧
      ((state Schema Method π calls).client.isSome ↔ FirstConnects calls) := by
  induction calls using List.reverseRecOn with
  | nil => simp [state, new, FirstConnects]
  | append_singleton calls call ih =>
    obtain ⟨remembered, connected⟩ := ih
    rw [state_snoc, firstConnects_snoc]
    by_cases same : ∀ first, calls.head? = some first → call.spec = first.spec
    · rw [connect_match (fun spec kept => ?_), (initClient_cell _ _).1, (initClient_cell _ _).2,
        ← connected]
      -- the same as the first one: the cell may be filled now
      · refine ⟨?_, or_congr_right (and_iff_right same).symm⟩
        cases calls with
        | nil => rfl
        | cons first calls => simpa using same first rfl
      · rw [remembered, Option.map_eq_some_iff] at kept
        obtain ⟨first, head, rfl⟩ := kept
        exact same first head
    · obtain ⟨first, head, other⟩ : ∃ first, calls.head? = some first ∧ call.spec ≠ first.spec := by
        simpa using same
      rw [connect_mismatch (by rw [remembered, head]; rfl) other, remembered, connected]
      refine ⟨by rw [List.head?_append, head]; rfl, (or_iff_left fun ⟨all, _⟩ => ?_).symm⟩
      exact other (all first head)

variable (Schema Method π) in
theorem answer_other {before : List (ConnectCall Client γ)} {call first : ConnectCall Client γ}
    (head : before.head? = some first) (other : call.spec ≠ first.spec) :
    answer Schema Method π before call = .error .connectSpecMismatch := by
  have remembered := (state_cells Schema Method π before).1
  rw [answer, connect_mismatch (by rw [remembered, head]; rfl) other]

variable (Schema Method π) in
/-- As long as all calls ask for the same, one succeeds when there is, or it makes, a connection. -/
theorem answer_same {before : List (ConnectCall Client γ)} {call : ConnectCall Client γ}
    (same : ∀ first, before.head? = some first → call.spec = first.spec) :
    (FirstConnects before → answer Schema Method π before call = .ok ()) ∧
      (¬FirstConnects before → answer Schema Method π before call =
        (call.connectPooled.map fun _ => ()).mapError .grpc) := by
  obtain ⟨remembered, connected⟩ := state_cells Schema Method π before
  -- the spec that is stored is that of the first call, which asked for the same
  have asked : ∀ spec, (state Schema Method π before).connectSpec = some spec →
      call.spec = spec := by
    intro spec kept
    rw [remembered, Option.map_eq_some_iff] at kept
    obtain ⟨first, head, rfl⟩ := kept
    exact same first head
  rw [answer, connect_match asked, initClient_answer, ← connected]
  exact ⟨fun held => if_pos held, fun empty => if_neg empty⟩

theorem attempt_ok_iff (call : ConnectCall Client γ) :
    (call.connectPooled.map fun _ => ()).mapError (SharedError.grpc (π := π)) = .ok () ↔
      call.Connects := by
  unfold Connects
  cases call.connectPooled <;> simp [Except.map, Except.mapError]

theorem attempt_not_mismatch (call : ConnectCall Client γ) :
    (call.connectPooled.map fun _ => ()).mapError (SharedError.grpc (π := π)) ≠
      .error .connectSpecMismatch := by
  cases call.connectPooled <;> simp [Except.map, Except.mapError]

/-- A call succeeds when the arguments are the first ones and there is, or it makes, a connection. -/
theorem answer_ok_iff {before : List (ConnectCall Client γ)} {call : ConnectCall Client γ} :
    answer Schema Method π before call = .ok () ↔
      (∀ first, before.head? = some first → call.spec = first.spec) ∧
        (FirstConnects before ∨ call.Connects) := by
  -- a call that asks for something else is refused whatever happened before
  by_cases same : ∀ first, before.head? = some first → call.spec = first.spec
  · obtain ⟨held, tried⟩ := answer_same Schema Method π same
    by_cases connected : FirstConnects before
    · exact iff_of_true (held connected) ⟨same, .inl connected⟩
    · rw [tried connected, attempt_ok_iff]
      exact ⟨fun connects => ⟨same, .inr connects⟩, fun ok => ok.2.resolve_left connected⟩
  · refine iff_of_false (fun done => ?_) fun ok => same ok.1
    obtain ⟨first, head, other⟩ : ∃ first, before.head? = some first ∧ call.spec ≠ first.spec := by
      simpa using same
    rw [answer_other Schema Method π head other] at done
    cases done

theorem firstConnects_append {before rest : List (ConnectCall Client γ)}
    (connected : FirstConnects before) : FirstConnects (before ++ rest) := by
  obtain ⟨first, head, call, member, same, connects⟩ := connected
  exact ⟨first, by rw [List.head?_append, head]; rfl, call, by simp [member], same, connects⟩

/-- There has been a success if the first spec has been connected. -/
theorem succeeded_iff {calls : List (ConnectCall Client γ)} {p : ConnectSpec → Prop} :
    Succeeded Schema Method π calls p ↔
      FirstConnects calls ∧ ∃ first, calls.head? = some first ∧ p first.spec := by
  constructor
  · rintro ⟨before, call, rest, rfl, done, holds⟩
    obtain ⟨same, connected⟩ := answer_ok_iff.mp done
    obtain ⟨first, head, asked⟩ : ∃ first, (before ++ call :: rest).head? = some first ∧
        call.spec = first.spec := by
      cases before with
      | nil => exact ⟨call, rfl, rfl⟩
      | cons first before => exact ⟨first, rfl, same first rfl⟩
    refine ⟨?_, first, head, asked ▸ holds⟩
    rcases connected with connected | connects
    · exact firstConnects_append connected
    · exact ⟨first, head, call, by simp, asked, connects⟩
  · rintro ⟨⟨first, head, call, member, asked, connects⟩, first', head', holds⟩
    rw [head] at head'
    cases head'
    -- the call that connects is itself one that succeeds, wherever it stands
    obtain ⟨before, rest, rfl⟩ := List.append_of_mem member
    refine ⟨before, call, rest, rfl, answer_ok_iff.mpr ⟨fun f start => ?_, .inr connects⟩,
      asked ▸ holds⟩
    rw [List.head?_append, start] at head
    cases head
    exact asked

/-- A failed connect is without trace in exactly the histories in which nobody asks for anything
else than the first call did before there is a connection. -/
theorem failureForgotten_iff (calls : List (ConnectCall Client γ)) :
    FailureForgotten Schema Method π calls ↔ OthersAfterConnection calls := by
  constructor
  · intro forgotten before call rest split first head other
    -- the call that asks for something else is not the first one
    have start : before.head? = some first := by
      cases before with
      | nil =>
        subst split
        cases head
        exact absurd rfl other
      | cons first' before =>
        subst split
        exact head
    have rejected := answer_other Schema Method π start other
    exact (succeeded_iff.mp ((forgotten before call rest split).1 rejected)).1
  · intro later before call rest split
    by_cases same : ∀ first, before.head? = some first → call.spec = first.spec
    · obtain ⟨held, tried⟩ := answer_same Schema Method π same
      constructor
      · intro rejected
        -- all calls so far have asked for the same, so a refusal can only come from a connection
        by_cases connected : FirstConnects before
        · rw [held connected] at rejected
          cases rejected
        · rw [tried connected] at rejected
          exact absurd rejected (attempt_not_mismatch call)
      · intro failed
        refine tried fun connected => failed (succeeded_iff.mpr ⟨connected, ?_⟩)
        obtain ⟨first, head, -⟩ := connected
        exact ⟨first, head, trivial⟩
    · obtain ⟨first, head, other⟩ : ∃ first, before.head? = some first ∧
          call.spec ≠ first.spec := by
        simpa using same
      have connected := later before call rest split first
        (by rw [split, List.head?_append, head]; rfl) other
      exact ⟨fun _ => succeeded_iff.mpr ⟨connected, first, head, Ne.symm other⟩,
        fun failed => absurd (succeeded_iff.mpr ⟨connected, first, head, trivial⟩) failed⟩

/-- The server of the first call is down; the one that the second asks for is there. -/
theorem failed_connect_remembered :
    ¬FailureForgotten Unit Unit Unit
      [{ target := "a:50051", opts := { timeout := none, tls := none }, connectPooled := .error () },
        { target := "b:50051", opts := { timeout := none, tls := none },
          connectPooled := (.ok () : Except Unit Unit) }] := by
  intro forgotten
  have succeeded := (forgotten [_] _ [] rfl).1 (by decide)
  obtain ⟨⟨first, head, call, member, -, client, connects⟩, -⟩ := succeeded_iff.mp succeeded
  rw [List.mem_singleton.mp member] at connects
  cases connects

end ConnectCall

/-! ### Histories of `load` -/

/-- A load with what the compilation comes to. -/
structure LoadCall (Schema π : Type) where
  includePaths : List String
  protoFile : String
  compileFromProto : Except π Schema

namespace LoadCall

variable {Schema Method Client π γ : Type}

def spec (call : LoadCall Schema π) : LoadSpec :=
  { includePaths := call.includePaths, protoFile := call.protoFile }

variable (Method Client γ)

def state (calls : List (LoadCall Schema π)) : SharedGrpcClient Schema Method Client :=
  calls.foldl
    (fun s call => (s.load (γ := γ) call.includePaths call.protoFile call.compileFromProto).1) new

def answer (before : List (LoadCall Schema π)) (call : LoadCall Schema π) :
    Except (SharedError π γ) Unit :=
  ((state Method Client γ before).load call.includePaths call.protoFile call.compileFromProto).2

variable {Method Client γ}

/-- A load that fails leaves everything as it was. -/
theorem load_failed {s : SharedGrpcClient Schema Method Client} {call : LoadCall Schema π}
    {e : SharedError π γ}
    (failed : (s.load call.includePaths call.protoFile call.compileFromProto).2 = .error e) :
    (s.load (γ := γ) call.includePaths call.protoFile call.compileFromProto).1 = s := by
  unfold load at failed ⊢
  cases remembered : s.loadSpec with
  | some existing => simp only [apply_ite Prod.fst, ite_self]
  | none =>
    cases compiled : call.compileFromProto with
    | error e => rfl
    | ok schema => simp [remembered, compiled] at failed

/-- A load that stores its spec has compiled, and its schema is stored as well. -/
theorem load_remembers {s : SharedGrpcClient Schema Method Client} {call : LoadCall Schema π}
    {spec : LoadSpec}
    (remembered : (s.load (γ := γ) call.includePaths call.protoFile
      call.compileFromProto).1.loadSpec = some spec) :
    s.loadSpec = some spec ∨ spec = call.spec ∧
      (s.load (γ := γ) call.includePaths call.protoFile call.compileFromProto).2 = .ok () := by
  cases result : (s.load (γ := γ) call.includePaths call.protoFile call.compileFromProto).2 with
  | error e => exact .inl (load_failed result ▸ remembered)
  | ok done =>
    unfold load at remembered
    cases earlier : s.loadSpec with
    | some existing =>
      -- with a spec stored, both branches leave the state as it is
      simp only [earlier, apply_ite Prod.fst, ite_self] at remembered
      exact .inl remembered
    | none =>
      cases compiled : call.compileFromProto with
      | error e => simp [load, earlier, compiled] at result
      | ok schema =>
        simp only [earlier, compiled, setOnce, Option.none_or, Option.some.injEq] at remembered
        exact .inr ⟨remembered.symm, rfl⟩

/-- The mirror law: the arguments that a load is compared with are those of an earlier load that
has succeeded. -/
theorem load_mismatch {before : List (LoadCall Schema π)} {call : LoadCall Schema π}
    (rejected : answer Method Client γ before call = .error .loadSpecMismatch) :
    ∃ pre earlier rest, before = pre ++ earlier :: rest ∧
      answer Method Client γ pre earlier = .ok () ∧ earlier.spec ≠ call.spec := by
  have remembered : ∃ spec, (state Method Client γ before).loadSpec = some spec ∧
      spec ≠ call.spec := by
    unfold answer load at rejected
    cases kept : (state Method Client γ before).loadSpec with
    | some existing =>
      refine ⟨existing, rfl, fun same => ?_⟩
      simp [kept, same, spec] at rejected
    | none => cases compiled : call.compileFromProto <;> simp [kept, compiled] at rejected
  obtain ⟨spec, kept, other⟩ := remembered
  -- the spec was stored by some earlier call: the induction looks for it from the end
  clear rejected
  induction before using List.reverseRecOn with
  | nil => cases kept
  | append_singleton before last ih =>
    rw [state, List.foldl_append] at kept
    rcases load_remembers kept with earlier | ⟨rfl, done⟩
    · obtain ⟨pre, found, rest, rfl, done, differs⟩ := ih earlier
      exact ⟨pre, found, rest ++ [last], by simp, done, differs⟩
    · exact ⟨before, last, [], rfl, done, other⟩

end LoadCall

/-! ### The methods of the schema -/

/-- A request to the shared client. -/
inductive SharedRequest (Schema Client π γ : Type)
  | load (call : LoadCall Schema π)
  | method (fullMethod : String)
  | connect (call : ConnectCall Client γ)

namespace SharedGrpcClient

variable {Schema Method Client π γ : Type} (schemaMethod : Schema → String → Except π Method)

/-- One request after the other. -/
def serve (s : SharedGrpcClient Schema Method Client) :
    SharedRequest Schema Client π γ → SharedGrpcClient Schema Method Client
  | .load call => (s.load (γ := γ) call.includePaths call.protoFile call.compileFromProto).1
  | .method fullMethod => (s.method (γ := γ) schemaMethod fullMethod).1
  | .connect call => (s.connect (π := π) call.target call.opts call.connectPooled).1

/-- A schema is held when its arguments are, and the cached methods are what it says. -/
structure Wf (s : SharedGrpcClient Schema Method Client) : Prop where
  together : s.schema.isSome ↔ s.loadSpec.isSome
  known : ∀ name m, s.methods.lookup name = some m →
    ∃ schema, s.schema = some schema ∧ schemaMethod schema name = .ok m

variable {schemaMethod}

/-- A load stores the spec together with its schema. -/
theorem Wf.load {s : SharedGrpcClient Schema Method Client} (wf : s.Wf schemaMethod)
    (call : LoadCall Schema π) :
    (s.load (γ := γ) call.includePaths call.protoFile call.compileFromProto).1.Wf
      schemaMethod := by
  unfold SharedGrpcClient.load
  cases kept : s.loadSpec with
  | some existing => simpa only [apply_ite Prod.fst, ite_self] using wf
  | none =>
    cases compiled : call.compileFromProto with
    | error e => exact wf
    | ok schema =>
      refine ⟨?_, fun name m cached => by cases cached⟩
      cases s.schema <;> simp [setOnce]

/-- A method is cached only if the schema has it. -/
theorem Wf.method {s : SharedGrpcClient Schema Method Client} (wf : s.Wf schemaMethod)
    (fullMethod : String) : (s.method (γ := γ) schemaMethod fullMethod).1.Wf schemaMethod := by
  unfold SharedGrpcClient.method
  cases cached : s.methods.lookup fullMethod with
  | some existing => exact wf
  | none =>
    cases held : s.schema with
    | none => exact wf
    | some schema =>
      dsimp only
      cases found : schemaMethod schema fullMethod with
      | error e => exact wf
      | ok answer =>
        -- the new entry is an answer of the schema, the others were
        refine ⟨held ▸ wf.together, fun name m looked => ?_⟩
        change ((fullMethod, answer) :: s.methods).lookup name = some m at looked
        rw [List.lookup_cons] at looked
        split at looked
        next same =>
          cases looked
          exact ⟨schema, rfl, beq_iff_eq.mp same ▸ found⟩
        next => exact held ▸ wf.known name m looked

/-- A connection is there only with a spec. -/
theorem Wf.connect {s : SharedGrpcClient Schema Method Client} (wf : s.Wf schemaMethod)
    (call : ConnectCall Client γ) :
    (s.connect (π := π) call.target call.opts call.connectPooled).1.Wf schemaMethod := by
  unfold SharedGrpcClient.connect
  cases s.connectSpec with
  | none => exact ⟨wf.together, wf.known⟩
  | some existing =>
    dsimp only
    split
    · exact wf
    · exact ⟨wf.together, wf.known⟩

/-- Whatever was asked for before, an answered method is one of the schema that was loaded. -/
theorem method_of_schema (requests : List (SharedRequest Schema Client π γ)) {fullMethod : String}
    {m : Method}
    (answered : ((requests.foldl (serve schemaMethod) new).method (γ := γ) schemaMethod
      fullMethod).2 = .ok m) :
    ∃ schema, (requests.foldl (serve schemaMethod) new).schema = some schema ∧
      schemaMethod schema fullMethod = .ok m := by
  have wf : (requests.foldl (serve schemaMethod) new).Wf schemaMethod := by
    refine List.foldlRecOn requests _ ⟨by simp [new], fun name m cached => by cases cached⟩ ?_
    rintro s wf (call | name | call) -
    · exact wf.load call
    · exact wf.method name
    · exact wf.connect call
  -- the requests do not matter any more, only that they leave a well-formed client
  generalize requests.foldl (serve schemaMethod) new = s at wf answered
  unfold SharedGrpcClient.method at answered
  cases cached : s.methods.lookup fullMethod with
  | some existing =>
    simp only [cached, Except.ok.injEq] at answered
    exact wf.known fullMethod m (answered ▸ cached)
  | none =>
    cases held : s.schema with
    | none => simp [cached, held] at answered
    | some schema =>
      cases found : schemaMethod schema fullMethod with
      | error e => simp [cached, held, found] at answered
      | ok answer =>
        simp only [cached, held, found, Except.ok.injEq] at answered
        exact ⟨schema, rfl, answered ▸ found⟩

end SharedGrpcClient

end Wrkr.Grpc
